import MrubyZmq.Timers.Schedule

/-!
# The timeout, and intervals that are started again

The other calls of libzmq on a table: `zmq_timers_timeout` looks for the first
entry which is not marked, and drops those before it; `zmq_timers_set_interval`
and `zmq_timers_reset` insert an entry again.

All of them are made outside of `execute` here.
-/

namespace MrubyZmq

namespace Table

variable (t : Table)

/-- The marked entries in front are dropped, with their marks. -/
def dropMarked : List Entry → (marks : List ℕ) → List Entry × List ℕ
  | [], marks => ([], marks)
  | e :: l, marks =>
    if e.id ∈ marks then dropMarked l (marks.erase e.id) else (e :: l, marks)

/-- `zmq_timers_timeout`. -/
def timeout : ℤ × Table :=
  let (rest, marks) := dropMarked t.rest t.marks
  let rc : ℤ := match rest with
    | [] => -1
    | e :: _ => max ((e.due : ℤ) - t.clock) 0
  (rc, { t with rest, marks })

/-- `zmq_timers_set_interval`, and `zmq_timers_reset`, which leaves the interval
    as it is: the entry is inserted again. -/
def restart (interval : Option ℤ) (id : ℕ) : Option Table :=
  (t.rest.find? (·.id = id)).map fun e =>
    let interval := interval.getD e.interval
    { t with rest := t.rest.erase e }.insert { e with due := t.clock + interval.toNat, interval }

/-- The table after the interval of an entry has been started again. -/
def restarted (e : Entry) (interval : ℤ) : Table :=
  { t with
    rest := (t.rest.erase e).orderedInsert (·.due < ·.due)
      { e with due := t.clock + interval.toNat, interval } }

variable {t} {e y : Entry} {l : List Entry} {marks : List ℕ} {interval : ℤ}

/-! ## The timeout -/

theorem dropMarked_induction {P : List Entry → List ℕ → Prop}
    (h : ∀ e l marks, e.id ∈ marks → P (e :: l) marks → P l (marks.erase e.id))
    (hP : P l marks) : P (dropMarked l marks).1 (dropMarked l marks).2 := by
  induction l generalizing marks with
  | nil => exact hP
  | cons e l ih =>
    rw [dropMarked]
    split
    · exact ih (h e l marks ‹_› hP)
    · exact hP

theorem notMem_dropMarked {l' : List Entry} (h : (dropMarked l marks).1 = e :: l') :
    e.id ∉ (dropMarked l marks).2 := by
  induction l generalizing marks with
  | nil => exact absurd h (by simp [dropMarked])
  | cons e' l ih =>
    rw [dropMarked] at h ⊢
    by_cases hmark : e'.id ∈ marks
    · rw [if_pos hmark] at h ⊢
      exact ih h
    · rw [if_neg hmark] at h ⊢
      exact (List.cons.inj h).1 ▸ hmark

/-! ## Starting an interval again -/

/-- The timer of the next entry is not among the others. -/
theorem Sound.id_ne (h : t.Sound) (hrest : t.rest = e :: l) : ∀ y ∈ l, y.id ≠ e.id := by
  have hnodup := h.nodup
  rw [hrest] at hnodup
  exact fun y hy hid => (List.nodup_cons.1 hnodup).1 (List.mem_map.2 ⟨y, hy, hid⟩)

/-- The entries but for that of one timer. -/
theorem Sound.mem_erase (h : t.Sound) (he : e ∈ t.rest) :
    y ∈ t.rest.erase e ↔ y ∈ t.rest ∧ y.id ≠ e.id := by
  rw [(h.nodup.of_map _).mem_erase_iff, and_comm]
  refine and_congr_right fun hy => not_congr ⟨fun hye => hye ▸ rfl, fun hid => ?_⟩
  exact List.inj_on_of_nodup_map h.nodup hy he hid

theorem Sound.erase_entry (h : t.Sound) (he : e ∈ t.rest) (hmark : e.id ∉ t.marks) :
    Sound { t with rest := t.rest.erase e } := by
  have hsub : (t.rest.erase e).Sublist t.rest := List.erase_sublist
  refine ⟨h.ordered.sublist (hsub.append_left t.past), h.nodup.sublist (hsub.map _),
    h.marks_nodup, fun i hi => ?_, fun x hx => ?_⟩
  · obtain ⟨x, hx, rfl⟩ := List.mem_map.1 (h.marks i hi)
    have hne : x.id ≠ e.id := fun hid => hmark (hid ▸ hi)
    exact List.mem_map.2 ⟨x, (h.mem_erase he).2 ⟨hx, hne⟩, rfl⟩
  · exact h.le_lastId x ((hsub.append_left t.past).mem hx)

theorem restart_eq (h : t.Sound) (hpast : t.past = []) (he : e ∈ t.rest) {interval : Option ℤ} :
    t.restart interval e.id = some (t.restarted e (interval.getD e.interval)) := by
  rw [restart, (find_id_iff h.nodup).2 ⟨he, rfl⟩, Option.map_some]
  refine congrArg some (insert_of_le fun x hx => ?_)
  exact absurd (show x ∈ t.past from hx) (hpast ▸ List.not_mem_nil)

theorem mem_restarted : y ∈ (t.restarted e interval).rest ↔
    y = { e with due := t.clock + interval.toNat, interval } ∨ y ∈ t.rest.erase e :=
  List.mem_orderedInsert _

theorem Sound.restarted (h : t.Sound) (hpast : t.past = []) (he : e ∈ t.rest)
    (hmark : e.id ∉ t.marks) : (t.restarted e interval).Sound := by
  refine (h.erase_entry he hmark).insert (fun x hx => ?_) (fun hmem => ?_) (Nat.le_refl _) ?_
  · exact absurd (show x ∈ t.past from hx) (hpast ▸ List.not_mem_nil)
  · obtain ⟨x, hx, hid⟩ := List.mem_map.1 hmem
    exact ((h.mem_erase he).1 hx).2 hid
  · exact h.le_lastId e (List.mem_append_right _ he)

/-- The same timers are active, with the same arguments. -/
theorem active_restarted (h : t.Sound) (h' : (t.restarted e interval).Sound) (he : e ∈ t.rest)
    (hmark : e.id ∉ t.marks) (k : TimerKey) :
    ((t.restarted e interval).active.timers k).map (·.arg) =
      (t.active.timers k).map (·.arg) := by
  have hactive := (active_iff h.nodup).2 ⟨hmark, e, he, rfl, rfl⟩
  have hactive' := (active_iff h'.nodup).2 ⟨hmark, _, mem_restarted.2 (.inl rfl), rfl, rfl⟩
  rw [active_update h.nodup h'.nodup hactive' fun j hj z => ?_]
  · by_cases hk : k = (0, e.id)
    · rw [hk, Function.update_self, hactive]
      rfl
    · rw [Function.update_of_ne hk]
  · refine and_congr_right fun _ => exists_congr fun y => ?_
    rw [mem_restarted, h.mem_erase he]
    constructor
    · rintro ⟨rfl | ⟨hy, -⟩, hid, hz⟩
      · exact absurd hid.symm hj
      · exact ⟨hy, hid, hz⟩
    · rintro ⟨hy, hid, hz⟩
      exact ⟨.inr ⟨hy, fun hye => hj (hid.symm.trans hye)⟩, hid, hz⟩

end Table

end MrubyZmq
