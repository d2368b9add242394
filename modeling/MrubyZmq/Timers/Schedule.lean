import MrubyZmq.Timers.Table

/-!
# Blocks that raise

Each timer which has been added and not been cancelled should have exactly one
entry in the table of libzmq, and `mrb_zmq_timer_fn` should not be entered for a
cancelled one (`Schedule.Kept`).

As long as no block raises but in the first entry its `execute` visits, the
table is nothing but the timers active (`Table.active`): each step is one of the
registry of timers, or none (`simulate`). A block that raises after entries have
been visited leaves these in the table: a timer executed before has two entries
then, and one that has been dropped as cancelled is no longer marked
(`kept_iff_along`).
-/

namespace MrubyZmq

namespace Table

variable (t : Table)

/-- The timers active in libzmq. -/
def active : ActiveTimers where
  timers k :=
    if k.1 = 0 ∧ k.2 ∉ t.marks then
      (t.rest.find? (·.id = k.2)).map fun e => { arg := e.arg, interval := e.interval }
    else none
  given := (List.range t.lastId).reverse.map fun i => (0, i + 1)

/-- The entries not yet visited are of different timers, among them those
    marked. -/
structure Sound : Prop where
  ordered : Ordered (t.past ++ t.rest)
  nodup : (t.rest.map (·.id)).Nodup
  marks_nodup : t.marks.Nodup
  marks : ∀ i ∈ t.marks, i ∈ t.rest.map (·.id)
  le_lastId : ∀ e ∈ t.past ++ t.rest, e.id ≤ t.lastId

variable {t} {t' : Table} {e : Entry} {l : List Entry} {i now : ℕ} {interval : ℤ} {arg : ℕ}
  {z : ZmqTimer}

/-! ## The timers active -/

theorem find_id_iff (h : (l.map (·.id)).Nodup) :
    l.find? (·.id = i) = some e ↔ e ∈ l ∧ e.id = i := by
  constructor
  · intro he
    exact ⟨List.mem_of_find?_eq_some he, by simpa using List.find?_some he⟩
  · rintro ⟨he, rfl⟩
    obtain ⟨x, hx⟩ := Option.isSome_iff_exists.1 <|
      (List.find?_isSome (p := fun x : Entry => decide (x.id = e.id))).2 ⟨e, he, decide_eq_true rfl⟩
    have hid : x.id = e.id := by simpa using List.find?_some hx
    rw [hx, List.inj_on_of_nodup_map h (List.mem_of_find?_eq_some hx) he hid]

theorem active_iff (h : (t.rest.map (·.id)).Nodup) :
    t.active.timers (0, i) = some z ↔
      i ∉ t.marks ∧ ∃ e ∈ t.rest, e.id = i ∧ (⟨e.arg, e.interval⟩ : ZmqTimer) = z := by
  rw [active, Option.ite_none_right_eq_some, Option.map_eq_some_iff]
  simp only [find_id_iff h, true_and, and_assoc]

theorem active_ne {k : TimerKey} (h : k.1 ≠ 0) : t.active.timers k = none :=
  if_neg fun hk => h hk.1

theorem active_empty : ({} : Table).active = {} := by
  refine ActiveTimers.ext ?_ rfl
  funext k
  exact ite_self none

theorem notMem_given : (0, t.lastId + 1) ∉ t.active.given := by
  simp [active]

/-- Two tables with the same timers active. -/
theorem active_congr (h : (t.rest.map (·.id)).Nodup) (h' : (t'.rest.map (·.id)).Nodup)
    (hid : t'.lastId = t.lastId)
    (hiff : ∀ i z,
      (i ∉ t'.marks ∧ ∃ e ∈ t'.rest, e.id = i ∧ (⟨e.arg, e.interval⟩ : ZmqTimer) = z) ↔
      i ∉ t.marks ∧ ∃ e ∈ t.rest, e.id = i ∧ (⟨e.arg, e.interval⟩ : ZmqTimer) = z) :
    t'.active = t.active := by
  refine ActiveTimers.ext ?_ (by rw [active, active, hid])
  funext ⟨c, i⟩
  by_cases hc : c = 0
  · subst hc
    ext z
    rw [active_iff h, active_iff h', hiff]
  · rw [active_ne hc, active_ne hc]

/-- Two tables with the same timers active but for one. -/
theorem active_update (h : (t.rest.map (·.id)).Nodup) (h' : (t'.rest.map (·.id)).Nodup)
    {v : Option ZmqTimer} (hi : t'.active.timers (0, i) = v)
    (hiff : ∀ j ≠ i, ∀ z,
      (j ∉ t'.marks ∧ ∃ e ∈ t'.rest, e.id = j ∧ (⟨e.arg, e.interval⟩ : ZmqTimer) = z) ↔
      j ∉ t.marks ∧ ∃ e ∈ t.rest, e.id = j ∧ (⟨e.arg, e.interval⟩ : ZmqTimer) = z) :
    t'.active.timers = Function.update t.active.timers (0, i) v := by
  funext ⟨c, j⟩
  by_cases hc : c = 0
  · subst hc
    by_cases hj : j = i
    · rw [hj, Function.update_self, hi]
    · have hne : (0, j) ≠ ((0, i) : TimerKey) := by simpa using hj
      rw [Function.update_of_ne hne]
      ext z
      rw [active_iff h', active_iff h, hiff j hj]
  · -- No timer of another collection is in the table.
    have hne : (c, j) ≠ ((0, i) : TimerKey) := by simp [hc]
    rw [Function.update_of_ne hne, active_ne hc, active_ne hc]

/-! ## Operations -/

theorem Ordered.append_insert {past : List Entry} (h : Ordered (past ++ l))
    (hpast : ∀ x ∈ past, x.due ≤ e.due) :
    Ordered (past ++ l.orderedInsert (·.due < ·.due) e) := by
  obtain ⟨hp, hl, hpl⟩ := List.pairwise_append.1 h
  refine List.pairwise_append.2 ⟨hp, Ordered.insert hl, fun x hx y hy => ?_⟩
  rcases (List.mem_orderedInsert _).1 hy with rfl | hy
  · exact hpast x hx
  · exact hpl x hx y hy

/-- The entries visited are not due after the next one. -/
theorem Ordered.past_le {past : List Entry} (h : Ordered (past ++ e :: l)) :
    ∀ x ∈ past, x.due ≤ e.due := fun x hx =>
  (List.pairwise_append.1 h).2.2 x hx e List.mem_cons_self

/-- An entry which is not due before those visited is inserted. -/
theorem Sound.insert (h : t.Sound) (hpast : ∀ x ∈ t.past, x.due ≤ e.due)
    (hnew : e.id ∉ t.rest.map (·.id)) {lastId : ℕ} (hid : t.lastId ≤ lastId) (he : e.id ≤ lastId) :
    Sound { t with rest := t.rest.orderedInsert (·.due < ·.due) e, lastId } := by
  have hperm := t.rest.perm_orderedInsert (·.due < ·.due) e
  refine ⟨h.ordered.append_insert hpast, ?_, h.marks_nodup, fun i hi => ?_, fun x hx => ?_⟩
  · exact (hperm.map (·.id)).nodup_iff.2 (List.nodup_cons.2 ⟨hnew, h.nodup⟩)
  · exact (hperm.map (·.id)).mem_iff.2 (List.mem_cons_of_mem _ (h.marks i hi))
  · rcases List.mem_append.1 hx with hx | hx
    · exact Nat.le_trans (h.le_lastId x (List.mem_append_left _ hx)) hid
    · rcases List.mem_cons.1 (hperm.mem_iff.1 hx) with rfl | hx
      · exact he
      · exact Nat.le_trans (h.le_lastId x (List.mem_append_right _ hx)) hid

theorem Sound.lastId_notMem (h : t.Sound) : t.lastId + 1 ∉ t.rest.map (·.id) := fun hmem => by
  obtain ⟨x, hx, hid⟩ := List.mem_map.1 hmem
  have hle := h.le_lastId x (List.mem_append_right _ hx)
  exact Nat.not_succ_le_self _ (hid ▸ hle)

/-- The table after a timer has been added. -/
def added (t : Table) (interval : ℤ) (arg : ℕ) : Table :=
  { t with
    rest := t.rest.orderedInsert (·.due < ·.due)
      ⟨t.clock + interval.toNat, t.lastId + 1, interval, arg⟩
    lastId := t.lastId + 1 }

theorem add_eq (hpast : ∀ x ∈ t.past, x.due ≤ t.clock) :
    t.add interval true arg = some (t.lastId + 1, t.added interval arg) := by
  rw [add, if_pos rfl, @insert_of_le { t with lastId := t.lastId + 1 } _
    fun x hx => Nat.le_add_right_of_le (hpast x hx)]
  rfl

theorem Sound.added (h : t.Sound) (hpast : ∀ x ∈ t.past, x.due ≤ t.clock) :
    (t.added interval arg).Sound :=
  h.insert (fun x hx => Nat.le_add_right_of_le (hpast x hx)) h.lastId_notMem (Nat.le_succ _)
    (Nat.le_refl _)

/-- A new entry is not inserted before one which is due. -/
theorem rest_added (hrest : t.rest = e :: l) (he : e.due ≤ t.clock) :
    ∃ l', (t.added interval arg).rest = e :: l' := by
  rw [Table.added, hrest, List.orderedInsert_cons, if_neg]
  · exact ⟨_, rfl⟩
  · exact Nat.not_lt_of_le (Nat.le_add_right_of_le he)

theorem active_added (h : t.Sound) (h' : (t.added interval arg).Sound) :
    (t.added interval arg).active =
      { timers := Function.update t.active.timers (0, t.lastId + 1) (some ⟨arg, interval⟩)
        given := (0, t.lastId + 1) :: t.active.given } := by
  have hmarks : t.lastId + 1 ∉ t.marks := fun hmem => h.lastId_notMem (h.marks _ hmem)
  refine ActiveTimers.ext (active_update h.nodup h'.nodup ?_ fun j hj z => ?_) ?_
  · exact (active_iff h'.nodup).2
      ⟨hmarks, _, (List.mem_orderedInsert _).2 (.inl rfl), rfl, rfl⟩
  · simp [Table.added, or_and_right, exists_or, Ne.symm hj]
  · simp [active, Table.added, List.range_succ]

/-- A timer whose entry has not been visited is marked. -/
theorem Sound.mark (h : t.Sound) (hi : i ∈ t.rest.map (·.id)) (hmark : i ∉ t.marks) :
    (t.mark i).Sound := by
  refine ⟨h.ordered, h.nodup, ?_, fun j hj => ?_, h.le_lastId⟩
  · rw [Table.mark, List.nodup_append_comm]
    exact List.nodup_cons.2 ⟨hmark, h.marks_nodup⟩
  · rcases List.mem_append.1 hj with hj | hj
    · exact h.marks j hj
    · exact List.mem_singleton.1 hj ▸ hi

theorem active_mark (h : t.Sound) : (t.mark i).active =
    { timers := Function.update t.active.timers (0, i) none, given := t.active.given } := by
  refine ActiveTimers.ext (@active_update t (t.mark i) i h.nodup h.nodup _ ?_ fun j hj z => ?_) rfl
  · exact if_neg fun hk => hk.2 (List.mem_append_right _ List.mem_cons_self)
  · simp [Table.mark, hj]

/-- The next entry, which is marked, is dropped. -/
theorem Sound.drop (h : t.Sound) (hrest : t.rest = e :: l) : (t.unmark e.id).advance.Sound := by
  obtain ⟨hordered, hnodup, hmarks_nodup, hmarks, hid⟩ := h
  rw [hrest] at hordered hnodup hmarks hid
  rw [List.append_cons] at hordered hid
  rw [@advance_eq (t.unmark e.id) _ _ hrest]
  refine ⟨hordered, (List.nodup_cons.1 hnodup).2, hmarks_nodup.erase _, fun i hi => ?_, hid⟩
  obtain ⟨hne, hi⟩ := (hmarks_nodup.mem_erase_iff).1 hi
  exact (List.mem_cons.1 (hmarks i hi)).resolve_left hne

theorem active_drop (h : t.Sound) (hrest : t.rest = e :: l) (he : e.id ∈ t.marks) :
    (t.unmark e.id).advance.active = t.active := by
  have hdrop := (h.drop hrest).nodup
  rw [@advance_eq (t.unmark e.id) _ _ hrest] at hdrop ⊢
  refine active_congr h.nodup hdrop rfl fun i z => ?_
  have hnodup := h.nodup
  rw [hrest] at hnodup
  have hl := (List.nodup_cons.1 hnodup).1
  simp only [unmark, hrest, h.marks_nodup.mem_erase_iff]
  by_cases hi : i = e.id
  · -- Neither of the tables has the timer.
    subst hi
    have hnone : ¬∃ x ∈ l, x.id = e.id ∧ (⟨x.arg, x.interval⟩ : ZmqTimer) = z :=
      fun ⟨x, hx, hid, _⟩ => hl (List.mem_map.2 ⟨x, hx, hid⟩)
    simp [hnone, he]
  · simp [hi, Ne.symm hi]

theorem Sound.again_eq (h : t.Sound) (hrest : t.rest = e :: l) (he : e.due ≤ now) :
    t.again now = { t with
      past := t.past ++ [e]
      rest := l.orderedInsert (·.due < ·.due) { e with due := now + e.interval.toNat } } :=
  Table.again_eq hrest
    (fun x hx => Nat.le_trans (Ordered.past_le (hrest ▸ h.ordered) x hx) he) he

/-- No id is new where the next entry is inserted again. -/
theorem Sound.forall_id_again (h : t.Sound) (hrest : t.rest = e :: l) (he : e.due ≤ now)
    {P : ℕ → Prop} (hP : ∀ x ∈ t.past ++ t.rest, P x.id) :
    ∀ x ∈ (t.again now).past ++ (t.again now).rest, P x.id := by
  intro x hx
  rw [hrest] at hP
  simp only [h.again_eq hrest he, List.mem_append, List.mem_singleton, List.mem_orderedInsert]
    at hx
  rcases hx with (hx | rfl) | rfl | hx
  · exact hP x (List.mem_append_left _ hx)
  · exact hP x (List.mem_append_right _ List.mem_cons_self)
  · -- The entry inserted has the id of the one visited.
    exact hP e (List.mem_append_right _ List.mem_cons_self)
  · exact hP x (List.mem_append_right _ (List.mem_cons_of_mem _ hx))

/-- The next entry is inserted again. -/
theorem Sound.again (h : t.Sound) (hrest : t.rest = e :: l) (he : e.due ≤ now) :
    (t.again now).Sound ∧ (t.again now).active = t.active := by
  have hid := h.forall_id_again hrest he (P := (· ≤ t.lastId)) h.le_lastId
  obtain ⟨hordered, hnodup, hmarks_nodup, hmarks, -⟩ := id h
  rw [h.again_eq hrest he] at hid ⊢
  rw [hrest] at hordered hnodup hmarks
  have hpast := Ordered.past_le hordered
  rw [List.append_cons] at hordered
  have hids := (l.perm_orderedInsert (·.due < ·.due)
    { e with due := now + e.interval.toNat }).map (·.id)
  have hsound : Sound { t with
      past := t.past ++ [e]
      rest := l.orderedInsert (·.due < ·.due) { e with due := now + e.interval.toNat } } := by
    refine ⟨hordered.append_insert fun x hx => Nat.le_add_right_of_le ?_, hids.nodup_iff.2 hnodup,
      hmarks_nodup, fun i hi => hids.mem_iff.2 (hmarks i hi), hid⟩
    rcases List.mem_append.1 hx with hx | hx
    · exact Nat.le_trans (hpast x hx) he
    · exact List.mem_singleton.1 hx ▸ he
  refine ⟨hsound, active_congr h.nodup hsound.nodup rfl fun i z => ?_⟩
  simp only [List.mem_orderedInsert, hrest, List.mem_cons, or_and_right, exists_or,
    exists_eq_left]

theorem Sound.erase (h : t.Sound) : t.erase.Sound :=
  ⟨(List.pairwise_append.1 h.ordered).2.1, h.nodup, h.marks_nodup, h.marks,
    fun x hx => h.le_lastId x (List.mem_append_right _ hx)⟩

theorem leave_eq (h : t.past = []) : t.leave = t := by
  rw [leave, h, List.nil_append, ← h]

end Table

namespace Schedule

open Timing

variable (s : Schedule)

/-- The registry of timers, in which libzmq is no more than the timers active. -/
def registry : Registry where
  timing := s.timing.withZmq s.timing.zmq.active
  stack :=
    match s.control with
    | .idle => []
    | .walking _ => [.executing 0]
    | .block _ => [.block, .executing 0]

/-- Outside of `execute`, no entry has been visited; the block that runs is the
    one of the next entry, which is due. -/
def Running : Prop :=
  match s.control with
  | .idle => s.timing.zmq.past = []
  | .walking now => now ≤ s.timing.zmq.clock
  | .block now => now ≤ s.timing.zmq.clock ∧ ∃ e l, s.timing.zmq.rest = e :: l ∧ e.due ≤ now

/-- The table is a state of the registry, and its entries are of timers which
    `add` has returned. -/
structure Regular : Prop where
  table : s.timing.zmq.Sound
  linked : s.registry.timing.Linked
  ids : ∀ e ∈ s.timing.zmq.past ++ s.timing.zmq.rest, ∃ o, (o, (0, e.id)) ∈ s.timing.returned
  running : s.Running

/-- A timer which has been added and not been cancelled is pending exactly once;
    one that has been cancelled has a mark for each of its entries, so that its
    handler will not be called. The argument of `mrb_zmq_timer_fn`, which is
    freed by `cancel`, has never been freed.

    The entries visited by a walk under way do not count: they are those to be
    erased. Outside of `execute` there are none. -/
structure Kept : Prop where
  pending : ∀ o k, (o, k) ∈ s.timing.returned → (s.timing.objs o).data.isSome →
    (s.timing.zmq.rest.map (·.id)).count k.2 = 1
  cancelled : ∀ o k, (o, k) ∈ s.timing.returned → (s.timing.objs o).data = none →
    (s.timing.zmq.rest.map (·.id)).count k.2 ≤ s.timing.zmq.marks.count k.2
  entered : ∀ a ∈ s.timing.entered, a.isSome

/-- A block only raises in the first entry its `execute` visits. -/
def First (s : Schedule) : ScheduleOp → Prop
  | .blockRaise => s.timing.zmq.past = []
  | _ => True

/-- A step which is some steps of the registry, or none. -/
structure Simulated (s s' : Schedule) : Prop where
  run : ∃ ops, MrubyZmq.registry.Along Registry.Clean s.registry ops ∧
    MrubyZmq.registry.run s.registry ops = some s'.registry
  table : s'.timing.zmq.Sound
  ids : ∀ e ∈ s'.timing.zmq.past ++ s'.timing.zmq.rest, ∃ o, (o, (0, e.id)) ∈ s'.timing.returned
  running : s'.Running

variable {s} {s' : Schedule} {op : ScheduleOp} {self i : ℕ} {now : ℕ}

theorem run_one {r r' : Registry} {op : TimerOp} (hop : r.Clean op)
    (h : MrubyZmq.registry.step r op = some r') :
    MrubyZmq.registry.Along Registry.Clean r [op] ∧ MrubyZmq.registry.run r [op] = some r' :=
  ⟨(Machine.along_cons h).2 ⟨hop, trivial⟩, Machine.run_cons h⟩

/-- There is no id in the memory of a new object. -/
theorem clean_add {r : Registry} {timers : ℕ} {interval : ℤ} {block id : Option ℕ} :
    r.Clean (.add timers interval block id none) :=
  .inl fun _ _ _ _ _ heq => ((TimerOp.add.inj heq).2.2.2.2).symm

theorem rubyCall_eq_some {α : Type} {f : Effect Err (Timing Table) α}
    (h : s.rubyCall f = some s') :
    (∀ now, s.control ≠ .walking now) ∧ s' = { s with timing := (f s.timing).2 } := by
  rw [rubyCall] at h
  split at h
  · exact absurd h (by simp)
  · exact ⟨‹_›, (Option.some.inj h).symm⟩

/-- The program runs in the registry, too. -/
theorem atRuby_registry (h : ∀ now, s.control ≠ .walking now) : s.registry.atRuby = true := by
  rw [Registry.atRuby, registry]
  rcases hc : s.control with _ | now | now
  · rfl
  · exact absurd hc (h now)
  · rfl

theorem Regular.past_le (hs : s.Regular) (h : ∀ now, s.control ≠ .walking now) :
    ∀ x ∈ s.timing.zmq.past, x.due ≤ s.timing.zmq.clock := by
  have hrunning := hs.running
  have hordered := hs.table.ordered
  rw [Running] at hrunning
  rcases hc : s.control with _ | now | now
  · simp only [hc] at hrunning
    simp [hrunning]
  · exact absurd hc (h now)
  · simp only [hc] at hrunning
    obtain ⟨hnow, e, l, hrest, he⟩ := hrunning
    rw [hrest] at hordered
    intro x hx
    exact Nat.le_trans (Table.Ordered.past_le hordered x hx) (Nat.le_trans he hnow)

/-! ## The steps of the program -/

theorem Regular.tick (hs : s.Regular) (d : ℕ) :
    Simulated s (s.setTable { s.timing.zmq with clock := s.timing.zmq.clock + d }) := by
  obtain ⟨hordered, hnodup, hmarks_nodup, hmarks, hid⟩ := hs.table
  refine ⟨⟨[], trivial, rfl⟩, ⟨hordered, hnodup, hmarks_nodup, hmarks, hid⟩, hs.ids, ?_⟩
  have hrunning := hs.running
  rw [Running] at hrunning ⊢
  simp only [setTable]
  rcases hc : s.control with _ | now | now <;> simp only [hc] at hrunning ⊢
  · exact hrunning
  · exact Nat.le_add_right_of_le hrunning
  · exact hrunning.imp_left Nat.le_add_right_of_le

theorem Regular.add (hs : s.Regular) {interval : ℤ} {block : Option ℕ} {ok : Bool}
    (h : schedule.step s (.add interval block ok) = some s') : Simulated s s' := by
  obtain ⟨hruby, rfl⟩ := rubyCall_eq_some h
  have hpast := hs.past_le hruby
  have hstep : ∀ id r, (timersAdd 0 interval block none (ActiveTimers.add 0 interval id)
      s.registry.timing).2 = r →
        MrubyZmq.registry.Along Registry.Clean s.registry [.add 0 interval block id none] ∧
        MrubyZmq.registry.run s.registry [.add 0 interval block id none] =
          some { s.registry with timing := r } := fun id r hr => by
    refine run_one clean_add ?_
    rw [← hr]
    exact if_pos (atRuby_registry hruby)
  by_cases hraise : ¬FitsSize interval ∨ block = none
  · -- libzmq is not called: any result will do for the registry.
    rw [timersAdd_raise hraise]
    exact ⟨⟨_, hstep none _ (timersAdd_raise hraise)⟩, hs.table, hs.ids, hs.running⟩
  push Not at hraise
  obtain ⟨hinterval, hblock⟩ := hraise
  obtain ⟨b, rfl⟩ := Option.ne_none_iff_exists'.1 hblock
  rw [timersAdd_snd hinterval]
  cases ok with
  | false =>
    exact ⟨⟨_, hstep none _ (timersAdd_snd hinterval)⟩, hs.table, hs.ids, hs.running⟩
  | true =>
    have hsound := @Table.Sound.added _ interval s.timing.next hs.table hpast
    have hadd : ActiveTimers.add 0 interval (some (s.timing.zmq.lastId + 1)) s.timing.next
        s.timing.zmq.active = some (s.timing.zmq.lastId + 1,
          (s.timing.zmq.added interval s.timing.next).active) := by
      rw [Table.active_added hs.table hsound]
      exact if_neg Table.notMem_given
    simp only [Table.add_eq hpast]
    refine ⟨⟨_, hstep (some (s.timing.zmq.lastId + 1)) _ ?_⟩, hsound, fun e he => ?_, ?_⟩
    · rw [timersAdd_snd hinterval]
      exact congrArg (added _ 0 b none) hadd
    · have hold : e ∈ s.timing.zmq.past ++ s.timing.zmq.rest →
          ∃ o, (o, (0, e.id)) ∈ (s.timing.added 0 b none (some (s.timing.zmq.lastId + 1,
            s.timing.zmq.added interval s.timing.next))).returned := fun he =>
        (hs.ids e he).imp fun o ho => List.mem_append_left _ ho
      rcases List.mem_append.1 he with he | he
      · exact hold (List.mem_append_left _ he)
      · rcases (List.mem_orderedInsert _).1 he with rfl | he
        · exact ⟨_, List.mem_append_right _ List.mem_cons_self⟩
        · exact hold (List.mem_append_right _ he)
    · have hrunning := hs.running
      rw [Running] at hrunning ⊢
      rcases hc : s.control with _ | now | now <;> simp only [hc] at hrunning ⊢
      · exact hrunning
      · exact absurd hc (hruby now)
      · -- The new timer is not due before the entry whose block runs.
        obtain ⟨hnow, e, l, hrest, he⟩ := hrunning
        obtain ⟨l', hl'⟩ := Table.rest_added hrest (Nat.le_trans he hnow)
        exact ⟨hnow, e, l', hl', he⟩

/-- The id of a `Timer` with a data pointer is that of an active timer. -/
theorem Regular.keyOf (hs : s.Regular) {k : TimerKey} (h : s.timing.keyOf self = some k) :
    k.1 = 0 ∧ k.2 ∉ s.timing.zmq.marks ∧ k.2 ∈ s.timing.zmq.rest.map (·.id) := by
  obtain ⟨-, ⟨t, ht, -⟩, -⟩ := hs.linked.hash k self (hs.linked.of_keyOf h)
  obtain ⟨c, i⟩ := k
  by_cases hc : c = 0
  · subst hc
    obtain ⟨hmark, e, he, hid, -⟩ := (Table.active_iff hs.table.nodup).1 ht
    exact ⟨rfl, hmark, List.mem_map.2 ⟨e, he, hid⟩⟩
  · exact absurd ht (by rw [registry, withZmq, Table.active_ne hc]; simp)

theorem Regular.cancel (hs : s.Regular) (h : schedule.step s (.cancel self) = some s') :
    Simulated s s' := by
  obtain ⟨hmem, h⟩ := Option.ite_none_right_eq_some.1 h
  obtain ⟨hruby, rfl⟩ := rubyCall_eq_some h
  have hlt : self < s.timing.next := by
    obtain ⟨⟨o, k⟩, hret, rfl⟩ := List.mem_map.1 hmem
    exact (hs.linked.returned o k hret).2.1
  have hstep : ∀ r, (timerCancel self ActiveTimers.cancel s.registry.timing).2 = r →
      MrubyZmq.registry.Along Registry.Clean s.registry [.cancel self] ∧
      MrubyZmq.registry.run s.registry [.cancel self] = some { s.registry with timing := r } :=
    fun r hr => by
      refine run_one (.inr trivial) ?_
      rw [← hr]
      exact (if_pos hlt).trans (if_pos (atRuby_registry hruby))
  rcases hkey : s.timing.keyOf self with _ | ⟨c, i⟩
  · rw [timerCancel_of_keyOf hkey]
    exact ⟨⟨_, hstep _ (timerCancel_of_keyOf hkey)⟩, hs.table, hs.ids, hs.running⟩
  obtain ⟨hk, hmark, hrest⟩ := hs.keyOf hkey
  obtain rfl : c = 0 := hk
  obtain ⟨a, hbind, -⟩ := Option.bind_eq_some_iff.1 hkey
  obtain ⟨p, hdata, -⟩ := Option.bind_eq_some_iff.1 hbind
  have hcancel : s.timing.zmq.cancel i = some (s.timing.zmq.mark i) := by
    refine if_pos ⟨?_, hmark⟩
    rw [List.map_append]
    exact List.mem_append_right _ hrest
  have hcancel' : ActiveTimers.cancel (0, i) s.timing.zmq.active =
      some (s.timing.zmq.mark i).active := by
    obtain ⟨e, he, hid⟩ := List.mem_map.1 hrest
    have hactive := (Table.active_iff hs.table.nodup).2 ⟨hmark, e, he, hid, rfl⟩
    rw [ActiveTimers.cancel, hactive, Table.active_mark hs.table]
    rfl
  rw [timerCancel_forget hdata hkey hcancel]
  exact ⟨⟨_, hstep _ (timerCancel_forget hdata hkey hcancel')⟩, hs.table.mark hrest hmark, hs.ids,
    hs.running⟩

theorem Regular.execute (hs : s.Regular) (h : schedule.step s .execute = some s') :
    Simulated s s' := by
  obtain ⟨hidle, h⟩ := Option.ite_none_right_eq_some.1 h
  obtain rfl := Option.some.inj h
  refine ⟨⟨[.execute 0], run_one (.inr trivial) ?_⟩, hs.table, hs.ids, Nat.le_refl _⟩
  have hruby := atRuby_registry (s := s) fun now hc => by simp [hidle] at hc
  refine (if_pos hruby).trans ?_
  rw [registry, hidle]
  rfl

/-! ## The steps of libzmq -/

theorem Regular.visit (hs : s.Regular) (h : s.visit = some s') : Simulated s s' := by
  rw [Schedule.visit] at h
  split at h
  · rename_i now hc
    have hnow := hs.running
    rw [Running, hc] at hnow
    have herase : Simulated s { s.setTable s.timing.zmq.erase with control := .idle } := by
      refine ⟨⟨[.executed], run_one (.inr trivial) ?_⟩, hs.table.erase,
        fun e he => hs.ids e (List.mem_append_right _ he), rfl⟩
      simp only [registry, hc]
      rfl
    -- The walk ends behind the last entry.
    split at h
    · exact Option.some.inj h ▸ herase
    rename_i e l hrest
    have hids := hs.ids
    rw [hrest] at hids
    split at h
    · -- A marked entry is dropped: the registry does not see it any more.
      rename_i hmark
      obtain rfl := Option.some.inj h
      have hadvance := @Table.advance_eq (s.timing.zmq.unmark e.id) _ _ hrest
      refine ⟨⟨[], trivial, ?_⟩, hs.table.drop hrest, ?_, ?_⟩
      · rw [Machine.run_nil, registry, registry]
        simp only [setTable, Table.active_drop hs.table hrest hmark]
        rfl
      · simp only [setTable, hadvance]
        rw [List.append_cons] at hids
        exact hids
      · simp only [Running, setTable, hadvance, hc]
        exact hnow
    rename_i hmark
    split at h
    · -- The walk ends at the first entry which is not due.
      exact Option.some.inj h ▸ herase
    · obtain rfl := Option.some.inj h
      have hactive : s.timing.zmq.active.timers (0, e.id) = some ⟨e.arg, e.interval⟩ :=
        (Table.active_iff hs.table.nodup).2 ⟨hmark, e, by simp [hrest], rfl, rfl⟩
      refine ⟨⟨[.fire e.id], run_one (.inr trivial) ?_⟩, hs.table, hs.ids, hnow, e, l, hrest,
        Nat.le_of_not_lt ‹_›⟩
      change s.registry.fire e.id = _
      simp only [Registry.fire, registry, hc, withZmq, hactive]
      rfl
  · exact absurd h (by simp)

theorem Regular.blockReturn (hs : s.Regular) (h : s.blockReturn = some s') : Simulated s s' := by
  rw [Schedule.blockReturn] at h
  split at h
  · rename_i now hc
    obtain rfl := Option.some.inj h
    have hrunning := hs.running
    rw [Running, hc] at hrunning
    obtain ⟨hnow, e, l, hrest, he⟩ := hrunning
    obtain ⟨hsound, hactive⟩ := hs.table.again hrest he
    have hids := hs.table.forall_id_again hrest he
      (P := fun i => ∃ o, (o, (0, i)) ∈ s.timing.returned) hs.ids
    refine ⟨⟨[.blockReturn], run_one (.inr trivial) ?_⟩, hsound, hids, ?_⟩
    · simp only [registry, hc, setTable, hactive]
      rfl
    · simp only [Running, setTable, hs.table.again_eq hrest he]
      exact hnow
  · exact absurd h (by simp)

/-- A block that raises in the first entry visited leaves the table as it
    was. -/
theorem Regular.blockRaise (hs : s.Regular) (h : s.blockRaise = some s')
    (hop : s.timing.zmq.past = []) : Simulated s s' := by
  rw [Schedule.blockRaise] at h
  split at h
  · rename_i now hc
    obtain rfl := Option.some.inj h
    rw [Table.leave_eq hop]
    refine ⟨⟨[.blockReturn, .executed],
      fun _ _ => ⟨.inr trivial, fun _ _ => ⟨.inr trivial, trivial⟩⟩, ?_⟩, hs.table, hs.ids, hop⟩
    simp only [registry, hc, setTable]
    rfl
  · exact absurd h (by simp)

theorem Regular.simulate (hs : s.Regular) (h : schedule.step s op = some s') (hop : s.First op) :
    Simulated s s' := by
  cases op with
  | tick d => exact Option.some.inj h ▸ hs.tick d
  | add interval block ok => exact hs.add h
  | cancel self => exact hs.cancel h
  | execute => exact hs.execute h
  | visit => exact hs.visit h
  | blockReturn => exact hs.blockReturn h
  | blockRaise => exact hs.blockRaise h hop

theorem Regular.step (hs : s.Regular) (h : schedule.step s op = some s') (hop : s.First op) :
    s'.Regular := by
  obtain ⟨⟨ops, hclean, hrun⟩, htable, hids, hrunning⟩ := hs.simulate h hop
  refine ⟨htable, ?_, hids, hrunning⟩
  have hlinked := Machine.always_of_along (I := fun r => r.timing.Linked)
    (fun _ _ _ => Registry.linked_step) hs.linked hclean
  exact hlinked.of_run hrun

/-! ## What is kept -/

theorem Regular.kept (hs : s.Regular) : s.Kept := by
  have hcollection : ∀ o k, (o, k) ∈ s.timing.returned → k.1 = 0 := fun o k h => by
    obtain ⟨i, -, hi⟩ := List.mem_map.1 (hs.linked.returned o k h).1
    rw [← hi]
  refine ⟨fun o ⟨c, i⟩ h hdata => ?_, fun o ⟨c, i⟩ h hdata => ?_, hs.linked.entered⟩
  · obtain rfl : c = 0 := hcollection o _ h
    obtain ⟨-, ⟨t, ht, -⟩, -⟩ := hs.linked.hash _ o ((hs.linked.returned o _ h).2.2 hdata)
    obtain ⟨-, e, he, hid, -⟩ := (Table.active_iff hs.table.nodup).1 ht
    exact List.count_eq_one_of_mem hs.table.nodup (List.mem_map.2 ⟨e, he, hid⟩)
  · obtain rfl : c = 0 := hcollection o _ h
    by_cases hrest : i ∈ s.timing.zmq.rest.map (·.id)
    · rw [List.count_eq_one_of_mem hs.table.nodup hrest, List.one_le_count_iff]
      by_contra hmark
      -- libzmq has the timer, so its object has a data pointer.
      obtain ⟨e, he, hid⟩ := List.mem_map.1 hrest
      have hactive := (Table.active_iff hs.table.nodup).2 ⟨hmark, e, he, hid, rfl⟩
      obtain ⟨hret, -, a, -, -, hobj⟩ := hs.linked.hash _ _ (hs.linked.zmq _ _ hactive)
      rw [(hs.linked.unique o e.arg _ _ h hret).2 rfl] at hdata
      exact absurd (hdata.symm.trans (congrArg TimerObj.data hobj)) (by simp)
    · rw [List.count_eq_zero.2 hrest]
      exact Nat.zero_le _

/-- A block that raises after an entry has been visited leaves this in the
    table. -/
theorem Regular.not_kept (hs : s.Regular) (h : s.blockRaise = some s')
    (hop : s.timing.zmq.past ≠ []) : ¬s'.Kept := by
  rw [Schedule.blockRaise] at h
  split at h
  · obtain rfl := Option.some.inj h
    obtain ⟨e, past, hpast⟩ := List.exists_cons_of_ne_nil hop
    obtain ⟨o, ho⟩ := hs.ids e (by simp [hpast])
    have hcount : (s.timing.zmq.rest.map (·.id)).count e.id <
        (s.timing.zmq.leave.rest.map (·.id)).count e.id := by
      rw [Table.leave, List.map_append, List.count_append, hpast, List.map_cons,
        List.count_cons_self]
      omega
    rintro ⟨hpending, hcancelled, -⟩
    rcases hdata : (s.timing.objs o).data with _ | p
    · -- It has at most one mark, and that for the other entry.
      have hmarks : s.timing.zmq.marks.count e.id ≤ (s.timing.zmq.rest.map (·.id)).count e.id :=
        (List.subperm_of_subset hs.table.marks_nodup hs.table.marks).count_le _
      exact Nat.not_lt_of_le ((hcancelled o _ ho hdata).trans hmarks) hcount
    · have hsome : (s.timing.objs o).data.isSome := by rw [hdata]; rfl
      have hone := hs.kept.pending o _ ho hsome
      exact Nat.ne_of_gt hcount ((hpending o _ ho hsome).trans hone.symm)
  · exact absurd h (by simp)

theorem Regular.kept_iff (hs : s.Regular) (h : schedule.step s op = some s') :
    s'.Kept ↔ s.First op := by
  refine ⟨fun hs' => ?_, fun hop => (hs.step h hop).kept⟩
  cases op with
  | blockRaise => exact not_not.1 fun hop => hs.not_kept h hop hs'
  | tick | add | cancel | execute | visit | blockReturn => trivial

theorem regular_empty : ({} : Schedule).Regular where
  table := ⟨List.Pairwise.nil, List.nodup_nil, List.nodup_nil, by simp, by simp⟩
  linked := by
    rw [registry, Table.active_empty]
    exact Registry.linked_empty
  ids _ h := absurd h List.not_mem_nil
  running := rfl

end Schedule

open Schedule

/-- In a run, the timers are kept in every state exactly if blocks only raise in
    the first entry their `execute` visits. -/
theorem kept_iff_along (ops : List ScheduleOp) :
    schedule.Always Kept {} ops ↔ schedule.Along First {} ops :=
  Machine.always_iff_along (fun _ => Regular.kept) (fun _ _ _ => Regular.kept_iff)
    (fun _ _ _ => Regular.step) regular_empty

/-- Of two timers due together, the block of the second one raises: the first
    one is pending twice. After it has been cancelled, `mrb_zmq_timer_fn` is
    entered for it, with the argument freed. -/
theorem raised_second :
    let raising : List ScheduleOp := [.add 10 (some 0) true, .add 10 (some 0) true, .tick 10,
      .execute, .visit, .blockReturn, .visit, .blockRaise]
    let ops := raising ++ [.cancel 0, .tick 10, .execute, .visit, .visit, .blockReturn, .visit]
    (schedule.run {} raising).map (fun s => s.timing.zmq.rest.map (·.id)) = some [1, 2, 1] ∧
    (schedule.run {} ops).map (fun s => s.timing.entered.getLast?) = some (some none) ∧
    ¬schedule.Always Kept {} raising := by
  intro raising ops
  refine ⟨rfl, rfl, fun h => ?_⟩
  have hpending := (h.of_run rfl).pending 0 (0, 1) List.mem_cons_self rfl
  exact absurd hpending (by decide)

end MrubyZmq
