import MrubyZmq.Socket

/-!
# Sends which fail

`Socket#send` of an array should send all of its elements or none: if it raises,
the socket should be between messages again, so that what is sent next is a
message of its own (`AllOrNothing`).

A call of `LibZMQ.send` writes its frame or nothing. But the loop over the
elements converts and writes one after the other, so if a later one fails, the
frames of those before it stay pending. What is needed is that the first element
fails or none does (`Unbroken`): then, and only then, an array is sent as a
whole (`allOrNothing_iff`).
-/

namespace MrubyZmq

/-- If sending the array raises, the socket is between messages, and the next
    data sent is a message of its own. -/
def AllOrNothing (data : List Value) (flags : ℤ) (s : Sock) : Prop :=
  ∀ e s', socketSend (.array data) flags s = (.error e, s') → s'.out.AtBoundary ∧
    ∀ next flags' s'', sndmore flags' = false → socketSend next flags' s' = (.ok (), s'') →
      ∃ l, next.contents = l.map .ok ∧ s''.out.flushed = s'.out.flushed ++ frames l

/-- A call of `LibZMQ.send` gets to write its frame. -/
def Writes (message : Value) (flags : ℤ) (s : Sock) : Prop :=
  FitsInt flags ∧ (∃ data, message.toStr = .ok data) ∧ s.faults.headD false = false

/-- If the first element is written, all of them are. -/
def Unbroken (data : List Value) (flags : ℤ) (s : Sock) : Prop :=
  Writes (data.getD 0 .nil) flags s →
    ∀ i < data.length, (∃ a, (data.getD i .nil).toStr = .ok a) ∧ s.faults.getD i false = false

variable {s s' : Sock} {message : Value} {data : List Value} {flags : ℤ} {e : Err} {n i k : ℕ}

/-! ## One call -/

theorem libzmqSend_of_writes (h : Writes message flags s) :
    ∃ a, message.toStr = .ok a ∧ libzmqSend message flags s =
      (.ok a.length,
        { s with out := s.out.write ⟨a, sndmore flags⟩, faults := s.faults.tail }) := by
  obtain ⟨hfits, ⟨a, ha⟩, hfault⟩ := h
  refine ⟨a, ha, ?_⟩
  rw [libzmqSend, assertInt_of_fits hfits, ha, Effect.bind_ok Effect.pure_apply,
    Effect.ofExcept_ok, Effect.bind_ok Effect.pure_apply]
  have hsend : zmqSend "zmq_send" a flags s = (.ok (),
      { s with out := s.out.write ⟨a, sndmore flags⟩, faults := s.faults.tail }) := by
    rw [zmqSend, hfault, if_neg Bool.false_ne_true]
  rw [Effect.bind_ok hsend]
  rfl

/-- A call which fails has written nothing. -/
theorem libzmqSend_of_not_writes (h : ¬Writes message flags s) :
    ∃ e s', libzmqSend message flags s = (.error e, s') ∧ s'.out = s.out := by
  rw [libzmqSend]
  by_cases hfits : FitsInt flags
  · rw [assertInt_of_fits hfits, Effect.bind_ok Effect.pure_apply]
    rcases ha : message.toStr with err | a
    · exact ⟨err, s, rfl, rfl⟩
    · have hfault : s.faults.headD false = true := by
        by_contra hfault
        exact h ⟨hfits, ⟨a, ha⟩, Bool.eq_false_iff.2 hfault⟩
      rw [Effect.ofExcept_ok, Effect.bind_ok Effect.pure_apply]
      have hsend : zmqSend "zmq_send" a flags s =
          (.error (.libzmq "zmq_send"), { s with faults := s.faults.tail }) := by
        rw [zmqSend, hfault, if_pos rfl]
      rw [Effect.bind_error hsend]
      exact ⟨_, _, rfl, rfl⟩
  · rw [assertInt_of_not_fits hfits, Effect.bind_error Effect.raise_apply]
    exact ⟨_, _, rfl, rfl⟩

/-! ## The loop -/

/-- The loop gets through if the elements from index `i` on convert, and no call
    of libzmq fails. -/
theorem sendLoop_isOk_iff :
    (∃ k s', sendLoop data flags n i s = (.ok k, s')) ↔
      FitsInt flags ∧ ∀ j ≤ n, (∃ a, (data.getD (i + j) .nil).toStr = .ok a) ∧
        s.faults.getD j false = false := by
  induction n generalizing s i with
  | zero =>
    rw [sendLoop, zero_lor]
    by_cases h : Writes (data.getD i .nil) flags s
    · obtain ⟨a, -, hsend⟩ := libzmqSend_of_writes h
      obtain ⟨hfits, hstr, hfault⟩ := h
      refine iff_of_true ⟨_, _, hsend⟩ ⟨hfits, fun j hj => ?_⟩
      obtain rfl := Nat.le_zero.1 hj
      exact ⟨hstr, by rwa [← List.headD_eq_getD]⟩
    · obtain ⟨e, t, hsend, -⟩ := libzmqSend_of_not_writes h
      refine iff_of_false ?_ ?_
      · rintro ⟨k, t', hok⟩
        exact absurd (hsend.symm.trans hok) (by simp)
      · rintro ⟨hfits, hall⟩
        obtain ⟨hstr, hfault⟩ := hall 0 (Nat.le_refl 0)
        exact h ⟨hfits, hstr, by rwa [List.headD_eq_getD]⟩
  | succ n ih =>
    rw [sendLoop]
    by_cases h : Writes (data.getD i .nil) (Int.lor SNDMORE flags) s
    · obtain ⟨a, -, hsend⟩ := libzmqSend_of_writes h
      obtain ⟨hfits, hstr, hfault⟩ := h
      rw [Effect.bind_ok hsend, ih]
      refine and_congr_right fun _ => ⟨fun hall j hj => ?_, fun hall j hj => ?_⟩
      · rcases j with _ | j
        · exact ⟨hstr, by rwa [← List.headD_eq_getD]⟩
        · obtain ⟨hstr', hfault'⟩ := hall j (Nat.le_of_succ_le_succ hj)
          rw [Nat.add_assoc, Nat.add_comm 1] at hstr'
          exact ⟨hstr', by simpa using hfault'⟩
      · obtain ⟨hstr', hfault'⟩ := hall (j + 1) (Nat.succ_le_succ hj)
        rw [Nat.add_assoc, Nat.add_comm 1]
        exact ⟨hstr', by simpa using hfault'⟩
    · obtain ⟨e, t, hsend, -⟩ := libzmqSend_of_not_writes h
      rw [Effect.bind_error hsend]
      refine iff_of_false (by simp) ?_
      rintro ⟨hfits, hall⟩
      obtain ⟨hstr, hfault⟩ := hall 0 (Nat.zero_le _)
      exact h ⟨fitsInt_or_SNDMORE.2 hfits, hstr, by rwa [List.headD_eq_getD]⟩

/-- If the loop fails, the elements before the one that failed are pending. -/
theorem sendLoop_error (h : sendLoop data flags n i s = (.error e, s')) :
    ∃ l, s'.out = (openFrames l).foldl Pipe.write s.out ∧
      (l ≠ [] ↔ Writes (data.getD i .nil) flags s) := by
  induction n generalizing s i with
  | zero =>
    rw [sendLoop, zero_lor] at h
    by_cases hw : Writes (data.getD i .nil) flags s
    · obtain ⟨a, -, hsend⟩ := libzmqSend_of_writes hw
      exact absurd (hsend.symm.trans h) (by simp)
    · obtain ⟨e', t, hsend, hout⟩ := libzmqSend_of_not_writes hw
      obtain rfl := (Prod.ext_iff.1 (hsend.symm.trans h)).2
      exact ⟨[], hout, iff_of_false (fun hl => hl rfl) hw⟩
  | succ n ih =>
    rw [sendLoop] at h
    have hiff : Writes (data.getD i .nil) (Int.lor SNDMORE flags) s ↔
        Writes (data.getD i .nil) flags s := and_congr_left fun _ => fitsInt_or_SNDMORE
    by_cases hw : Writes (data.getD i .nil) (Int.lor SNDMORE flags) s
    · obtain ⟨a, -, hsend⟩ := libzmqSend_of_writes hw
      rw [Effect.bind_ok hsend] at h
      -- Whichever element fails later, this one is pending.
      obtain ⟨l, hout, -⟩ := ih h
      refine ⟨a :: l, ?_, iff_of_true (List.cons_ne_nil a l) (hiff.1 hw)⟩
      rw [hout, sndmore_or_SNDMORE]
      rfl
    · obtain ⟨e', t, hsend, hout⟩ := libzmqSend_of_not_writes hw
      rw [Effect.bind_error hsend] at h
      obtain rfl := (Prod.ext_iff.1 h).2
      exact ⟨[], hout, iff_of_false (fun hl => hl rfl) fun hw' => hw (hiff.2 hw')⟩

/-! ## Whole arrays -/

/-- Sending an array goes through the loop. -/
theorem socketSend_array_error :
    socketSend (.array data) flags s = (.error e, s') ↔
      sendLoop data flags (data.length - 1) 0 s = (.error e, s') := by
  have hlen : ((data.length : ℤ) - 1).toNat = data.length - 1 := by omega
  have heq : socketSend (.array data) flags = (do
      let _ ← sendLoop data flags ((data.length : ℤ) - 1).toNat 0) := rfl
  rw [heq, hlen, Effect.bind_apply]
  rcases sendLoop data flags (data.length - 1) 0 s with ⟨e | k, t⟩ <;> simp

/-- Nothing pending is sent with the next data. -/
theorem socketSend_of_atBoundary {next : Data} (hs : s.out.AtBoundary)
    (hf : sndmore flags = false) (h : socketSend next flags s = (.ok (), s')) :
    ∃ l, next.contents = l.map .ok ∧ s'.out.flushed = s.out.flushed ++ frames l := by
  obtain ⟨l, hl, hout, -⟩ := socketSend_contents h
  refine ⟨l, hl, ?_⟩
  have hne : l ≠ [] := by
    rintro rfl
    rcases next with (_ | ⟨v, m⟩) | v <;> simp [Data.contents] at hl
  rw [hout, sendFrames, hf, if_neg Bool.false_ne_true, Pipe.foldl_write_frames _ hne, hs,
    List.append_nil]

/-- From every state between messages, sending an array is all or nothing
    exactly if the first element fails or none does. -/
theorem allOrNothing_iff (hs : s.out.AtBoundary) :
    AllOrNothing data flags s ↔ Unbroken data flags s := by
  constructor
  · intro hall hw j hj
    rcases h : sendLoop data flags (data.length - 1) 0 s with ⟨e | k, t⟩
    · -- The loop fails with the first frame written: this is pending.
      obtain ⟨l, hout, hl⟩ := sendLoop_error h
      obtain ⟨hboundary, -⟩ := hall e t (socketSend_array_error.2 h)
      rw [hout, Pipe.foldl_write_openFrames, Pipe.AtBoundary, hs, List.nil_append, openFrames,
        List.map_eq_nil_iff] at hboundary
      exact absurd hboundary (hl.2 hw)
    · obtain ⟨-, hloop⟩ := sendLoop_isOk_iff.1 ⟨k, t, h⟩
      have hloop' := hloop j (Nat.le_sub_one_of_lt hj)
      rwa [Nat.zero_add] at hloop'
  · intro hunbroken e t h
    rw [socketSend_array_error] at h
    obtain ⟨l, hout, hl⟩ := sendLoop_error h
    have hnil : l = [] := by
      by_contra hne
      -- Then no element fails, and the loop gets through.
      have hw := hl.1 hne
      obtain ⟨k, t', hok⟩ := (@sendLoop_isOk_iff s data flags (data.length - 1) 0).2
        ⟨hw.1, fun j hj => by
          rw [Nat.zero_add]
          rcases Nat.eq_zero_or_pos j with rfl | hpos
          · exact ⟨hw.2.1, by rw [← List.headD_eq_getD]; exact hw.2.2⟩
          · exact hunbroken hw j (by omega)⟩
      exact absurd (h.symm.trans hok) (by simp)
    rw [hnil] at hout
    have hboundary : t.out.AtBoundary := by rwa [hout]
    exact ⟨hboundary, fun next flags' t' hf' => socketSend_of_atBoundary hboundary hf'⟩

/-- Both elements of this array are strings. -/
theorem allOrNothing_strings : AllOrNothing [.str [1], .str [2]] 0 {} := by
  refine (@allOrNothing_iff {} _ 0 rfl).2 fun _ i hi => ?_
  match i, hi with
  | 0, _ => exact ⟨⟨_, rfl⟩, rfl⟩
  | 1, _ => exact ⟨⟨_, rfl⟩, rfl⟩

/-- An element whose conversion raises: the element before it is sent with the
    next message. -/
theorem sent_with_next :
    let raising : Value := { toStr := .error (.user 0) }
    let s : Sock := { out := { pending := [⟨[1], true⟩] } }
    socketSend (.array [.str [1], raising]) 0 {} = (.error (.user 0), s) ∧
      (socketSend (.other (.str [2])) 0 s).2.out.flushed = frames [[1], [2]] ∧
      ¬AllOrNothing [.str [1], raising] 0 {} := by
  intro raising s
  refine ⟨rfl, rfl, fun h => ?_⟩
  obtain ⟨hboundary, -⟩ := h (.user 0) s rfl
  exact absurd hboundary (by decide)

end MrubyZmq
