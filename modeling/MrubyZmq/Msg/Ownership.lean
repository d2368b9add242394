import MrubyZmq.Ledger
import MrubyZmq.Msg

/-!
# Who releases a payload

Each `ZMQ::Msg` should have no data pointer or an initialised message, no libzmq
function should be applied to another one, and each payload a message acquires
should be released exactly once (`Msgs.Valid`).

`initialize` and `initialize_copy` put the data pointer and its finalizer in
place before the message is initialised, and what it holds is overwritten, not
closed. All is well exactly if they are only used on objects which hold no
payload, and `initialize` does not fail on a new one (`valid_iff_along`).
-/

namespace MrubyZmq

open scoped List

namespace Msgs

variable (s : Msgs)

/-- The messages are initialised, libzmq functions have been applied to no
    others, and each payload acquired is held by one message or has been
    released once. -/
structure Valid : Prop where
  init : .uninit ∉ s.heap.ptrs
  calls : ∀ a ∈ s.calls, .uninit ∉ a.msgs
  once : Balanced s.acquired s.held s.released

/-- The object does not hold a payload. -/
def Free (o : ℕ) : Prop := ∀ x ∈ s.heap.find o, x.data.bind Cell.token = none

/-- The object has a data pointer. -/
def HasData (o : ℕ) : Prop := ∃ x ∈ s.heap.find o, x.data.isSome

/-- The operation leaves no message uninitialised, and overwrites no payload. -/
def Careful (s : Msgs) : MsgOp → Prop
  | .init o (.string _) ok => ok = true ∧ s.Free o
  | .init o .falsy _ => s.Free o
  | .init o .other _ => s.HasData o
  | .initCopy copy src _ => src ≠ copy → s.HasData src → s.Free copy
  | _ => True

variable {s} {s' : Msgs} {o t : ℕ} {x : Obj Cell} {c : Cell} {bytes : Bytes} {fn : MsgFn}
  {msgs : List Cell} {dead : List ℕ} {op : MsgOp}

/-! ## What is held -/

theorem held_dataInit (hx : s.heap.find o = some x) :
    ∃ l m, s.held = l ++ (x.data.bind Cell.token).toList ++ m ∧
      ∀ s' : Msgs, ∀ data, s'.heap = s.heap.dataInit o data →
        s'.held = l ++ (data.bind Cell.token).toList ++ m := by
  obtain ⟨l, m, hptrs, hset⟩ := Heap.ptrs_dataInit hx
  have htoken : ∀ data : Option Cell,
      data.toList.filterMap Cell.token = (data.bind Cell.token).toList := by
    rintro (_ | c)
    · rfl
    · rw [Option.bind_some, Option.toList_some, List.filterMap_cons]
      cases c.token <;> rfl
  refine ⟨l.filterMap Cell.token, m.filterMap Cell.token, ?_, fun s' data hs' => ?_⟩
  · rw [held, hptrs, List.filterMap_append, List.filterMap_append, htoken]
  · rw [held, hs', hset, List.filterMap_append, List.filterMap_append, htoken]

/-- A message which is initialised without losing what it held. -/
theorem Valid.set (hs : s.Valid) (hheap : s'.heap = s.heap.dataInit o (some c))
    (hc : c ≠ .uninit) (hcalls : s'.calls = s.calls)
    (honce : Balanced s'.acquired s'.held s'.released) : s'.Valid := by
  refine ⟨fun h => ?_, fun a ha => hs.calls a (hcalls ▸ ha), honce⟩
  rw [hheap] at h
  rcases Heap.mem_ptrs_dataInit h with h | h
  · exact hs.init h
  · exact hc h.symm

theorem Valid.call (hs : s.Valid) (h : .uninit ∉ msgs) : (s.call fn msgs).Valid := by
  refine ⟨hs.init, fun a ha => ?_, hs.once⟩
  rcases List.mem_append.1 ha with ha | ha
  · exact hs.calls a ha
  · rw [List.mem_singleton.1 ha]
    exact h

theorem Valid.empty (hs : s.Valid) (hx : s.heap.find o = some x)
    (hfree : x.data.bind Cell.token = none) : (s.write o .empty).Valid := by
  obtain ⟨l, m, hheld, hset⟩ := held_dataInit hx
  refine hs.set rfl (by simp) rfl ?_
  rw [hset (s.write o .empty) _ rfl]
  rw [hfree] at hheld
  exact hheld ▸ hs.once

theorem Valid.acquire (hs : s.Valid) (hx : s.heap.find o = some x)
    (hfree : x.data.bind Cell.token = none) : (s.acquire o bytes).Valid := by
  obtain ⟨l, m, hheld, hset⟩ := held_dataInit hx
  refine hs.set rfl (by simp) rfl ?_
  rw [hset (s.acquire o bytes) _ rfl]
  rw [hfree, Option.toList_none, List.append_nil] at hheld
  exact (hheld ▸ hs.once).acquire

theorem Valid.moveOut (hs : s.Valid) (hx : s.heap.find o = some x) (hdata : x.data = some c) :
    (s.moveOut o c).Valid := by
  obtain ⟨l, m, hheld, hset⟩ := held_dataInit hx
  refine hs.set rfl (by simp) rfl ?_
  rw [hset (s.moveOut o c) _ rfl]
  rw [hdata, Option.bind_some] at hheld
  have honce := hheld ▸ hs.once
  rw [Msgs.moveOut]
  cases hc : c.token with
  | none =>
    rw [hc] at honce
    rwa [Option.toList_none, List.append_nil]
  | some t =>
    rw [hc] at honce
    have hrelease := honce.release
    rwa [← List.append_nil l] at hrelease

/-- A payload which is overwritten is never released. -/
theorem Valid.not_of_lost (hs : s.Valid) (hx : s.heap.find o = some x)
    (hdata : x.data.bind Cell.token = some t) (hheap : s'.heap = s.heap.dataInit o (some c))
    (hc : ∀ u ∈ c.token, s.acquired ≤ u) (hacquired : s.acquired ≤ s'.acquired)
    (hreleased : s'.released = s.released) : ¬s'.Valid := by
  obtain ⟨l, m, hheld, hset⟩ := held_dataInit hx
  have honce := hs.once
  rw [hheld, hdata, Option.toList_some] at honce
  intro hs'
  have honce' := hs'.once
  rw [hset s' _ hheap, hreleased] at honce'
  refine honce.not_of_lost (fun ht => ?_) hacquired honce'
  have hlt := honce.lt_of_mem (t := t) (by simp)
  exact Nat.not_lt_of_le (hc t (Option.mem_toList.1 ht)) hlt

theorem exists_token (hx : s.heap.find o = some x) (hfree : ¬s.Free o) :
    ∃ t, x.data.bind Cell.token = some t :=
  Option.ne_none_iff_exists'.1 fun hnone => hfree fun y hy => by
    rwa [← Option.some.inj (hx.symm.trans hy)]

theorem not_valid_of_uninit (hx : s.heap.find o = some x)
    (hheap : s'.heap = s.heap.dataInit o (some .uninit)) : ¬s'.Valid := fun hs' => by
  refine hs'.init (hheap ▸ ?_)
  exact Heap.mem_ptrs_of_find (Heap.find_dataInit hx) rfl

/-! ## Steps -/

theorem Valid.allocate (hs : s.Valid) : s.allocate.Valid := by
  refine ⟨?_, hs.calls, ?_⟩
  · rw [Msgs.allocate, Heap.ptrs_allocate]
    exact hs.init
  · rw [held, Msgs.allocate, Heap.ptrs_allocate]
    exact hs.once

theorem Valid.ne_uninit (hs : s.Valid) (hx : s.heap.find o = some x) (hdata : x.data = some c) :
    c ≠ .uninit := fun hc => hs.init (hc ▸ Heap.mem_ptrs_of_find hx hdata)

theorem write_acquire : (s.write o c).acquire o bytes = s.acquire o bytes := by
  simp [Msgs.write, Msgs.acquire]

theorem write_write {d : Cell} : (s.write o c).write o d = s.write o d := by
  simp [Msgs.write]

theorem Valid.zmqMsgCopy (hs : s.Valid) (hx : s.heap.find o = some x)
    (hdata : x.data = some .empty) (hc : c ≠ .uninit) (ok : Bool) :
    (s.zmqMsgCopy o c ok).Valid := by
  have hcall := @Valid.call s .copy [.empty, c] hs (by simpa using hc.symm)
  obtain _ | _ | ⟨t, bytes⟩ := c
  · exact hcall
  · exact hcall
  · rw [Msgs.zmqMsgCopy]
    split
    · exact hcall.acquire hx (by rw [hdata]; rfl)
    · exact hcall

theorem Valid.collect (hs : s.Valid) : (s.collect dead).Valid := by
  have hperm := @Heap.ptrs_sweep _ s.heap dead
  refine ⟨fun h => hs.init (hperm.mem_iff.1 (List.mem_append_right _ h)), fun a ha => ?_, ?_⟩
  · rcases List.mem_append.1 ha with ha | ha
    · exact hs.calls a ha
    · obtain ⟨msg, hmsg, rfl⟩ := List.mem_map.1 ha
      rw [List.mem_singleton]
      rintro rfl
      exact hs.init (hperm.mem_iff.1 (List.mem_append_left _ hmsg))
  · -- The payloads of the swept objects go from one side of the ledger to the
    -- other.
    refine hs.once.perm ?_
    have htokens := hperm.filterMap Cell.token
    rw [List.filterMap_append] at htokens
    calc (s.collect dead).held ++ (s.released ++ (s.heap.ptrsOf dead).filterMap Cell.token)
      _ ~ s.released ++ (s.heap.ptrsOf dead).filterMap Cell.token ++ (s.collect dead).held :=
        List.perm_append_comm
      _ = s.released ++ ((s.heap.ptrsOf dead).filterMap Cell.token ++ (s.collect dead).held) :=
        List.append_assoc ..
      _ ~ s.released ++ s.held := htokens.append_left s.released
      _ ~ s.held ++ s.released := List.perm_append_comm

theorem Valid.msgNew (hs : s.Valid) {data : MsgArg} {ok : Bool} (h : s.msgNew o data ok = some s')
    (hop : Careful s (.init o data ok)) : s'.Valid := by
  obtain ⟨x, hx, rfl⟩ := Option.map_eq_some_iff.1 h
  rcases data with bytes | _ | _
  · obtain ⟨rfl, hfree⟩ := hop
    simp only [if_true, write_acquire]
    exact (hs.acquire hx (hfree x hx)).call (by simp)
  · simp only [write_write]
    exact hs.empty hx (hop x hx)
  · -- The memory keeps what it held: it is the object's data pointer already.
    obtain ⟨y, hy, hdata⟩ := hop
    obtain rfl : x = y := Option.some.inj (hx.symm.trans hy)
    obtain ⟨c, hc⟩ := Option.isSome_iff_exists.1 hdata
    have hself := Heap.dataInit_self hx
    rw [hc] at hself
    simp only [hc, Option.getD_some, Msgs.write, hself]
    exact hs

theorem Valid.not_msgNew (hs : s.Valid) {data : MsgArg} {ok : Bool}
    (h : s.msgNew o data ok = some s') (hop : ¬Careful s (.init o data ok)) : ¬s'.Valid := by
  obtain ⟨x, hx, rfl⟩ := Option.map_eq_some_iff.1 h
  have hlost {s' : Msgs} {c : Cell} (hfree : ¬s.Free o)
      (hheap : s'.heap = s.heap.dataInit o (some c)) (hc : ∀ u ∈ c.token, s.acquired ≤ u)
      (hacquired : s.acquired ≤ s'.acquired) (hreleased : s'.released = s.released) :
      ¬s'.Valid := by
    obtain ⟨t, ht⟩ := exists_token hx hfree
    exact hs.not_of_lost hx ht hheap hc hacquired hreleased
  rcases data with bytes | _ | _
  · -- If `zmq_msg_init_size` fails, the memory is a data pointer all the same.
    cases ok with
    | false =>
      simp only [Bool.false_eq_true, if_false, write_write]
      exact not_valid_of_uninit hx rfl
    | true =>
      simp only [if_true, write_acquire]
      exact hlost (fun hfree => hop ⟨rfl, hfree⟩) rfl (by simp [Cell.token]) (Nat.le_succ _) rfl
  · simp only [write_write]
    exact hlost hop rfl (by simp [Cell.token]) (Nat.le_refl _) rfl
  · have hdata : x.data = none := Option.not_isSome_iff_eq_none.1 fun hdata => hop ⟨x, hx, hdata⟩
    rw [hdata]
    exact not_valid_of_uninit hx rfl

theorem Valid.msgCopy (hs : s.Valid) {copy src : ℕ} {ok : Bool}
    (h : s.msgCopy copy src ok = some s') (hop : Careful s (.initCopy copy src ok)) :
    s'.Valid := by
  obtain ⟨x, hx, h⟩ := Option.bind_eq_some_iff.1 h
  obtain ⟨y, hy, h⟩ := Option.bind_eq_some_iff.1 h
  cases hdata : x.data with
  | none =>
    rw [hdata] at h
    exact Option.some.inj h ▸ hs
  | some c =>
    simp only [hdata] at h
    split at h
    · exact Option.some.inj h ▸ hs
    · obtain rfl := Option.some.inj h
      have hfree := hop ‹_› ⟨x, hx, by rw [hdata]; rfl⟩ y hy
      exact (hs.empty hy hfree).zmqMsgCopy (Heap.find_dataInit hy) rfl (hs.ne_uninit hx hdata) ok

theorem Valid.not_msgCopy (hs : s.Valid) {copy src : ℕ} {ok : Bool}
    (h : s.msgCopy copy src ok = some s') (hop : ¬Careful s (.initCopy copy src ok)) :
    ¬s'.Valid := by
  obtain ⟨x, hx, h⟩ := Option.bind_eq_some_iff.1 h
  obtain ⟨y, hy, h⟩ := Option.bind_eq_some_iff.1 h
  simp only [Careful, Classical.not_imp] at hop
  obtain ⟨hne, ⟨x', hx', hsome⟩, hfree⟩ := hop
  obtain rfl : x = x' := Option.some.inj (hx.symm.trans hx')
  obtain ⟨c, hdata⟩ := Option.isSome_iff_exists.1 hsome
  simp only [hdata, if_neg hne] at h
  obtain rfl := Option.some.inj h
  obtain ⟨t, ht⟩ := exists_token hy hfree
  obtain _ | _ | ⟨u, bytes⟩ := c
  · exact hs.not_of_lost hy ht rfl (by simp [Cell.token]) (Nat.le_refl _) rfl
  · exact hs.not_of_lost hy ht rfl (by simp [Cell.token]) (Nat.le_refl _) rfl
  · -- Whether the copy succeeds or not, `zmq_msg_init` has been before it.
    cases ok with
    | false => exact hs.not_of_lost hy ht rfl (by simp [Cell.token]) (Nat.le_refl _) rfl
    | true =>
      refine hs.not_of_lost hy ht Heap.dataInit_dataInit ?_ (Nat.le_succ _) rfl
      exact fun u hu => Nat.le_of_eq (Option.some.inj hu)

theorem Valid.msgSend (hs : s.Valid) {flags : ℤ} {ok : Bool}
    (h : s.msgSend o flags ok = some s') : s'.Valid := by
  obtain ⟨x, hx, rfl⟩ := Option.map_eq_some_iff.1 h
  cases hdata : x.data with
  | none => exact hs
  | some c =>
    have hcall := @Valid.call s .send [c] hs (by simpa using (hs.ne_uninit hx hdata).symm)
    simp only
    split
    · split
      · exact hcall.moveOut hx hdata
      · exact hcall
    · exact hs

theorem Valid.recvPass (hs : s.Valid) {frame : Option Bytes} (h : s.recvPass frame = some s') :
    s'.Valid := by
  obtain ⟨s₁, hnew, rfl⟩ := Option.map_eq_some_iff.1 h
  have hfind : s.allocate.heap.find s.heap.next = some { id := s.heap.next } := Heap.find_allocate
  have hs₁ := hs.allocate.msgNew hnew fun x hx => by
    rw [← Option.some.inj (hfind.symm.trans hx)]
    rfl
  obtain ⟨x, hx, rfl⟩ := Option.map_eq_some_iff.1 hnew
  simp only [write_write] at hs₁ ⊢
  have hcall := @Valid.call _ .recv [.empty] hs₁ (by simp)
  cases frame with
  | none => exact hcall
  | some bytes => exact (hcall.acquire (Heap.find_dataInit hfind) rfl).call (by simp)

theorem Valid.msgToStr (hs : s.Valid) (h : s.msgToStr o = some s') : s'.Valid := by
  obtain ⟨x, hx, rfl⟩ := Option.map_eq_some_iff.1 h
  cases hdata : x.data with
  | none => exact hs
  | some c =>
    have hc : .uninit ∉ [c] := by simpa using (hs.ne_uninit hx hdata).symm
    exact (hs.call hc).call hc

theorem Valid.msgEql (hs : s.Valid) {other : ℕ} (h : s.msgEql o other = some s') : s'.Valid := by
  obtain ⟨x, hx, h⟩ := Option.bind_eq_some_iff.1 h
  obtain ⟨y, hy, h⟩ := Option.bind_eq_some_iff.1 h
  split at h
  · rename_i d c hd hc
    have hc : .uninit ∉ [c] := by simpa using (hs.ne_uninit hx hc).symm
    have hd : .uninit ∉ [d] := by simpa using (hs.ne_uninit hy hd).symm
    split at h
    · exact Option.some.inj h ▸ hs
    · obtain rfl := Option.some.inj h
      rw [compare]
      split
      · exact ((((hs.call hc).call hd).call hc).call hd).call hc
      · exact (hs.call hc).call hd
  · exact Option.some.inj h ▸ hs

theorem Valid.step (hs : s.Valid) (h : messages.step s op = some s') (hop : Careful s op) :
    s'.Valid := by
  cases op with
  | allocate => exact Option.some.inj h ▸ hs.allocate
  | init o data ok => exact hs.msgNew h hop
  | initCopy copy src ok => exact hs.msgCopy h hop
  | send o flags ok => exact hs.msgSend h
  | recv frame => exact hs.recvPass h
  | toStr o => exact hs.msgToStr h
  | eql o other => exact hs.msgEql h
  | collect dead => exact Option.some.inj h ▸ hs.collect

theorem Valid.not_step (hs : s.Valid) (h : messages.step s op = some s') (hop : ¬Careful s op) :
    ¬s'.Valid := by
  cases op with
  | init o data ok => exact hs.not_msgNew h hop
  | initCopy copy src ok => exact hs.not_msgCopy h hop
  | allocate | send | recv | toStr | eql | collect => exact absurd trivial hop

theorem valid_empty : ({} : Msgs).Valid :=
  ⟨List.not_mem_nil, fun _ h => absurd h List.not_mem_nil, balanced_zero⟩

/-- When the last object has been swept, each payload has been released once. -/
theorem Valid.count_released (hs : s.Valid) (h : s.heap.objs = []) (ht : t < s.acquired) :
    s.released.count t = 1 := by
  have honce := hs.once
  rw [held, Heap.ptrs, h] at honce
  exact honce.count_released ht

end Msgs

open Msgs

/-- In a run, the messages are valid in every state exactly if each operation is
    careful. -/
theorem valid_iff_along (ops : List MsgOp) :
    messages.Always Valid {} ops ↔ messages.Along Careful {} ops :=
  Machine.always_iff_along (fun _ => id)
    (fun _ _ _ hs h => ⟨fun hs' => not_not.1 fun hop => hs.not_step h hop hs', hs.step h⟩)
    (fun _ _ _ => Valid.step) valid_empty

/-- The message of `ZMQ::Msg.new(1)` is closed uninitialised. -/
theorem closed_uninitialised :
    let ops : List MsgOp := [.allocate, .init 0 .other true, .collect [0]]
    (messages.run {} ops).map (·.calls) = some [⟨.close, [.uninit]⟩] ∧
      ¬messages.Always Valid {} ops := by
  intro ops
  refine ⟨rfl, fun h => ?_⟩
  exact (h.of_run rfl).calls _ List.mem_cons_self List.mem_cons_self

end MrubyZmq
