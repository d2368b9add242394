import MrubyZmq.Msg.Ownership
import MrubyZmq.Simulation

/-!
# Messages as strings

To a program, a `ZMQ::Msg` is a string: it is asked for it by `to_str`, for its
length by `bytesize`, and compared by `==`. Which string it is can be said
without data pointers and payloads (`Texts`): a `Msg` is what it was last set to
by `initialize`, by `initialize_copy` or in a `recv`, and empty once it is sent.

The messages are these strings in every run, unless an `initialize` that has
raised left one uninitialised (`texts_of_run`). So a copy and its source do not
depend on each other, although libzmq may have them share one payload.
-/

namespace MrubyZmq

/-! ## Reading a message -/

/-- The first `n` bytes are the same: `memcmp` is `0`. -/
def memcmp (a b : Bytes) (n : ℕ) : Bool := a.take n = b.take n

namespace Msgs

variable (s : Msgs)

/-- `mrb_data_get_ptr`, with the type of messages. -/
def dataGetPtr (o : ℕ) : Except Err Cell :=
  match s.heap.data o with
  | some msg => .ok msg
  | none => .error (.typeError "uninitialized")

/-- What `ZMQ::Msg#to_str` returns: `mrb_zmq_msg_to_str`. -/
def toStr (o : ℕ) : Except Err Bytes := do
  let msg ← s.dataGetPtr o
  return msg.bytes

/-- What `ZMQ::Msg#bytesize` returns: `mrb_zmq_msg_size`. -/
def bytesize (o : ℕ) : Except Err ℕ := do
  let msg ← s.dataGetPtr o
  return msg.bytes.length

/-- What `ZMQ::Msg#==` returns: `mrb_zmq_msg_eql`. -/
def eql (o other : ℕ) : Except Err Bool := do
  let otherMsg ← s.dataGetPtr other
  let msg ← s.dataGetPtr o
  if o = other then
    return true
  else if msg.bytes.length ≠ otherMsg.bytes.length then
    return false
  else
    return memcmp msg.bytes otherMsg.bytes msg.bytes.length

end Msgs

/-! ## Strings -/

/-- The strings that messages are, and the id of the next object. -/
structure Texts where
  text : ℕ → Option Bytes := fun _ => none
  next : ℕ := 0

namespace Texts

variable {t : Texts}

/-- A message is set to a string. -/
def set (t : Texts) (o : ℕ) (a : Bytes) : Texts :=
  { t with text := Function.update t.text o (some a) }

@[simp] theorem text_set_self {o : ℕ} {a : Bytes} : (t.set o a).text o = some a :=
  Function.update_self ..

theorem text_set_of_ne {o o' : ℕ} {a : Bytes} (ho : o' ≠ o) : (t.set o a).text o' = t.text o' :=
  Function.update_of_ne ho ..

/-- What an operation does to the strings. -/
def step (t : Texts) : MsgOp → Texts
  | .allocate => { t with next := t.next + 1 }
  | .init o (.string a) _ => t.set o a
  | .init o .falsy _ => t.set o []
  | .init _ .other _ => t
  | .initCopy copy src ok =>
    match t.text src with
    | some a => if src = copy then t else t.set copy (if ok then a else [])
    | none => t
  | .send o flags ok =>
    match t.text o with
    | some _ => if FitsInt flags then if ok then t.set o [] else t else t
    | none => t
  | .recv frame => { t.set t.next (frame.getD []) with next := t.next + 1 }
  | .toStr _ | .eql _ _ => t
  | .collect dead => { t with text := fun o => if o ∈ dead then none else t.text o }

/-- The string, if there is one. -/
def read (t : Texts) (o : ℕ) : Except Err Bytes :=
  match t.text o with
  | some a => .ok a
  | none => .error (.typeError "uninitialized")

end Texts

/-! ## The strings of the messages -/

namespace Msgs

/-- The operation leaves no message uninitialised: `initialize` succeeds, or the
    object has a message already. -/
def Fills (s : Msgs) : MsgOp → Prop
  | .init _ (.string _) ok => ok = true
  | .init o .other _ => s.HasData o
  | _ => True

/-- The messages are initialised, and are these strings. -/
structure Shows (s : Msgs) (t : Texts) : Prop where
  init : ∀ o, s.heap.data o ≠ some .uninit
  text : ∀ o, t.text o = (s.heap.data o).map Cell.bytes
  next : t.next = s.heap.next

variable {s s' : Msgs} {t : Texts} {o : ℕ} {x : Obj Cell} {c : Cell} {a : Bytes} {op : MsgOp}

theorem shows_empty : ({} : Msgs).Shows {} :=
  ⟨fun _ => by simp [Heap.data, Heap.find], fun _ => rfl, rfl⟩

theorem Shows.text_of_find (h : s.Shows t) (hx : s.heap.find o = some x) :
    t.text o = x.data.map Cell.bytes := by
  rw [h.text, Heap.data_of_find hx]

/-- What the message of one object holds is changed. -/
theorem Shows.set (h : s.Shows t) (hx : s.heap.find o = some x)
    (hheap : s'.heap = s.heap.dataInit o (some c)) (hc : c ≠ .uninit) (ha : c.bytes = a) :
    s'.Shows (t.set o a) := by
  refine ⟨fun o' => ?_, fun o' => ?_, ?_⟩
  · rw [hheap, Heap.data_dataInit hx]
    by_cases ho : o' = o
    · rw [ho, Function.update_self]
      exact fun heq => hc (Option.some.inj heq)
    · rw [Function.update_of_ne ho]
      exact h.init o'
  · rw [hheap, Heap.data_dataInit hx]
    by_cases ho : o' = o
    · rw [ho, Texts.text_set_self, Function.update_self, Option.map_some, ha]
    · rw [Texts.text_set_of_ne ho, Function.update_of_ne ho, h.text]
  · rw [hheap]
    exact h.next

theorem Shows.congr (h : s.Shows t) (hheap : s'.heap = s.heap) : s'.Shows t :=
  ⟨fun o => by rw [hheap]; exact h.init o, fun o => by rw [hheap, h.text], by rw [hheap, h.next]⟩

theorem Shows.allocate (h : s.Shows t) : s.allocate.Shows { t with next := t.next + 1 } := by
  refine ⟨fun o => ?_, fun o => ?_, congrArg (· + 1) h.next⟩
  · rw [Msgs.allocate, Heap.data_allocate]
    exact h.init o
  · rw [Msgs.allocate, Heap.data_allocate]
    exact h.text o

theorem Shows.msgNew (h : s.Shows t) {data : MsgArg} {ok : Bool}
    (hstep : s.msgNew o data ok = some s') (hop : s.Fills (.init o data ok)) :
    s'.Shows (t.step (.init o data ok)) := by
  obtain ⟨x, hx, rfl⟩ := Option.map_eq_some_iff.1 hstep
  rcases data with a | _ | _
  · obtain rfl : ok = true := hop
    simp only [if_true, write_acquire]
    exact h.set hx rfl (by simp) rfl
  · simp only [write_write]
    exact h.set hx rfl (by simp) rfl
  · -- The object has a message already, which stays as it is.
    obtain ⟨y, hy, hdata⟩ := hop
    obtain rfl : x = y := Option.some.inj (hx.symm.trans hy)
    obtain ⟨c, hc⟩ := Option.isSome_iff_exists.1 hdata
    have hself := Heap.dataInit_self hx
    rw [hc] at hself
    simp only [hc, Option.getD_some, Msgs.write, hself]
    exact h

theorem Shows.msgCopy (h : s.Shows t) {copy src : ℕ} {ok : Bool}
    (hstep : s.msgCopy copy src ok = some s') : s'.Shows (t.step (.initCopy copy src ok)) := by
  obtain ⟨x, hx, hstep⟩ := Option.bind_eq_some_iff.1 hstep
  obtain ⟨y, hy, hstep⟩ := Option.bind_eq_some_iff.1 hstep
  rw [Texts.step, h.text_of_find hx]
  rcases hdata : x.data with _ | c
  · simp only [hdata] at hstep
    exact Option.some.inj hstep ▸ h
  · simp only [hdata, Option.map_some] at hstep ⊢
    split at hstep
    · rw [if_pos ‹_›]
      exact Option.some.inj hstep ▸ h
    · rw [if_neg ‹_›]
      obtain rfl := Option.some.inj hstep
      -- An empty message is put in place first, and gets the payload if there
      -- is one and the copy succeeds.
      obtain _ | _ | ⟨u, a⟩ := c
      · exact h.set hy rfl (by simp) (by cases ok <;> rfl)
      · exact h.set hy rfl (by simp) (by cases ok <;> rfl)
      · cases ok with
        | false => exact h.set hy rfl (by simp) rfl
        | true => exact h.set hy Heap.dataInit_dataInit (by simp) rfl

theorem Shows.msgSend (h : s.Shows t) {flags : ℤ} {ok : Bool}
    (hstep : s.msgSend o flags ok = some s') : s'.Shows (t.step (.send o flags ok)) := by
  obtain ⟨x, hx, rfl⟩ := Option.map_eq_some_iff.1 hstep
  rw [Texts.step, h.text_of_find hx]
  rcases hdata : x.data with _ | c
  · exact h
  · simp only [Option.map_some]
    by_cases hflags : FitsInt flags
    · simp only [if_pos hflags]
      cases ok with
      | false => exact h.congr rfl
      | true => exact h.set hx rfl (by simp) rfl
    · simp only [if_neg hflags]
      exact h

theorem Shows.recvPass (h : s.Shows t) {frame : Option Bytes} (hstep : s.recvPass frame = some s') :
    s'.Shows (t.step (.recv frame)) := by
  obtain ⟨s₁, hnew, rfl⟩ := Option.map_eq_some_iff.1 hstep
  have hfind : s.allocate.heap.find s.heap.next = some { id := s.heap.next } := Heap.find_allocate
  obtain ⟨x, -, rfl⟩ := Option.map_eq_some_iff.1 hnew
  have hallocate := h.allocate
  rw [h.next] at hallocate
  rw [Texts.step, h.next]
  simp only [write_write]
  rcases frame with _ | a
  · exact hallocate.set hfind rfl (by simp) rfl
  · exact hallocate.set hfind Heap.dataInit_dataInit (by simp) rfl

theorem Shows.step (h : s.Shows t) (hstep : messages.step s op = some s') (hop : s.Fills op) :
    s'.Shows (t.step op) := by
  cases op with
  | allocate => exact Option.some.inj hstep ▸ h.allocate
  | init o data ok => exact h.msgNew hstep hop
  | initCopy copy src ok => exact h.msgCopy hstep
  | send o flags ok => exact h.msgSend hstep
  | recv frame => exact h.recvPass hstep
  | toStr o =>
    obtain ⟨x, -, rfl⟩ := Option.map_eq_some_iff.1 hstep
    refine h.congr ?_
    cases x.data <;> rfl
  | eql o other =>
    obtain ⟨x, -, hstep⟩ := Option.bind_eq_some_iff.1 hstep
    obtain ⟨y, -, hstep⟩ := Option.bind_eq_some_iff.1 hstep
    refine h.congr ?_
    split at hstep
    · split at hstep
      · rw [← Option.some.inj hstep]
      · rw [← Option.some.inj hstep, compare]
        split <;> rfl
    · rw [← Option.some.inj hstep]
  | collect dead =>
    obtain rfl := Option.some.inj hstep
    refine ⟨fun o => ?_, fun o => ?_, h.next⟩
    · rw [Msgs.collect, Heap.data_sweep]
      by_cases ho : o ∈ dead <;> simp [ho, h.init]
    · rw [Texts.step, Msgs.collect, Heap.data_sweep]
      by_cases ho : o ∈ dead <;> simp [ho, h.text]

theorem simulates_texts : Machine.Simulates messages (.total Texts.step) Shows Fills
    fun _ op => [op] where
  step _ t op _ h hop hstep := ⟨t.step op, rfl, h.step hstep hop⟩

/-! ## What is read -/

theorem Shows.toStr (h : s.Shows t) : s.toStr o = t.read o := by
  rw [Msgs.toStr, dataGetPtr, Texts.read, h.text]
  cases s.heap.data o <;> rfl

theorem Shows.bytesize (h : s.Shows t) : s.bytesize o = (t.read o).map List.length := by
  rw [Msgs.bytesize, dataGetPtr, Texts.read, h.text]
  cases s.heap.data o <;> rfl

/-- Of two strings of one length, `memcmp` compares all the bytes. -/
theorem eql_bytes {a b : Bytes} : (if a.length ≠ b.length then false else memcmp a b a.length) =
    decide (a = b) := by
  by_cases hlen : a.length = b.length
  · rw [if_neg (not_not.2 hlen), memcmp, List.take_length, hlen, List.take_length]
  · rw [if_pos hlen, eq_comm, decide_eq_false_iff_not]
    exact fun heq => hlen (congrArg List.length heq)

theorem Shows.eql (h : s.Shows t) {other : ℕ} : s.eql o other = do
    let b ← t.read other
    let a ← t.read o
    return decide (a = b) := by
  rw [Msgs.eql, dataGetPtr, dataGetPtr, Texts.read, Texts.read, h.text, h.text]
  rcases hother : s.heap.data other with _ | d
  · rfl
  rcases ho : s.heap.data o with _ | c
  · rfl
  · by_cases heq : o = other
    · obtain rfl : c = d := Option.some.inj (ho.symm.trans (heq ▸ hother))
      simp [heq, bind, Except.bind]
    · simp only [bind, Except.bind, if_neg heq, Option.map_some, ← eql_bytes]
      split <;> rfl

end Msgs

open Msgs

/-- In every run in which no `initialize` leaves a message uninitialised,
    `to_str` returns the string a message was last set to, `bytesize` its length,
    and `==` tells whether the strings of two messages are the same. -/
theorem texts_of_run {ops : List MsgOp} {s : Msgs} (hops : messages.Along Fills {} ops)
    (hr : messages.run {} ops = some s) :
    let t := ops.foldl Texts.step {}
    (∀ o, s.heap.data o ≠ some .uninit) ∧ (∀ o, s.toStr o = t.read o) ∧
      (∀ o, s.bytesize o = (t.read o).map List.length) ∧
      ∀ o other, s.eql o other = do
        let b ← t.read other
        let a ← t.read o
        return decide (a = b) := by
  have h := simulates_texts.run_total shows_empty hops hr
  rw [List.map_id'] at h
  exact ⟨h.init, fun o => h.toStr, fun o => h.bytesize, fun o other => h.eql⟩

/-- A copy keeps its string when the message it was made from is sent and then
    swept. -/
theorem texts_of_run_copy :
    let ops : List MsgOp := [.allocate, .init 0 (.string [1, 2]) true, .allocate,
      .initCopy 1 0 true, .send 0 0 true, .collect [0]]
    ∃ s, messages.run {} ops = some s ∧ s.toStr 1 = .ok [1, 2] := by
  intro ops
  have hops : messages.Along Fills {} ops := by
    simp [ops, Machine.Along, Machine.Throughout, Fills]
  obtain ⟨s, hs⟩ := Option.isSome_iff_exists.1 (rfl : (messages.run {} ops).isSome = true)
  refine ⟨s, hs, ?_⟩
  rw [(texts_of_run hops hs).2.1]
  rfl

end MrubyZmq
