import MrubyZmq.Msg.Value
import MrubyZmq.Socket

/-!
# Sending and receiving messages as objects

A program sends `ZMQ::Msg`s on a socket by `Msg#send`, frame by frame, and takes
them from another one, joined with it, by `Socket#recv`, which makes new objects
of the frames it receives (`exchange`). What this means is said without frames,
payloads and data pointers: the strings of the messages sent, up to the next one
without `SNDMORE`, make one message of a queue (`Mail`).

In every run, whatever is done to the messages in between, the program sees this
queue, and what `recv` returns are messages with the strings that were sent
(`recv_returns_sent`).
-/

namespace MrubyZmq

/-! ## The code -/

/-- The messages of a program, with the socket it sends on and the frames it can
    receive from another one. -/
structure Exchange where
  msgs : Msgs := {}
  out : Pipe Bytes := {}
  inbox : List (Frame Bytes) := []
  /-- The objects which each `recv` has returned. -/
  received : List (List ℕ) := []

inductive ExchangeOp
  /-- An operation on messages, maybe with other sockets. -/
  | msg (op : MsgOp)
  /-- `Msg#send` on the socket, given whether `zmq_msg_send` succeeds. -/
  | send (o : ℕ) (flags : ℤ) (ok : Bool)
  | recv (flags : ℤ)

/-- The loop of `mrb_zmq_socket_recv`, with the objects made so far. It ends
    without a value if there is no frame to be received. -/
def recvObjs : List (Frame Bytes) → Msgs → List ℕ →
    Option (Msgs × List (Frame Bytes) × Option (List ℕ))
  | [], s, _ => (s.recvPass none).map fun s' => (s', [], none)
  | f :: inbox, s, objs => do
    let s' ← s.recvPass (some f.data)
    let objs := objs ++ [s.heap.next]
    if f.more then recvObjs inbox s' objs else return (s', inbox, some objs)

namespace Exchange

variable (s : Exchange)

/-- The link moves the frames that have been flushed. -/
def deliver : Exchange :=
  { s with out := { s.out with flushed := [] }, inbox := s.inbox ++ s.out.flushed }

/-- What a send that succeeds does to the socket. -/
def write (msg : Cell) (flags : ℤ) : Exchange :=
  deliver { s with out := s.out.write ⟨msg.bytes, sndmore flags⟩ }

/-- `ZMQ::Msg#send`, which calls `LibZMQ.msg_send`. -/
def msgSend (o : ℕ) (flags : ℤ) (ok : Bool) : Option Exchange :=
  (s.msgs.msgSend o flags ok).map fun msgs =>
    match s.msgs.heap.data o with
    | some msg => if FitsInt flags ∧ ok = true then { s.write msg flags with msgs }
      else { s with msgs }
    | none => { s with msgs }

/-- `ZMQ::Socket#recv`: `mrb_zmq_socket_recv`. -/
def recv (flags : ℤ) : Option Exchange :=
  if FitsInt flags then
    (recvObjs s.inbox s.msgs []).map fun r =>
      { s with msgs := r.1, inbox := r.2.1, received := s.received ++ r.2.2.toList }
  else some s

end Exchange

/-- A program exchanging messages. -/
def exchange : Machine Exchange ExchangeOp where
  step s
    | .msg op => (messages.step s.msgs op).map fun msgs => { s with msgs }
    | .send o flags ok => s.msgSend o flags ok
    | .recv flags => s.recv flags

/-! ## The queue -/

/-- The strings of the messages, and the messages on their way: the strings of
    an unfinished one, and those which have not been received. -/
structure Mail where
  texts : Texts := {}
  opened : List Bytes := []
  queue : List (List Bytes) := []
  received : List (List ℕ) := []

namespace Mail

variable (m : Mail)

/-- A string is sent, finishing a message or not. -/
def post (a : Bytes) (more : Bool) : Mail :=
  if more then { m with opened := m.opened ++ [a] }
  else { m with opened := [], queue := m.queue ++ [m.opened ++ [a]] }

/-- New objects are made of the strings. -/
def unpack (l : List Bytes) : Mail :=
  { m with
    texts := l.foldl (fun t a => t.step (.recv (some a))) m.texts
    received := m.received ++ [List.range' m.texts.next l.length] }

/-- What an operation does. -/
def step (m : Mail) : ExchangeOp → Mail
  | .msg op => { m with texts := m.texts.step op }
  | .send o flags ok =>
    match m.texts.text o with
    | some a =>
      if FitsInt flags ∧ ok = true then { m.post a (sndmore flags) with texts := m.texts.set o [] }
      else m
    | none => m
  | .recv flags =>
    if FitsInt flags then
      match m.queue with
      | [] => { m with texts := m.texts.step (.recv none) }
      | l :: queue => { m.unpack l with queue }
    else m

end Mail

namespace Exchange

/-- No `initialize` leaves a message uninitialised. -/
def Fills (s : Exchange) : ExchangeOp → Prop
  | .msg op => s.msgs.Fills op
  | _ => True

/-- The exchange is this queue. -/
structure Carries (s : Exchange) (m : Mail) : Prop where
  shows : s.msgs.Shows m.texts
  out : s.out = { pending := openFrames m.opened }
  inbox : s.inbox = m.queue.flatMap frames
  ne_nil : ∀ l ∈ m.queue, l ≠ []
  received : s.received = m.received

variable {s s' : Exchange} {m : Mail} {o : ℕ} {flags : ℤ} {ok : Bool}

theorem carries_empty : ({} : Exchange).Carries {} :=
  ⟨Msgs.shows_empty, rfl, rfl, by simp, rfl⟩

/-- A frame is written, and what has been flushed is moved. -/
theorem Carries.post (h : s.Carries m) {msg : Cell} :
    (s.write msg flags).Carries (m.post msg.bytes (sndmore flags)) := by
  cases hmore : sndmore flags with
  | true =>
    refine ⟨h.shows, ?_, ?_, h.ne_nil, h.received⟩
    · simp [write, deliver, hmore, h.out, Mail.post, openFrames]
    · simp [write, deliver, hmore, h.out, Mail.post, h.inbox]
  | false =>
    refine ⟨h.shows, ?_, ?_, fun l hl => ?_, h.received⟩
    · simp [write, deliver, hmore, Mail.post, openFrames]
    · simp [write, deliver, hmore, h.out, Mail.post, h.inbox, frames_concat]
    · rw [Mail.post, if_neg Bool.false_ne_true] at hl
      rcases List.mem_append.1 hl with hl | hl
      · exact h.ne_nil l hl
      · rw [List.mem_singleton.1 hl]
        exact List.append_ne_nil_of_right_ne_nil _ (List.cons_ne_nil _ _)

theorem Carries.send (h : s.Carries m) (hs : s.msgSend o flags ok = some s') :
    s'.Carries (m.step (.send o flags ok)) := by
  obtain ⟨msgs, hmsgs, rfl⟩ := Option.map_eq_some_iff.1 hs
  have hshows := h.shows.msgSend hmsgs
  rw [Texts.step] at hshows
  rw [Mail.step]
  rw [h.shows.text] at hshows ⊢
  rcases hdata : s.msgs.heap.data o with _ | msg
  · rw [hdata] at hshows
    exact ⟨hshows, h.out, h.inbox, h.ne_nil, h.received⟩
  · simp only [hdata, Option.map_some] at hshows ⊢
    by_cases hsend : FitsInt flags ∧ ok = true
    · rw [if_pos hsend.1, if_pos hsend.2] at hshows
      rw [if_pos hsend, if_pos hsend]
      have hpost : (s.write msg flags).Carries _ := h.post
      exact ⟨hshows, hpost.out, hpost.inbox, hpost.ne_nil, hpost.received⟩
    · rw [if_neg hsend, if_neg hsend]
      refine ⟨?_, h.out, h.inbox, h.ne_nil, h.received⟩
      split at hshows
      · split at hshows
        · exact absurd ⟨‹_›, ‹_›⟩ hsend
        · exact hshows
      · exact hshows

end Exchange

/-! ## Receiving -/

section recv

variable {s s' : Msgs} {t : Texts} {rest : List (Frame Bytes)}

theorem recvPass_isSome (s : Msgs) (frame : Option Bytes) : ∃ s', s.recvPass frame = some s' := by
  have hfind : s.allocate.heap.find s.heap.next = some { id := s.heap.next } := Heap.find_allocate
  rw [Msgs.recvPass, Msgs.msgNew, hfind]
  exact ⟨_, rfl⟩

/-- The loop makes objects of the frames of the first message. -/
theorem recvObjs_frames (l : List Bytes) (hl : l ≠ []) (objs : List ℕ) (h : s.Shows t) :
    ∃ s', recvObjs (frames l ++ rest) s objs =
        some (s', rest, some (objs ++ List.range' s.heap.next l.length)) ∧
      s'.Shows (l.foldl (fun t a => t.step (.recv (some a))) t) := by
  induction l using frames.induct generalizing s t objs with
  | case1 => exact absurd rfl hl
  | case2 a =>
    obtain ⟨s', hs'⟩ := recvPass_isSome s (some a)
    exact ⟨s', by simp [frames, recvObjs, hs'], h.recvPass hs'⟩
  | case3 a b l ih =>
    obtain ⟨s₁, hs₁⟩ := recvPass_isSome s (some a)
    have h₁ := h.recvPass hs₁
    have hnext : s₁.heap.next = s.heap.next + 1 := by
      rw [← h₁.next, ← h.next]
      rfl
    obtain ⟨s', hs', h'⟩ := ih (List.cons_ne_nil b l) (objs ++ [s.heap.next]) h₁
    refine ⟨s', ?_, h'⟩
    rw [frames, List.cons_append, recvObjs, hs₁]
    refine Eq.trans ?_ (hs'.trans ?_)
    · rfl
    · rw [hnext, List.append_assoc]
      rfl

/-- Making an object of a string does nothing to the strings of earlier ones. -/
theorem text_foldl_recv (l : List Bytes) {o : ℕ} (ho : o < t.next) :
    (l.foldl (fun t a => t.step (.recv (some a))) t).text o = t.text o := by
  induction l generalizing t with
  | nil => rfl
  | cons a l ih =>
    rw [List.foldl_cons, ih (Nat.lt_succ_of_lt ho)]
    exact Texts.text_set_of_ne (Nat.ne_of_lt ho)

/-- The new objects are the strings they are made of. -/
theorem read_foldl_recv (l : List Bytes) :
    (List.range' t.next l.length).map (l.foldl (fun t a => t.step (.recv (some a))) t).read =
      l.map .ok := by
  induction l generalizing t with
  | nil => rfl
  | cons a l ih =>
    rw [List.length_cons, List.range'_succ, List.map_cons, List.map_cons, List.foldl_cons]
    refine congrArg₂ List.cons ?_ (ih (t := t.step (.recv (some a))))
    have htext : (t.step (.recv (some a))).text t.next = some a := Texts.text_set_self
    rw [Texts.read, text_foldl_recv l (Nat.lt_succ_self _), htext]

end recv

namespace Exchange

variable {s s' : Exchange} {m : Mail} {o : ℕ} {flags : ℤ} {ok : Bool} {op : ExchangeOp}
  {ops : List ExchangeOp}

theorem Carries.recv (h : s.Carries m) (hs : s.recv flags = some s') :
    s'.Carries (m.step (.recv flags)) := by
  rw [Exchange.recv] at hs
  rw [Mail.step]
  split at hs
  · rw [if_pos ‹_›]
    obtain ⟨r, hr, rfl⟩ := Option.map_eq_some_iff.1 hs
    rw [h.inbox] at hr
    rcases hqueue : m.queue with _ | ⟨l, queue⟩
    · -- There is no message, and the object made for it is of no use.
      rw [hqueue] at hr
      obtain ⟨msgs, hmsgs, rfl⟩ := Option.map_eq_some_iff.1 hr
      refine ⟨h.shows.recvPass hmsgs, h.out, rfl, fun l hl => absurd hl List.not_mem_nil, ?_⟩
      rw [Option.toList_none, List.append_nil]
      exact h.received
    · rw [hqueue, List.flatMap_cons] at hr
      have hne : l ≠ [] := h.ne_nil l (hqueue ▸ List.mem_cons_self)
      obtain ⟨msgs, hmsgs, hshows⟩ := recvObjs_frames l hne [] h.shows
      obtain rfl := Option.some.inj (hmsgs.symm.trans hr)
      refine ⟨hshows, h.out, rfl, fun k hk => ?_, ?_⟩
      · exact h.ne_nil k (hqueue ▸ List.mem_cons_of_mem l hk)
      · rw [h.received, List.nil_append, ← h.shows.next]
        rfl
  · rw [if_neg ‹_›]
    exact Option.some.inj hs ▸ h

theorem Carries.step (h : s.Carries m) (hs : exchange.step s op = some s') (hop : s.Fills op) :
    s'.Carries (m.step op) := by
  cases op with
  | msg op =>
    obtain ⟨msgs, hmsgs, rfl⟩ := Option.map_eq_some_iff.1 hs
    exact ⟨h.shows.step hmsgs hop, h.out, h.inbox, h.ne_nil, h.received⟩
  | send o flags ok => exact h.send hs
  | recv flags => exact h.recv hs

theorem simulates_mail : Machine.Simulates exchange (.total Mail.step) Carries Fills
    fun _ op => [op] where
  step _ m op _ h hop hs := ⟨m.step op, rfl, h.step hs hop⟩

theorem carries_of_run (hops : exchange.Along Fills {} ops) (hr : exchange.run {} ops = some s) :
    s.Carries (ops.foldl Mail.step {}) := by
  have h := simulates_mail.run_total carries_empty hops hr
  rwa [List.map_id'] at h

/-- What `recv` returns, if there is a message in the queue. -/
theorem Carries.received_recv (h : s.Carries m) (hflags : FitsInt flags) {l : List Bytes}
    {queue : List (List Bytes)} (hqueue : m.queue = l :: queue) :
    ∃ s' objs, exchange.step s (.recv flags) = some s' ∧ s'.received = s.received ++ [objs] ∧
      objs.map s'.msgs.toStr = l.map .ok := by
  have hne : l ≠ [] := h.ne_nil l (hqueue ▸ List.mem_cons_self)
  obtain ⟨msgs, hmsgs, hshows⟩ := @recvObjs_frames _ _ (queue.flatMap frames) l hne [] h.shows
  have hs : exchange.step s (.recv flags) = some
      { s with
        msgs
        inbox := queue.flatMap frames
        received := s.received ++ [List.range' s.msgs.heap.next l.length] } := by
    change s.recv flags = _
    rw [Exchange.recv, if_pos hflags, h.inbox, hqueue, List.flatMap_cons, hmsgs]
    rfl
  refine ⟨_, _, hs, rfl, ?_⟩
  rw [← read_foldl_recv (t := m.texts) l, h.shows.next]
  exact List.map_congr_left fun o _ => hshows.toStr

end Exchange

open Exchange

/-- In every run in which no `initialize` leaves a message uninitialised, the
    messages are the strings of the queue, and what `recv` has returned is what
    was taken from it. If there is a message in the queue, `recv` returns new
    objects which are its strings. -/
theorem recv_returns_sent {ops : List ExchangeOp} {s : Exchange}
    (hops : exchange.Along Fills {} ops) (hr : exchange.run {} ops = some s) :
    let m := ops.foldl Mail.step {}
    (∀ o, s.msgs.toStr o = m.texts.read o) ∧ s.received = m.received ∧
      ∀ flags, FitsInt flags → ∀ l queue, m.queue = l :: queue →
        ∃ s' objs, exchange.step s (.recv flags) = some s' ∧
          s'.received = s.received ++ [objs] ∧ objs.map s'.msgs.toStr = l.map .ok := by
  intro m
  have h := carries_of_run hops hr
  refine ⟨fun o => h.shows.toStr, h.received, fun flags hflags l queue hqueue => ?_⟩
  exact h.received_recv hflags hqueue

/-- A message is sent with a copy of it, and the two arrive as they were. -/
theorem recv_returns_sent_copy :
    let ops : List ExchangeOp := [.msg .allocate, .msg (.init 0 (.string [1, 2]) true),
      .msg .allocate, .msg (.initCopy 1 0 true), .send 0 SNDMORE true, .send 1 0 true]
    ∃ s s' objs, exchange.run {} ops = some s ∧ exchange.step s (.recv 0) = some s' ∧
      s'.received = [objs] ∧ objs.map s'.msgs.toStr = [.ok [1, 2], .ok [1, 2]] := by
  intro ops
  have hops : exchange.Along Fills {} ops := by
    simp [ops, Machine.Along, Machine.Throughout, Fills, Msgs.Fills]
  obtain ⟨s, hs⟩ := Option.isSome_iff_exists.1 (rfl : (exchange.run {} ops).isSome = true)
  obtain ⟨-, hreceived, hrecv⟩ := recv_returns_sent hops hs
  obtain ⟨s', objs, hstep, hreceived', hobjs⟩ := hrecv 0 fitsInt_zero [[1, 2], [1, 2]] [] rfl
  exact ⟨s, s', objs, hs, hstep, by rw [hreceived', hreceived]; rfl, hobjs⟩

end MrubyZmq
