import MrubyZmq.Machine
import MrubyZmq.Socket

/-!
# Conversations

A sender and a receiver, joined by a link which moves the frames the sender
has flushed, in order, to the receiver's inbox: nothing is added or stripped.
The two take turns in any order, the sender calling `Socket#send` with strings
and arrays of strings, the receiver `Socket#recv`.

What the sender means is said without frames: the sends up to and including
the next one without `SNDMORE` make one message (`messagesOf`). The receiver
gets exactly these messages, one by each `recv` (`recv_undoes_send`).
-/

namespace MrubyZmq

/-- A string, or an array of strings. -/
inductive Payload
  | string (s : Bytes)
  | array (l : List Bytes)

namespace Payload

def toData : Payload → Data
  | string s => .other (.str s)
  | array l => .array (l.map .str)

/-- What it contributes to a message. -/
def contents : Payload → List Bytes
  | string s => [s]
  | array [] => [[]]
  | array (a :: l) => a :: l

theorem contents_ne_nil (p : Payload) : p.contents ≠ [] := by
  rcases p with s | _ | ⟨a, l⟩ <;> exact List.cons_ne_nil _ _

end Payload

theorem Payload.contents_toData (p : Payload) : p.toData.contents = p.contents.map .ok := by
  rcases p with s | _ | ⟨a, l⟩
  · rfl
  · rfl
  · simp [toData, Data.contents, contents, Value.str]

/-- A send of strings which returns has written the frames of its contents. -/
theorem socketSend_of_ok {data : Payload} {flags : ℤ} {s s' : Sock}
    (h : socketSend data.toData flags s = (.ok (), s')) :
    s'.out = (sendFrames data.contents flags).foldl Pipe.write s.out ∧ s'.inbox = s.inbox := by
  obtain ⟨l, hl, hout, hin⟩ := socketSend_contents h
  rw [data.contents_toData] at hl
  rw [(List.map_inj_right fun _ _ => Except.ok.inj).1 hl]
  exact ⟨hout, hin⟩

/-! ## Messages -/

/-- The messages of a sequence of sends, given what was sent before of the
    unfinished message. -/
def messagesOf : List Bytes → List (Payload × ℤ) → List (List Bytes)
  | _, [] => []
  | opened, (data, flags) :: l =>
    if sndmore flags then messagesOf (opened ++ data.contents) l
    else (opened ++ data.contents) :: messagesOf [] l

/-- What a sequence of sends leaves of an unfinished message. -/
def openedBy : List Bytes → List (Payload × ℤ) → List Bytes
  | opened, [] => opened
  | opened, (data, flags) :: l =>
    if sndmore flags then openedBy (opened ++ data.contents) l else openedBy [] l

/-! ## The two sides -/

/-- The two sockets, and what `recv` has returned so far. -/
structure Conversation where
  sender : Sock := {}
  receiver : Sock := {}
  received : List Received := []

/-- A turn in a conversation. -/
inductive Turn
  | send (data : Payload) (flags : ℤ)
  | recv (flags : ℤ)

/-- The link moves the frames flushed by the sender to the receiver. -/
def Conversation.deliver (s : Conversation) : Conversation :=
  { s with
    sender.out.flushed := []
    receiver.inbox := s.receiver.inbox ++ s.sender.out.flushed }

/-- The turns; a conversation consists of the sends that succeed. -/
def conversation : Machine Conversation Turn where
  step s
    | .send data flags =>
      match socketSend data.toData flags s.sender with
      | (.ok _, sender) => some { s with sender }.deliver
      | (.error _, _) => none
    | .recv flags =>
      match socketRecv flags s.receiver with
      | (.ok r, receiver) => some { s with receiver, received := s.received ++ [r] }
      | (.error _, receiver) => some { s with receiver }

/-- The calls of `send` among the turns. -/
def sends : List Turn → List (Payload × ℤ) := List.filterMap fun
  | .send data flags => some (data, flags)
  | .recv _ => none

/-- What is under way: of an unfinished message, and of messages not received. -/
structure Conversation.UnderWay (s : Conversation) (opened : List Bytes)
    (queued : List (List Bytes)) : Prop where
  out : s.sender.out = { pending := openFrames opened }
  inbox : s.receiver.inbox = queued.flatMap frames
  ne_nil : ∀ m ∈ queued, m ≠ []

namespace Conversation.UnderWay

variable {s s' : Conversation} {opened : List Bytes} {queued : List (List Bytes)} {data : Payload}
  {flags : ℤ}

/-- A send with `SNDMORE` adds to the unfinished message. -/
theorem send_more (h : s.UnderWay opened queued) (hf : sndmore flags = true)
    (hs : conversation.step s (.send data flags) = some s') :
    s'.UnderWay (opened ++ data.contents) queued ∧ s'.received = s.received := by
  simp only [conversation] at hs
  split at hs
  · rename_i sender hsend
    obtain rfl := Option.some.inj hs
    obtain ⟨hout, -⟩ := socketSend_of_ok hsend
    rw [sendFrames, if_pos hf, Pipe.foldl_write_openFrames, h.out] at hout
    refine ⟨⟨?_, ?_, h.ne_nil⟩, rfl⟩
    · simp [deliver, hout, openFrames]
    · simp [deliver, hout, h.inbox]
  · simp at hs

/-- A send without `SNDMORE` finishes the message. -/
theorem send_last (h : s.UnderWay opened queued) (hf : sndmore flags = false)
    (hs : conversation.step s (.send data flags) = some s') :
    s'.UnderWay [] (queued ++ [opened ++ data.contents]) ∧ s'.received = s.received := by
  simp only [conversation] at hs
  split at hs
  · rename_i sender hsend
    obtain rfl := Option.some.inj hs
    obtain ⟨hout, -⟩ := socketSend_of_ok hsend
    rw [sendFrames, hf, if_neg Bool.false_ne_true, Pipe.foldl_write_frames _ data.contents_ne_nil,
      h.out] at hout
    refine ⟨⟨?_, ?_, ?_⟩, rfl⟩
    · simp [deliver, hout, openFrames]
    · simp [deliver, hout, h.inbox, frames_append _ data.contents_ne_nil]
    · simpa [or_imp, forall_and, data.contents_ne_nil] using h.ne_nil
  · simp at hs

/-- What `recv` returns is the first message under way. -/
theorem recv_eq (h : s.UnderWay opened queued) (hf : FitsInt flags) :
    socketRecv flags s.receiver =
      (match queued.head? with
        | some m => .ok (.ofMessage m)
        | none => .error (.libzmq "zmq_msg_recv"),
      { s.receiver with inbox := queued.tail.flatMap frames }) := by
  rw [socketRecv, assertInt_of_fits hf, Effect.bind_ok Effect.pure_apply]
  cases queued with
  | nil =>
    rw [recvMsgs, h.inbox]
    rfl
  | cons m l =>
    rw [recvMsgs, h.inbox, List.flatMap_cons, recvLoop_frames (h.ne_nil m List.mem_cons_self)]
    rfl

/-- A call of `recv` takes the first message under way, or nothing. -/
theorem recv (h : s.UnderWay opened queued) (hs : conversation.step s (.recv flags) = some s') :
    ∃ k, k ≤ queued.length ∧ s'.UnderWay opened (queued.drop k) ∧
      s'.received = s.received ++ (queued.take k).map .ofMessage := by
  simp only [conversation] at hs
  by_cases hf : FitsInt flags
  · rw [h.recv_eq hf] at hs
    cases queued with
    | nil =>
      obtain rfl := Option.some.inj hs
      exact ⟨0, Nat.zero_le _, ⟨h.out, rfl, h.ne_nil⟩, by simp⟩
    | cons m l =>
      obtain rfl := Option.some.inj hs
      exact ⟨1, by simp, ⟨h.out, rfl, fun k hk => h.ne_nil k (List.mem_cons_of_mem m hk)⟩, by simp⟩
  · rw [socketRecv, assertInt_of_not_fits hf, Effect.bind_error (Effect.raise_apply)] at hs
    obtain rfl := Option.some.inj hs
    exact ⟨0, Nat.zero_le _, h, by simp⟩

/-- Along a conversation, the messages of the sends are received in order, and
    the rest is under way. -/
theorem run {turns : List Turn} (h : s.UnderWay opened queued)
    (hs : conversation.run s turns = some s') :
    ∃ k, s'.UnderWay (openedBy opened (sends turns))
        ((queued ++ messagesOf opened (sends turns)).drop k) ∧
      s'.received = s.received ++
        ((queued ++ messagesOf opened (sends turns)).take k).map .ofMessage := by
  induction turns generalizing s opened queued with
  | nil =>
    obtain rfl := Option.some.inj hs
    exact ⟨0, by simpa [sends, messagesOf, openedBy] using h, by simp⟩
  | cons turn turns ih =>
    obtain ⟨t, hstep, hturns⟩ := Option.bind_eq_some_iff.1 hs
    cases turn with
    | send data flags =>
      have hsends : sends (.send data flags :: turns) = (data, flags) :: sends turns := rfl
      rw [hsends, messagesOf, openedBy]
      cases hf : sndmore flags with
      | true =>
        obtain ⟨ht, hrec⟩ := h.send_more hf hstep
        simpa [hrec] using ih ht hturns
      | false =>
        obtain ⟨ht, hrec⟩ := h.send_last hf hstep
        simpa [hrec] using ih ht hturns
    | recv flags =>
      have hsends : sends (.recv flags :: turns) = sends turns := rfl
      obtain ⟨j, hj, ht, hrec⟩ := h.recv hstep
      obtain ⟨k, hk, hrec'⟩ := ih ht hturns
      -- What is received last comes after the `j` messages received first.
      rw [← List.drop_append_of_le_length hj, List.drop_drop] at hk
      rw [hsends]
      refine ⟨j + k, hk, ?_⟩
      rw [hrec', hrec, List.take_add, List.take_append_of_le_length hj,
        List.drop_append_of_le_length hj, List.map_append, List.append_assoc]

end Conversation.UnderWay

/-- In every conversation `recv` has returned the messages of the sends, in
    order and each as one, up to some message, and `recv` returns the next one
    of them, if there is one. -/
theorem recv_undoes_send {faults : List Bool} {turns : List Turn} {s : Conversation}
    (h : conversation.run { sender.faults := faults } turns = some s) :
    s.received = ((messagesOf [] (sends turns)).map .ofMessage).take s.received.length ∧
    ∀ flags, FitsInt flags → (socketRecv flags s.receiver).1 =
      match ((messagesOf [] (sends turns)).map .ofMessage)[s.received.length]? with
      | some msg => .ok msg
      | none => .error (.libzmq "zmq_msg_recv") := by
  have start : Conversation.UnderWay { sender.faults := faults } [] [] := ⟨rfl, rfl, by simp⟩
  obtain ⟨k, hk, hrec⟩ := start.run h
  rw [List.nil_append] at hk hrec
  have hlen : s.received.length = min k (messagesOf [] (sends turns)).length := by simp [hrec]
  refine ⟨by simp [hrec], fun flags hf => ?_⟩
  rw [hk.recv_eq hf, List.head?_drop, List.getElem?_map, hlen]
  rcases Nat.lt_or_ge k (messagesOf [] (sends turns)).length with hlt | hge
  · rw [Nat.min_eq_left hlt.le, List.getElem?_eq_getElem hlt]
    rfl
  · rw [Nat.min_eq_right hge, List.getElem?_eq_none hge, List.getElem?_eq_none le_rfl]
    rfl

/-- An empty array is received as an empty message, and an array following on
    a string with the string as one message. -/
theorem recv_undoes_send_array :
    let turns : List Turn := [.send (.array []) 0, .recv 0, .send (.string [1]) SNDMORE, .recv 0,
      .send (.array [[2], []]) 0]
    let s : Conversation := { receiver.inbox := frames [[1], [2], []], received := [.msg []] }
    conversation.run {} turns = some s ∧ s.received = [.msg []] ∧
      (socketRecv 0 s.receiver).1 = .ok (.array [[1], [2], []]) := by
  intro turns s
  obtain ⟨hreceived, hnext⟩ := @recv_undoes_send [] turns s rfl
  exact ⟨rfl, hreceived, hnext 0 (by decide)⟩

end MrubyZmq
