import MrubyZmq.Heap
import MrubyZmq.Machine
import MrubyZmq.Ruby

/-!
# Messages

The data pointer of a `ZMQ::Msg` is a `zmq_msg_t` which the constructor and the
copy constructor allocate, and the finalizer closes and frees. Its memory comes
from `mrb_realloc`: what it holds is unspecified (`Cell.uninit`) if it is new,
and what it held before if it is not.

A payload is known by a number, in the order in which they are acquired. What is
done to messages is told by the calls of libzmq functions, with what the
messages they were applied to hold.
-/

namespace MrubyZmq

/-- What a `zmq_msg_t` holds. -/
inductive Cell
  /-- Memory which has not been initialised. -/
  | uninit
  /-- As after `zmq_msg_init`. -/
  | empty
  | payload (t : ℕ) (bytes : Bytes)
  deriving DecidableEq, Repr

namespace Cell

/-- The payload. -/
def token : Cell → Option ℕ
  | .payload t _ => some t
  | _ => none

/-- What `zmq_msg_data` and `zmq_msg_size` return. (Nothing is known of memory
    which has not been initialised.) -/
def bytes : Cell → Bytes
  | .payload _ bytes => bytes
  | _ => []

end Cell

/-- The libzmq functions applied to initialised messages. -/
inductive MsgFn
  | close
  | data
  | size
  | copy
  | send
  | recv
  | more
  deriving DecidableEq, Repr

/-- A call, and what the messages it is applied to hold. -/
structure MsgCall where
  fn : MsgFn
  msgs : List Cell
  deriving DecidableEq, Repr

/-- The argument of `ZMQ::Msg#initialize`. -/
inductive MsgArg
  | string (bytes : Bytes)
  /-- `nil`, also if there is no argument, or `false`. -/
  | falsy
  | other
  deriving DecidableEq, Repr

/-- The messages of an interpreter. -/
structure Msgs where
  /-- The `ZMQ::Msg` objects. -/
  heap : Heap Cell := {}
  /-- How many payloads have been acquired. -/
  acquired : ℕ := 0
  /-- The payloads which have been closed, or moved out in a send. -/
  released : List ℕ := []
  calls : List MsgCall := []
  deriving DecidableEq

namespace Msgs

variable (s : Msgs)

/-- The payloads the messages hold. -/
def held : List ℕ := s.heap.ptrs.filterMap Cell.token

def call (fn : MsgFn) (msgs : List Cell) : Msgs := { s with calls := s.calls ++ [⟨fn, msgs⟩] }

/-- Changing what the message of an object holds, or `mrb_data_init`. -/
def write (o : ℕ) (c : Cell) : Msgs := { s with heap := s.heap.dataInit o (some c) }

/-- The message of an object gets a payload. -/
def acquire (o : ℕ) (bytes : Bytes) : Msgs :=
  { s with heap := s.heap.dataInit o (some (.payload s.acquired bytes))
           acquired := s.acquired + 1 }

/-- Allocating the object. -/
def allocate : Msgs := { s with heap := s.heap.allocate }

/-- `ZMQ::Msg#initialize`: `mrb_zmq_msg_new`, given whether `zmq_msg_init_size`
    succeeds. -/
def msgNew (o : ℕ) (data : MsgArg) (ok : Bool) : Option Msgs :=
  (s.heap.find o).map fun obj =>
    let s := s.write o (obj.data.getD .uninit)
    match data with
    | .string bytes =>
      if ok then (s.acquire o bytes).call .data [.payload s.acquired bytes]
      else s.write o .uninit
    | .falsy => s.write o .empty
    | .other => s

/-- `zmq_msg_copy` to the message of an object, which is empty. -/
def zmqMsgCopy (copy : ℕ) (src : Cell) (ok : Bool) : Msgs :=
  let s := s.call .copy [.empty, src]
  match src with
  | .payload _ bytes => if ok then s.acquire copy bytes else s
  | _ => s

/-- `ZMQ::Msg#initialize_copy`: `mrb_zmq_msg_copy`, given whether `zmq_msg_copy`
    succeeds. -/
def msgCopy (copy src : ℕ) (ok : Bool) : Option Msgs := do
  let srcObj ← s.heap.find src
  let _ ← s.heap.find copy
  match srcObj.data with
  | none => s
  | some msgSrc => if src = copy then s else (s.write copy .empty).zmqMsgCopy copy msgSrc ok

/-- The payload of the message is moved out. -/
def moveOut (o : ℕ) (msg : Cell) : Msgs :=
  { s.write o .empty with released := s.released ++ msg.token.toList }

/-- `LibZMQ.msg_send`: `mrb_zmq_msg_send`, given whether `zmq_msg_send`
    succeeds. -/
def msgSend (o : ℕ) (flags : ℤ) (ok : Bool) : Option Msgs :=
  (s.heap.find o).map fun obj =>
    match obj.data with
    | none => s
    | some msg =>
      if FitsInt flags then
        if ok then (s.call .send [msg]).moveOut o msg else s.call .send [msg]
      else s

/-- Receiving into the new message of an object. -/
def zmqMsgRecv (o : ℕ) (frame : Option Bytes) : Msgs :=
  let s := s.call .recv [.empty]
  match frame with
  | some bytes => (s.acquire o bytes).call .more [.payload s.acquired bytes]
  | none => s

/-- One pass of the loop of `mrb_zmq_socket_recv`, given the frame that
    `zmq_msg_recv` receives, if it succeeds. -/
def recvPass (frame : Option Bytes) : Option Msgs :=
  (s.allocate.msgNew s.heap.next .falsy true).map fun s' => s'.zmqMsgRecv s.heap.next frame

/-- `ZMQ::Msg#to_str`: `mrb_zmq_msg_to_str`. -/
def msgToStr (o : ℕ) : Option Msgs :=
  (s.heap.find o).map fun obj =>
    match obj.data with
    | none => s
    | some msg => (s.call .data [msg]).call .size [msg]

/-- The comparison of two messages, as `mrb_zmq_msg_eql` makes it. -/
def compare (msg other : Cell) : Msgs :=
  let s := (s.call .size [msg]).call .size [other]
  if msg.bytes.length = other.bytes.length then
    ((s.call .data [msg]).call .data [other]).call .size [msg]
  else s

/-- `ZMQ::Msg#==`: `mrb_zmq_msg_eql`. -/
def msgEql (o other : ℕ) : Option Msgs := do
  let obj ← s.heap.find o
  let otherObj ← s.heap.find other
  match otherObj.data, obj.data with
  | some otherMsg, some msg => if o = other then s else s.compare msg otherMsg
  | _, _ => s

/-- A garbage collection sweeping the objects `dead`: `mrb_zmq_gc_msg_close`. -/
def collect (dead : List ℕ) : Msgs where
  heap := s.heap.sweep dead
  acquired := s.acquired
  released := s.released ++ (s.heap.ptrsOf dead).filterMap Cell.token
  calls := s.calls ++ (s.heap.ptrsOf dead).map fun msg => ⟨.close, [msg]⟩

end Msgs

/-- The operations. -/
inductive MsgOp
  /-- A new object, before `initialize` or `initialize_copy`. -/
  | allocate
  | init (o : ℕ) (data : MsgArg) (ok : Bool)
  | initCopy (copy src : ℕ) (ok : Bool)
  | send (o : ℕ) (flags : ℤ) (ok : Bool)
  | recv (frame : Option Bytes)
  | toStr (o : ℕ)
  | eql (o other : ℕ)
  | collect (dead : List ℕ)
  deriving DecidableEq, Repr

/-- What a program may do with messages. -/
def messages : Machine Msgs MsgOp where
  step s
    | .allocate => some s.allocate
    | .init o data ok => s.msgNew o data ok
    | .initCopy copy src ok => s.msgCopy copy src ok
    | .send o flags ok => s.msgSend o flags ok
    | .recv frame => s.recvPass frame
    | .toStr o => s.msgToStr o
    | .eql o other => s.msgEql o other
    | .collect dead => some (s.collect dead)

end MrubyZmq
