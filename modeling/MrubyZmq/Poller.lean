import Mathlib.Logic.Function.Basic
import MrubyZmq.Context

/-!
# Pollers

A `ZMQ::Poller` keeps two registries: the poller of libzmq, whose items are
keyed by a socket or a file descriptor and hold the Ruby object added as their
user data, and an array of these objects, which keeps them alive. It is used
together with sockets, which may be closed at any time (see
`MrubyZmq.Context`).

What a Ruby object answers to `fileno`, to `zmq_socket` and to `==` is up to the
program, and may be another answer in the next call.
-/

namespace MrubyZmq

/-- A Ruby object: a `ZMQ::Socket`, a C pointer or anything else. -/
inductive Ref
  | socket (o : ℕ)
  | cptr (n p : ℕ)
  | object (n : ℕ)
  deriving DecidableEq, Repr

/-- What libzmq knows an item of a poller by. -/
inductive Key
  | sock (p : ℕ)
  | fd (n : ℤ)
  deriving DecidableEq, Repr

structure Item where
  key : Key
  userData : Ref
  events : ℤ
  deriving DecidableEq, Repr

/-- A poller of libzmq: no two items have one key. -/
structure ZmqPoller where
  items : List Item := []
  nodup : (items.map (·.key)).Nodup := by simp
  deriving DecidableEq

namespace ZmqPoller

variable (z : ZmqPoller) (key : Key)

/-- The key is one of an item. -/
def Registered : Prop := key ∈ z.items.map (·.key)

instance : Decidable (z.Registered key) := inferInstanceAs (Decidable (_ ∈ _))

/-- `zmq_poller_add` and `zmq_poller_add_fd`. -/
def add (userData : Ref) (events : ℤ) (ok : Bool) : Option ZmqPoller :=
  if h : ¬z.Registered key ∧ ok = true then
    some
      { items := z.items ++ [⟨key, userData, events⟩]
        nodup := by
          rw [List.map_append, List.nodup_append_comm]
          exact List.nodup_cons.2 ⟨h.1, z.nodup⟩ }
  else none

/-- `zmq_poller_modify` and `zmq_poller_modify_fd`. -/
def modify (events : ℤ) (ok : Bool) : Option ZmqPoller :=
  if z.Registered key ∧ ok = true then
    some
      { items := z.items.map fun i => { i with events := if i.key = key then events else i.events }
        nodup := by
          rw [List.map_map]
          exact z.nodup }
  else none

/-- `zmq_poller_remove` and `zmq_poller_remove_fd`. -/
def remove (ok : Bool) : Option ZmqPoller :=
  if z.Registered key ∧ ok = true then
    some
      { items := z.items.filter (·.key ≠ key)
        nodup := z.nodup.sublist (List.filter_sublist.map _) }
  else none

end ZmqPoller

/-- A `ZMQ::Poller`. -/
structure Poller where
  /-- Its data pointer. -/
  zmq : ZmqPoller := {}
  /-- Its instance variable `sockets`. -/
  sockets : List Ref := []
  deriving DecidableEq

/-- An argument `socket`, with what is answered in a call. -/
structure PollArg where
  ref : Ref
  /-- The integer its `fileno` converts to, if it responds to that. -/
  fileno : Option (Except Err ℤ) := none
  /-- What its `zmq_socket` returns, if it responds to that. -/
  zmqSocket : Option (Except Err Ref) := none
  /-- `zmq_getsockopt` succeeds, if it is called on an open socket. -/
  getsockopt : Bool := true
  /-- What another object answers when it is compared with it by `==`. -/
  equal : Ref → Except Err Bool := fun _ => .ok false

/-- libzmq worked on the socket of an item, which was closed or not. -/
structure Work where
  socket : ℕ
  closed : Bool
  deriving DecidableEq, Repr

/-- An interpreter with its pollers. -/
structure Polling where
  interp : Interp
  pollers : ℕ → Poller := fun _ => {}
  work : List Work := []

namespace Interp

variable (s : Interp)

/-- The socket was opened, and has not been closed. -/
def isOpen (p : ℕ) : Bool :=
  s.calls.any (fun a => match a with | .socket _ (some q) => q = p | _ => false) &&
    .close p true ∉ s.calls

/-- `mrb_zmq_get_socket`. -/
def getSocket (arg : PollArg) : Ref → Except Err ℕ
  | .cptr _ p =>
    if s.isOpen p && arg.getsockopt then .ok p else .error (.typeError "Expected a ZMQ Socket")
  | .socket o =>
    match (s.heap.find o).bind (·.data) with
    | some p => .ok p
    | none => .error (.typeError "Expected a ZMQ Socket")
  | .object _ => .error (.typeError "Expected a ZMQ Socket")

/-- What an argument is known to libzmq by. -/
def pollerKey (arg : PollArg) : Except Err Key :=
  match arg.fileno, arg.zmqSocket with
  | some fd, _ => fd.bind fun fd => if FitsInt fd then .ok (.fd fd) else .error .rangeError
  | none, some socket => socket.bind fun socket => (s.getSocket arg socket).map .sock
  | none, none => (s.getSocket arg arg.ref).map .sock

end Interp

/-- `Array#delete`, with the comparison of the elements with its argument: it
    deletes them one after the other, until a comparison raises. -/
def arrayDelete (equal : Ref → Except Err Bool) : List Ref → Except Err Unit × List Ref
  | [] => (.ok (), [])
  | e :: l =>
    match equal e with
    | .ok true => arrayDelete equal l
    | .ok false => ((arrayDelete equal l).1, e :: (arrayDelete equal l).2)
    | .error err => (.error err, e :: l)

namespace PollArg

/-- `mrb_equal` of an object with the argument. -/
def equals (arg : PollArg) (e : Ref) : Except Err Bool :=
  if e = arg.ref then .ok true else arg.equal e

end PollArg

namespace Polling

/-- The interpreter has just been started. -/
def start (env : Env) (opened : Bool) : Polling := { interp := .gemInit env opened }

variable (s : Polling) (n : ℕ)

def set (p : Poller) : Polling := { s with pollers := Function.update s.pollers n p }

/-- libzmq works on sockets. -/
def workOn (keys : List Key) : Polling :=
  { s with work := s.work ++ keys.flatMap fun
      | .sock p => [⟨p, .close p true ∈ s.interp.calls⟩]
      | .fd _ => [] }

variable {s n}

/-- A function of libzmq called on the poller of a `ZMQ::Poller`, with a socket
    or with a file descriptor. -/
def zmqCall (n : ℕ) (key : Key) (func : String) (call : ZmqPoller → Option ZmqPoller) :
    Effect Err Polling Unit := fun s =>
  let s' := s.workOn [key]
  match call (s.pollers n).zmq with
  | some zmq => (.ok (), s'.set n { s.pollers n with zmq })
  | none =>
    (.error (.libzmq (match key with | .sock _ => func | .fd _ => func ++ "_fd")), s')

/-- `ZMQ::Poller#add`: `mrb_zmq_poller_add`, given whether libzmq would succeed
    with a key that is not registered. -/
def pollerAdd (n : ℕ) (socket : PollArg) (events : ℤ) (ok : Bool) : Effect Err Polling Unit := do
  assertShort events
  let s ← Effect.get
  let key ← Effect.ofExcept (s.interp.pollerKey socket)
  zmqCall n key "zmq_poller_add" fun z => z.add key socket.ref events ok
  Effect.modify fun s =>
    s.set n { s.pollers n with sockets := (s.pollers n).sockets ++ [socket.ref] }

/-- `ZMQ::Poller#modify`: `mrb_zmq_poller_modify`. -/
def pollerModify (n : ℕ) (socket : PollArg) (events : ℤ) (ok : Bool) : Effect Err Polling Unit := do
  assertShort events
  let s ← Effect.get
  let key ← Effect.ofExcept (s.interp.pollerKey socket)
  zmqCall n key "zmq_poller_modify" fun z => z.modify key events ok

/-- `ZMQ::Poller#remove`: `mrb_zmq_poller_remove`. -/
def pollerRemove (n : ℕ) (socket : PollArg) (ok : Bool) : Effect Err Polling Unit := do
  let s ← Effect.get
  let key ← Effect.ofExcept (s.interp.pollerKey socket)
  zmqCall n key "zmq_poller_remove" fun z => z.remove key ok
  fun s =>
    let (deleted, sockets) := arrayDelete socket.equals (s.pollers n).sockets
    (deleted, s.set n { s.pollers n with sockets })

/-- `zmq_poller_wait` and `zmq_poller_wait_all`, called by
    `mrb_zmq_poller_wait`. -/
def pollerWait (s : Polling) (n : ℕ) : Polling :=
  s.workOn ((s.pollers n).zmq.items.map (·.key))

/-- The state after a function of libzmq has been called on a poller with a key,
    if there is one, and the array is then `sockets`, if it has succeeded. -/
def afterCall (s : Polling) (n : ℕ) (key : Except Err Key)
    (call : Key → ZmqPoller → Option ZmqPoller) (sockets : List Ref) : Polling :=
  match key with
  | .error _ => s
  | .ok key =>
    match call key (s.pollers n).zmq with
    | some zmq => (s.workOn [key]).set n { zmq, sockets }
    | none => s.workOn [key]

variable {socket : PollArg} {events : ℤ} {ok : Bool} {p q : Poller} {key : Key} {zmq : ZmqPoller}
  {call : Key → ZmqPoller → Option ZmqPoller} {sockets : List Ref} {func : String}

@[simp] theorem set_pollers_self : (s.set n p).pollers n = p := Function.update_self ..

theorem set_pollers_of_ne {m : ℕ} (h : m ≠ n) : (s.set n p).pollers m = s.pollers m :=
  Function.update_of_ne h ..

@[simp] theorem set_set : (s.set n p).set n q = s.set n q := by simp [set]

theorem afterCall_some (h : call key (s.pollers n).zmq = some zmq) :
    s.afterCall n (.ok key) call sockets = (s.workOn [key]).set n { zmq, sockets } := by
  simp [afterCall, h]

theorem afterCall_none (h : call key (s.pollers n).zmq = none) :
    s.afterCall n (.ok key) call sockets = s.workOn [key] := by
  simp [afterCall, h]

theorem zmqCall_some {call : ZmqPoller → Option ZmqPoller}
    (h : call (s.pollers n).zmq = some zmq) :
    zmqCall n key func call s = (.ok (), (s.workOn [key]).set n { s.pollers n with zmq }) := by
  simp [zmqCall, h]

theorem zmqCall_none {call : ZmqPoller → Option ZmqPoller}
    (h : call (s.pollers n).zmq = none) : ∃ err,
    zmqCall n key func call s = (.error err, s.workOn [key]) := by
  simp [zmqCall, h]

/-- The calls of libzmq in the middle of the three functions, with `f` for what
    follows. -/
theorem keyed_snd {f : Effect Err Polling Unit}
    (hf : ∀ key zmq, (f ((s.workOn [key]).set n { s.pollers n with zmq })).2 =
      (s.workOn [key]).set n { zmq, sockets }) :
    ((Effect.ofExcept (s.interp.pollerKey socket) >>= fun key =>
      zmqCall n key func (call key) >>= fun _ => f : Effect Err Polling Unit) s).2 =
        s.afterCall n (s.interp.pollerKey socket) call sockets := by
  rcases s.interp.pollerKey socket with err | key
  · rfl
  rw [Effect.ofExcept_ok, Effect.bind_ok Effect.pure_apply]
  rcases h : call key (s.pollers n).zmq with _ | zmq
  · obtain ⟨err, herr⟩ := @zmqCall_none s n key func (call key) h
    rw [Effect.bind_error herr, afterCall_none h]
  · rw [Effect.bind_ok (zmqCall_some h), afterCall_some h, hf]

theorem pollerAdd_snd : (pollerAdd n socket events ok s).2 =
    if FitsShort events then
      s.afterCall n (s.interp.pollerKey socket) (fun key z => z.add key socket.ref events ok)
        ((s.pollers n).sockets ++ [socket.ref])
    else s := by
  rw [pollerAdd]
  by_cases hevents : FitsShort events
  · rw [if_pos hevents, assertShort_of_fits hevents, Effect.bind_ok Effect.pure_apply,
      Effect.bind_ok Effect.get_apply]
    exact keyed_snd fun key zmq => by simp
  · rw [if_neg hevents, assertShort_of_not_fits hevents,
      Effect.bind_error Effect.raise_apply]

theorem pollerModify_snd : (pollerModify n socket events ok s).2 =
    if FitsShort events then
      s.afterCall n (s.interp.pollerKey socket) (fun key z => z.modify key events ok)
        (s.pollers n).sockets
    else s := by
  rw [pollerModify]
  by_cases hevents : FitsShort events
  · rw [if_pos hevents, assertShort_of_fits hevents, Effect.bind_ok Effect.pure_apply,
      Effect.bind_ok Effect.get_apply]
    have hkeyed := @keyed_snd s n socket (fun key z => z.modify key events ok) _
      "zmq_poller_modify" (pure ()) fun _ _ => rfl
    simpa only [Effect.bind_pure_unit] using hkeyed
  · rw [if_neg hevents, assertShort_of_not_fits hevents,
      Effect.bind_error Effect.raise_apply]

theorem pollerRemove_snd : (pollerRemove n socket ok s).2 =
    s.afterCall n (s.interp.pollerKey socket) (fun key z => z.remove key ok)
      (arrayDelete socket.equals (s.pollers n).sockets).2 := by
  rw [pollerRemove, Effect.bind_ok Effect.get_apply]
  exact keyed_snd fun key zmq => by simp

end Polling

/-- The operations. -/
inductive PollOp
  | allocate
  | init (o : ℕ) (type : ℤ) (opened : Bool)
  | close (o : ℕ) (ok : Bool)
  | closeMark (o : ℕ) (ok : Bool)
  | add (n : ℕ) (socket : PollArg) (events : ℤ) (ok : Bool)
  | modify (n : ℕ) (socket : PollArg) (events : ℤ) (ok : Bool)
  | remove (n : ℕ) (socket : PollArg) (ok : Bool)
  | wait (n : ℕ)

/-- What a program may do with sockets and pollers. -/
def polling : Machine Polling PollOp where
  step s
    | .allocate => some { s with interp := s.interp.allocate }
    | .init o type opened =>
      (s.interp.socketInit o type opened).map fun interp => { s with interp }
    | .close o ok => (s.interp.close o ok).map fun interp => { s with interp }
    | .closeMark o ok => (s.interp.closeMark o ok).map fun interp => { s with interp }
    | .add n socket events ok => some (Polling.pollerAdd n socket events ok s).2
    | .modify n socket events ok => some (Polling.pollerModify n socket events ok s).2
    | .remove n socket ok => some (Polling.pollerRemove n socket ok s).2
    | .wait n => some (s.pollerWait n)

end MrubyZmq
