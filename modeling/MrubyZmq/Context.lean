import MrubyZmq.Heap
import MrubyZmq.Machine
import MrubyZmq.Ruby
import MrubyZmq.Trace

/-!
# The context and the sockets of an interpreter

The state which the bindings keep of a libzmq context and of the sockets in it:
the constants `__CTX__` and `__foreigen_context__` of `LibZMQ`, and the data
pointers of the `ZMQ::Socket` objects. What is done to libzmq is told by the
trace of the calls made to it.

A socket is closed in four ways: by `LibZMQ.close`, by `LibZMQ.close!`, by the
finalizer of its object, and by the walk over all objects before a context is
terminated. The functions taking sockets as typed data arguments fetch the data
pointers first and hand them to libzmq in the end: what runs in between (as
`to_s` of a message does in `LibZMQ.send`) may be any of the operations.
-/

namespace MrubyZmq

/-- The functions which terminate a context. -/
inductive Via
  /-- `mrb_zmq_ctx_shutdown_close_and_term`, called by the host. -/
  | shutdown
  | setContext
  | gemFinal
  deriving DecidableEq, Repr

/-- The calls of libzmq functions, with contexts and sockets by their number. -/
inductive Call
  | ctxGet (c : ℕ)
  | ctxSet (c : ℕ)
  /-- `zmq_socket`, and the socket it returned. -/
  | socket (c : ℕ) (p : Option ℕ)
  /-- A function called on a socket, other than `zmq_close`. -/
  | use (p : ℕ)
  | close (p : ℕ) (ok : Bool)
  | ctxShutdown (c : ℕ)
  | ctxTerm (c : ℕ) (via : Via)
  deriving DecidableEq, Repr

/-- The context has been terminated. -/
def Terminated (calls : List Call) (c : ℕ) : Prop := ∃ via, .ctxTerm c via ∈ calls

instance (calls : List Call) (c : ℕ) : Decidable (Terminated calls c) :=
  decidable_of_iff (.ctxTerm c .shutdown ∈ calls ∨ .ctxTerm c .setContext ∈ calls ∨
    .ctxTerm c .gemFinal ∈ calls) ⟨fun h => h.elim (⟨_, ·⟩) fun h => h.elim (⟨_, ·⟩) (⟨_, ·⟩),
    fun ⟨via, h⟩ => match via, h with
      | .shutdown, h => Or.inl h
      | .setContext, h => Or.inr (Or.inl h)
      | .gemFinal, h => Or.inr (Or.inr h)⟩

/-- What an interpreter is run with. -/
structure Env where
  /-- The context created by `mrb_mruby_zmq_gem_init`. -/
  own : ℕ := 0
  /-- How many of the context options are set by environment variables. -/
  options : ℕ := 0
  /-- The pointers to live contexts of the host. -/
  host : ℕ → Bool := fun _ => false
  /-- `ZMQ_LOGGER_ENDPOINT` is set. -/
  endpoint : Bool := false

structure Interp where
  /-- `LibZMQ::__CTX__`. -/
  ctx : ℕ
  /-- `LibZMQ::__foreigen_context__`. -/
  foreigen : Bool := false
  /-- The `ZMQ::Socket` objects. -/
  heap : Heap ℕ := {}
  nextSocket : ℕ := 0
  /-- The functions under way, with the objects and data pointers they have fetched. -/
  underWay : List (List (ℕ × ℕ)) := []
  calls : List Call := []

namespace Interp

variable (env : Env) (s : Interp)

/-- A call of libzmq functions. -/
def call (l : List Call) : Interp := { s with calls := s.calls ++ l }

/-- `zmq_socket` on the registered context, and what follows on it in
    `mrb_zmq_socket`. -/
def openSocket (o : ℕ) (opened : Bool) : Interp :=
  if opened then
    { s.call [.socket s.ctx (some s.nextSocket)] with
      heap := s.heap.dataInit o (some s.nextSocket)
      nextSocket := s.nextSocket + 1 }
  else s.call [.socket s.ctx none]

/-- `ZMQ::Socket#initialize`: `mrb_zmq_socket`, given whether `zmq_socket`
    returns a socket. -/
def socketInit (o : ℕ) (type : ℤ) (opened : Bool) : Option Interp :=
  (s.heap.find o).map fun obj =>
    if obj.data.isSome then s
    else if FitsInt type then s.openSocket o opened
    else s

/-- `zmq_close`, and what follows on it in `mrb_zmq_close`. -/
def closeData (o p : ℕ) (ok : Bool) : Interp :=
  if ok then { s.call [.close p true] with heap := s.heap.dataInit o none }
  else s.call [.close p false]

/-- `LibZMQ.close`: `mrb_zmq_close`. -/
def close (o : ℕ) (ok : Bool) : Option Interp :=
  (s.heap.find o).map fun obj =>
    match obj.data with
    | some p => s.closeData o p ok
    | none => s

/-- `LibZMQ.close!`: `mrb_zmq_close_mark`. -/
def closeMark (o : ℕ) (ok : Bool) : Option Interp :=
  (s.heap.find o).map fun obj =>
    match obj.data with
    | some p => (s.call [.use p]).closeData o p ok
    | none => s

/-- Setting `ZMQ_LINGER`, and `zmq_close`. -/
def lingerClose (ok : ℕ → Bool) (p : ℕ) : List Call := [.use p, .close p (ok p)]

/-- The objects are not the arguments of a function under way. -/
def Unreachable (dead : List ℕ) : Prop := ∀ o ∈ dead, ∀ args ∈ s.underWay, o ∉ args.map (·.1)

instance (dead : List ℕ) : Decidable (s.Unreachable dead) :=
  inferInstanceAs (Decidable (∀ o ∈ dead, ∀ args ∈ s.underWay, o ∉ args.map (·.1)))

/-- A garbage collection sweeping the objects `dead`: `mrb_zmq_gc_close`. -/
def collect (dead : List ℕ) (ok : ℕ → Bool) : Interp :=
  { s.call ((s.heap.ptrsOf dead).flatMap (lingerClose ok)) with heap := s.heap.sweep dead }

/-- The walk over all objects with `mrb_zmq_zmq_close_gem_final`. -/
def closeAll (ok : ℕ → Bool) : Interp :=
  { s.call (s.heap.ptrs.flatMap (lingerClose ok)) with heap := s.heap.clear }

/-- `mrb_zmq_ctx_shutdown_close_and_term`; the walk first runs a full
    collection. -/
def ctxShutdownCloseAndTerm (via : Via) (dead : List ℕ) (ok : ℕ → Bool) : Interp :=
  (((s.call [.ctxShutdown s.ctx]).collect dead ok).closeAll ok).call [.ctxTerm s.ctx via]

/-- The same, if the context is not a foreign one. -/
def closeUnlessForeigen (via : Via) (dead : List ℕ) (ok : ℕ → Bool) : Interp :=
  if s.foreigen then s else s.ctxShutdownCloseAndTerm via dead ok

/-- A new object. -/
def allocate : Interp := { s with heap := s.heap.allocate }

/-- `ZMQ::Logger.new`, which connects a new `ZMQ::Pub` to an endpoint. -/
def newLogger (opened : Bool) : Interp :=
  if env.endpoint then
    let s' := s.allocate.openSocket s.heap.next opened
    if opened then s'.call [.use s.nextSocket] else s'
  else s

/-- `mrb_mruby_zmq_gem_init`, and loading `mrblib`. -/
def gemInit (opened : Bool) : Interp :=
  newLogger env { ctx := env.own, calls := List.replicate env.options (.ctxSet env.own) } opened

/-- `zmq_ctx_get` succeeds on the pointer. -/
def Live (c : ℕ) : Prop := (c = env.own ∨ env.host c = true) ∧ ¬Terminated s.calls c

instance (c : ℕ) : Decidable (s.Live env c) := inferInstanceAs (Decidable (_ ∧ _))

/-- `mrb_zmq_set_context`. -/
def setContext (c : ℕ) (dead : List ℕ) (ok : ℕ → Bool) (opened : Bool) : Interp :=
  if s.Live env c then
    let s' := (s.call [.ctxGet c]).closeUnlessForeigen .setContext dead ok
    newLogger env { s' with ctx := c, foreigen := true } opened
  else s.call [.ctxGet c]

/-- `mrb_mruby_zmq_gem_final`. -/
def gemFinal (dead : List ℕ) (ok : ℕ → Bool) : Interp :=
  s.closeUnlessForeigen .gemFinal dead ok

/-- The data pointers of typed data arguments, all of which must be sockets. -/
def dataPtrs (os : List ℕ) : Option (List (ℕ × ℕ)) :=
  os.mapM fun o => do
    let obj ← s.heap.find o
    let p ← obj.data
    return (o, p)

/-- A function fetches the data pointers of its arguments, or raises. -/
def fetch (os : List ℕ) : Interp :=
  match s.dataPtrs os with
  | some args => { s with underWay := args :: s.underWay }
  | none => s

/-- The function fetched for last hands libzmq what it has fetched, or raises
    before it does. -/
def finish (raises : Bool) : Option Interp :=
  match s.underWay with
  | [] => none
  | args :: underWay =>
    some (if raises then { s with underWay }
      else { s.call (args.map fun a => .use a.2) with underWay })

end Interp

/-- The operations. -/
inductive Op
  | allocate
  | dup (o : ℕ)
  | init (o : ℕ) (type : ℤ) (opened : Bool)
  | close (o : ℕ) (ok : Bool)
  | closeMark (o : ℕ) (ok : Bool)
  | collect (dead : List ℕ) (ok : ℕ → Bool)
  | fetch (os : List ℕ)
  | finish (raises : Bool)
  | ctxGet
  | ctxSet
  | shutdown (dead : List ℕ) (ok : ℕ → Bool)
  | setContext (c : ℕ) (dead : List ℕ) (ok : ℕ → Bool) (opened : Bool)

/-- What the host and the program may do between `mrb_mruby_zmq_gem_init` and
    `mrb_mruby_zmq_gem_final`. -/
def interp (env : Env) : Machine Interp Op where
  step s
    | .allocate => some s.allocate
    | .dup o => (s.heap.find o).map fun _ => s.allocate
    | .init o type opened => s.socketInit o type opened
    | .close o ok => s.close o ok
    | .closeMark o ok => s.closeMark o ok
    | .collect dead ok => if s.Unreachable dead then some (s.collect dead ok) else none
    | .fetch os => some (s.fetch os)
    | .finish raises => s.finish raises
    | .ctxGet => some (s.call [.ctxGet s.ctx])
    | .ctxSet => some (s.call [.ctxSet s.ctx])
    | .shutdown dead ok =>
      if s.Unreachable dead then some (s.ctxShutdownCloseAndTerm .shutdown dead ok) else none
    | .setContext c dead ok opened =>
      if s.Unreachable dead then some (s.setContext env c dead ok opened) else none

end MrubyZmq
