import Mathlib.Logic.Function.Basic
import MrubyZmq.Ruby

/-!
# Timers

A timer is held in four places: the table of libzmq, the hash `timers` of its
collection (a `ZMQ::Timers`), the data pointer of its `ZMQ::Timers::Timer`
object, and the C argument which libzmq hands to `mrb_zmq_timer_fn`. Each
function changes some of them, one after the other.

libzmq is a parameter here: its state `τ` and, for each call, what the function
called does to it, if it succeeds. Objects and C arguments are known by a
number, which is never given out again.

A `Timer` is left behind by an `add` for which `zmq_timers_add` has failed: its
id has not been set, and is whatever the memory contained.
-/

namespace MrubyZmq

/-- A collection, and the id of a timer in it. -/
abbrev TimerKey := ℕ × ℕ

/-- `mrb_zmq_timers_fn_t`. -/
structure TimerArg where
  timers : ℕ
  block : ℕ
  /-- Not set before `zmq_timers_add` has returned: what the memory contains,
      which may be no id at all. -/
  timerId : Option ℕ := none
  deriving DecidableEq, Repr

/-- A `ZMQ::Timers::Timer`: its data pointer, and its instance variable
    `block`. -/
structure TimerObj where
  data : Option ℕ := none
  block : Option ℕ := none
  deriving DecidableEq, Repr

/-- The timer the argument is of. -/
def TimerArg.key (arg : TimerArg) : Option TimerKey := arg.timerId.map fun id => (arg.timers, id)

/-- The timers of an interpreter. -/
structure Timing (τ : Type) where
  zmq : τ
  /-- The number of the next object and of its C argument. -/
  next : ℕ := 0
  objs : ℕ → TimerObj := fun _ => {}
  /-- The C arguments which have not been freed. -/
  args : ℕ → Option TimerArg := fun _ => none
  /-- The hashes `timers`. -/
  hash : TimerKey → Option ℕ := fun _ => none
  /-- What `add` has returned, and for which timer. -/
  returned : List (ℕ × TimerKey) := []
  /-- What `mrb_zmq_timer_fn` has found its argument to be. -/
  entered : List (Option TimerArg) := []

namespace Timing

variable {τ α : Type}

/-- A call of libzmq. -/
def zmqCall (func : String) (call : τ → Option (α × τ)) : Effect Err (Timing τ) α := fun s =>
  match call s.zmq with
  | some (a, zmq) => (.ok a, { s with zmq })
  | none => (.error (.libzmq func), s)

/-- A new object with its C argument, given what the memory of this contained. -/
def newTimer (s : Timing τ) (timers block : ℕ) (memory : Option ℕ) : Timing τ :=
  { s with
    next := s.next + 1
    objs := Function.update s.objs s.next { data := some s.next, block := some block }
    args := Function.update s.args s.next (some { timers, block, timerId := memory }) }

/-- The id is set in the C argument, and the object is put into the hash. -/
def register (s : Timing τ) (timers timer id : ℕ) : Timing τ :=
  { s with
    args := Function.update s.args timer
      ((s.args timer).map fun arg => { arg with timerId := some id })
    hash := Function.update s.hash (timers, id) (some timer)
    returned := s.returned ++ [(timer, (timers, id))] }

/-- `ZMQ::Timers#add`: `mrb_zmq_timers_add`. -/
def timersAdd (timers : ℕ) (interval : ℤ) (block memory : Option ℕ)
    (zmqTimersAdd : (arg : ℕ) → τ → Option (ℕ × τ)) : Effect Err (Timing τ) ℕ := do
  assertSize interval
  match block with
  | none => Effect.raise (.argumentError "no block given")
  | some block =>
    let s ← Effect.get
    let timer := s.next
    Effect.modify fun s => s.newTimer timers block memory
    let id ← zmqCall "zmq_timers_add" (zmqTimersAdd timer)
    Effect.modify fun s => s.register timers timer id
    return timer

/-- The C argument of a `Timer`, by `mrb_data_get_ptr`. -/
def timerArg (self : ℕ) : Effect Err (Timing τ) TimerArg := fun s =>
  match (s.objs self).data.bind s.args with
  | some arg => (.ok arg, s)
  | none => (.error (.typeError "uninitialized Timer"), s)

/-- A call of libzmq with the id in a C argument. -/
def keyCall (func : String) (arg : TimerArg) (call : TimerKey → τ → Option τ) :
    Effect Err (Timing τ) Unit :=
  zmqCall func fun zmq => (arg.key.bind fun key => call key zmq).map fun zmq => ((), zmq)

/-- `Timer#interval=`: `mrb_zmq_timers_fn_set_interval`. -/
def timerSetInterval (self : ℕ) (interval : ℤ)
    (zmqTimersSetInterval : TimerKey → τ → Option τ) : Effect Err (Timing τ) Unit := do
  assertSize interval
  let arg ← timerArg self
  keyCall "zmq_timers_set_interval" arg zmqTimersSetInterval

/-- `Timer#reset`: `mrb_zmq_timers_fn_reset`. -/
def timerReset (self : ℕ) (zmqTimersReset : TimerKey → τ → Option τ) :
    Effect Err (Timing τ) Unit := do
  let arg ← timerArg self
  keyCall "zmq_timers_reset" arg zmqTimersReset

/-- The timer is deleted from the hash, its C argument is freed, and the object
    has no block and no data pointer any longer. -/
def forget (s : Timing τ) (self p : ℕ) (key : Option TimerKey) : Timing τ :=
  { s with
    hash := fun k => if key = some k then none else s.hash k
    args := Function.update s.args p none
    objs := Function.update s.objs self {} }

/-- `Timer#cancel`: `mrb_zmq_timers_fn_cancel`. -/
def timerCancel (self : ℕ) (zmqTimersCancel : TimerKey → τ → Option τ) :
    Effect Err (Timing τ) Unit := do
  let s ← Effect.get
  match (s.objs self).data with
  | none => return
  | some p =>
    let arg ← timerArg self
    keyCall "zmq_timers_cancel" arg zmqTimersCancel
    Effect.modify fun s => s.forget self p arg.key

/-- Entering `mrb_zmq_timer_fn`. -/
def timerFn (s : Timing τ) (arg : ℕ) : Timing τ := { s with entered := s.entered ++ [s.args arg] }

/-- The same timers, on another state of libzmq. -/
def withZmq {τ' : Type} (s : Timing τ) (zmq : τ') : Timing τ' where
  zmq
  next := s.next
  objs := s.objs
  args := s.args
  hash := s.hash
  returned := s.returned
  entered := s.entered

/-! ## What the functions do -/

variable {s : Timing τ} {timers self b o p q id : ℕ} {interval : ℤ} {block memory : Option ℕ}
  {arg : TimerArg} {k k' : TimerKey} {key : Option TimerKey} {call : TimerKey → τ → Option τ}

theorem newTimer_objs_next :
    (s.newTimer timers b memory).objs s.next = { data := some s.next, block := some b } :=
  Function.update_self ..

theorem newTimer_args_next : (s.newTimer timers b memory).args s.next =
    some { timers, block := b, timerId := memory } :=
  Function.update_self ..

theorem newTimer_objs (h : o ≠ s.next) : (s.newTimer timers b memory).objs o = s.objs o :=
  Function.update_of_ne h ..

theorem newTimer_args (h : o ≠ s.next) : (s.newTimer timers b memory).args o = s.args o :=
  Function.update_of_ne h ..

theorem register_args_self : (s.register timers o id).args o =
    (s.args o).map fun arg => { arg with timerId := some id } :=
  Function.update_self ..

theorem register_args (h : p ≠ o) : (s.register timers o id).args p = s.args p :=
  Function.update_of_ne h ..

theorem register_hash_self : (s.register timers o id).hash (timers, id) = some o :=
  Function.update_self ..

theorem register_hash (h : k ≠ (timers, id)) : (s.register timers o id).hash k = s.hash k :=
  Function.update_of_ne h ..

theorem forget_hash_self : (s.forget o p (some k)).hash k = none := if_pos rfl

theorem forget_hash (h : k' ≠ k) : (s.forget o p (some k)).hash k' = s.hash k' :=
  if_neg fun heq => h (Option.some.inj heq).symm

theorem forget_args_self : (s.forget o p key).args p = none := Function.update_self ..

theorem forget_args (h : q ≠ p) : (s.forget o p key).args q = s.args q :=
  Function.update_of_ne h ..

theorem forget_objs_self : (s.forget o p key).objs o = {} := Function.update_self ..

theorem forget_objs (h : q ≠ o) : (s.forget o p key).objs q = s.objs q :=
  Function.update_of_ne h ..

/-- The state after `zmq_timers_add` has returned for a new object. -/
def added (s : Timing τ) (timers block : ℕ) (memory : Option ℕ) : Option (ℕ × τ) → Timing τ
  | some (id, zmq) => register { s.newTimer timers block memory with zmq } timers s.next id
  | none => s.newTimer timers block memory

/-- What the memory contained is written over by the id. -/
theorem added_some {zmq : τ} :
    s.added timers b memory (some (id, zmq)) = s.added timers b none (some (id, zmq)) := by
  simp [added, register, newTimer]

theorem timersAdd_snd {zmqTimersAdd : (arg : ℕ) → τ → Option (ℕ × τ)}
    (hinterval : FitsSize interval) :
    (timersAdd timers interval (some b) memory zmqTimersAdd s).2 =
      s.added timers b memory (zmqTimersAdd s.next s.zmq) := by
  simp only [timersAdd, assertSize_of_fits hinterval]
  rw [Effect.bind_ok Effect.pure_apply]
  rcases h : zmqTimersAdd s.next s.zmq with _ | ⟨id, zmq⟩ <;>
    simp [Effect.bind_apply, newTimer, zmqCall, h, added]

/-- Nothing happens without a block, or with an interval which is not a
    `size_t`. -/
theorem timersAdd_raise {zmqTimersAdd : (arg : ℕ) → τ → Option (ℕ × τ)}
    (h : ¬FitsSize interval ∨ block = none) :
    (timersAdd timers interval block memory zmqTimersAdd s).2 = s := by
  by_cases hinterval : FitsSize interval
  · rw [h.resolve_left (not_not.2 hinterval)]
    simp only [timersAdd, assertSize_of_fits hinterval]
    rfl
  · simp only [timersAdd, assertSize_of_not_fits hinterval]
    rw [Effect.bind_error Effect.raise_apply]

/-- If `add` raises, it has done nothing, unless `zmq_timers_add` has failed. -/
theorem timersAdd_error {zmqTimersAdd : (arg : ℕ) → τ → Option (ℕ × τ)} {err : Err}
    (hadd : FitsSize interval → block.isSome → (zmqTimersAdd s.next s.zmq).isSome)
    (h : (timersAdd timers interval block memory zmqTimersAdd s).1 = .error err) :
    (timersAdd timers interval block memory zmqTimersAdd s).2 = s := by
  by_cases hraise : ¬FitsSize interval ∨ block = none
  · exact timersAdd_raise hraise
  · push Not at hraise
    obtain ⟨hinterval, hblock⟩ := hraise
    obtain ⟨b, rfl⟩ := Option.ne_none_iff_exists'.1 hblock
    -- The call returns, and so does `add`.
    obtain ⟨⟨id, zmq⟩, hid⟩ := Option.isSome_iff_exists.1 (hadd hinterval rfl)
    simp only [timersAdd, assertSize_of_fits hinterval] at h
    rw [Effect.bind_ok Effect.pure_apply] at h
    simp [Effect.bind_apply, newTimer, zmqCall, hid] at h

theorem keyCall_some {func : String} {zmq : τ}
    (h : (arg.key.bind fun key => call key s.zmq) = some zmq) :
    keyCall func arg call s = (.ok (), { s with zmq }) := by
  rw [keyCall, zmqCall, h]
  rfl

theorem keyCall_none {func : String} (h : (arg.key.bind fun key => call key s.zmq) = none) :
    keyCall func arg call s = (.error (.libzmq func), s) := by
  rw [keyCall, zmqCall, h]
  rfl

theorem timerArg_some (h : (s.objs self).data.bind s.args = some arg) :
    timerArg self s = (.ok arg, s) := by
  rw [timerArg, h]

theorem timerArg_none (h : (s.objs self).data.bind s.args = none) :
    ∃ err, timerArg self s = (.error err, s) := by
  rw [timerArg, h]
  exact ⟨_, rfl⟩

/-- The key of a `Timer`. -/
def keyOf (s : Timing τ) (self : ℕ) : Option TimerKey :=
  ((s.objs self).data.bind s.args).bind TimerArg.key

/-- The state after a call of libzmq on a `Timer`, which changes nothing if it
    fails. -/
theorem timerArg_keyCall_snd {func : String} :
    ((timerArg self >>= fun arg => keyCall func arg call : Effect Err (Timing τ) Unit) s).2 =
      { s with zmq := ((s.keyOf self).bind fun key => call key s.zmq).getD s.zmq } := by
  rw [keyOf]
  rcases h : (s.objs self).data.bind s.args with _ | arg
  · obtain ⟨err, herr⟩ := timerArg_none h
    rw [Effect.bind_error herr]
    rfl
  · rw [Effect.bind_ok (timerArg_some h), Option.bind_some]
    rcases hcall : arg.key.bind fun key => call key s.zmq with _ | zmq
    · rw [keyCall_none hcall]
      rfl
    · rw [keyCall_some hcall]
      rfl

theorem timerReset_snd : (timerReset self call s).2 =
    { s with zmq := ((s.keyOf self).bind fun key => call key s.zmq).getD s.zmq } :=
  timerArg_keyCall_snd

theorem timerSetInterval_snd :
    (timerSetInterval self interval call s).2 =
      if FitsSize interval then
        { s with zmq := ((s.keyOf self).bind fun key => call key s.zmq).getD s.zmq }
      else s := by
  rw [timerSetInterval]
  by_cases hinterval : FitsSize interval
  · rw [if_pos hinterval, assertSize_of_fits hinterval, Effect.bind_ok Effect.pure_apply]
    exact timerArg_keyCall_snd
  · rw [if_neg hinterval, assertSize_of_not_fits hinterval,
      Effect.bind_error Effect.raise_apply]

/-- `cancel` forgets the timer if libzmq cancels it, and else does nothing. -/
theorem timerCancel_snd :
    (timerCancel self call s).2 =
      match (s.objs self).data, (s.keyOf self).bind fun key => call key s.zmq with
      | some p, some zmq => forget { s with zmq } self p (s.keyOf self)
      | _, _ => s := by
  rw [timerCancel, Effect.bind_ok Effect.get_apply, keyOf]
  rcases hdata : (s.objs self).data with _ | p
  · rfl
  rcases h : s.args p with _ | arg
  · obtain ⟨err, herr⟩ := @timerArg_none _ s self (by rw [hdata, Option.bind_some, h])
    simp only [Effect.bind_error herr, Option.bind_some, h, Option.bind_none]
  · simp only
    rw [Effect.bind_ok (timerArg_some (by rw [hdata, Option.bind_some, h]))]
    rcases hcall : arg.key.bind fun key => call key s.zmq with _ | zmq
    · rw [Effect.bind_error (keyCall_none hcall), Option.bind_some, h, Option.bind_some, hcall]
    · rw [Effect.bind_ok (keyCall_some hcall), Option.bind_some, h, Option.bind_some, hcall]
      rfl

theorem timerCancel_cases : (timerCancel self call s).2 = s ∨
    ∃ p zmq, (timerCancel self call s).2 = forget { s with zmq } self p (s.keyOf self) := by
  rw [timerCancel_snd]
  split
  · rename_i p zmq _ _
    exact .inr ⟨p, zmq, rfl⟩
  · exact .inl rfl

theorem timerCancel_forget {zmq : τ} (hdata : (s.objs self).data = some p)
    (hkey : s.keyOf self = some k) (hcall : call k s.zmq = some zmq) :
    (timerCancel self call s).2 = forget { s with zmq } self p (some k) := by
  rw [timerCancel_snd, hdata, hkey, Option.bind_some, hcall]

theorem timerCancel_of_keyOf (hkey : s.keyOf self = none) : (timerCancel self call s).2 = s := by
  rw [timerCancel_snd, hkey, Option.bind_none]
  rcases (s.objs self).data with _ | p <;> rfl

theorem timerCancel_of_none (h : (s.objs self).data = none) :
    timerCancel self call s = (.ok (), s) := by
  rw [timerCancel, Effect.bind_ok Effect.get_apply, h]
  rfl

/-- If `cancel` raises, it has done nothing. -/
theorem timerCancel_error {err : Err} (h : (timerCancel self call s).1 = .error err) :
    (timerCancel self call s).2 = s := by
  rw [timerCancel_snd]
  rcases hdata : (s.objs self).data with _ | p
  · rfl
  rcases hcall : (s.keyOf self).bind fun key => call key s.zmq with _ | zmq
  · rfl
  obtain ⟨key, hkey, hzmq⟩ := Option.bind_eq_some_iff.1 hcall
  obtain ⟨arg, harg, harg'⟩ := Option.bind_eq_some_iff.1 hkey
  rw [timerCancel, Effect.bind_ok Effect.get_apply, hdata] at h
  simp only at h
  have hcall' : (arg.key.bind fun key => call key s.zmq) = some zmq := by
    rw [harg', Option.bind_some, hzmq]
  rw [Effect.bind_ok (timerArg_some harg), Effect.bind_ok (keyCall_some hcall')] at h
  simp at h

end Timing

end MrubyZmq
