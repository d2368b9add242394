import MrubyZmq.Machine
import MrubyZmq.Timers

/-!
# The registry of timers

The timers active in libzmq should be those of the hashes, each with its
`Timer` object, its C argument and its block, and `mrb_zmq_timer_fn` should
never find its argument freed (`Timing.Registered`).

Here, libzmq is what is documented of it: `zmq_timers_add` returns an id which
it has not returned before, `zmq_timers_cancel` succeeds exactly on an active
timer, and `zmq_timers_execute` calls the handlers of active timers, any of them
and in any order. The blocks run meanwhile may use timers, and call `execute`
again.

Then the registry is as it should be in every run, as long as `zmq_timers_add`
does not fail (`registered_iff_along`). Where it fails, `add` leaves a `Timer`
behind which has a data pointer, but no id. It is not returned, but is found among
the objects all the same, and may have the id of another timer in its memory
(`registered_failed`).
-/

namespace MrubyZmq

/-- A timer in libzmq. -/
structure ZmqTimer where
  arg : ℕ
  interval : ℤ

/-- The timers active in libzmq, and those there have been. -/
@[ext]
structure ActiveTimers where
  timers : TimerKey → Option ZmqTimer := fun _ => none
  given : List TimerKey := []

namespace ActiveTimers

/-- `zmq_timers_add`, which returns the id if it succeeds. -/
def add (timers : ℕ) (interval : ℤ) (id : Option ℕ) (arg : ℕ) (z : ActiveTimers) :
    Option (ℕ × ActiveTimers) :=
  id.bind fun id =>
    if (timers, id) ∈ z.given then none
    else
      some (id,
        { timers := Function.update z.timers (timers, id) (some ⟨arg, interval⟩)
          given := (timers, id) :: z.given })

/-- `zmq_timers_cancel`. -/
def cancel (key : TimerKey) (z : ActiveTimers) : Option ActiveTimers :=
  (z.timers key).map fun _ => { z with timers := Function.update z.timers key none }

/-- `zmq_timers_set_interval`, which may fail. -/
def setInterval (interval : ℤ) (ok : Bool) (key : TimerKey) (z : ActiveTimers) :
    Option ActiveTimers :=
  if ok then
    (z.timers key).map fun t =>
      { z with timers := Function.update z.timers key (some { t with interval }) }
  else none

/-- `zmq_timers_reset`, which may fail. -/
def reset (ok : Bool) (key : TimerKey) (z : ActiveTimers) : Option ActiveTimers :=
  if ok then (z.timers key).map fun _ => z else none

end ActiveTimers

/-- A call under way. -/
inductive CallFrame
  /-- `zmq_timers_execute` of a collection. -/
  | executing (timers : ℕ)
  /-- A block called by it. -/
  | block
  deriving DecidableEq, Repr

/-- The timers, and the calls under way, the last one first. -/
structure Registry where
  timing : Timing ActiveTimers := { zmq := {} }
  stack : List CallFrame := []

namespace Registry

variable (s : Registry)

/-- The program runs, not libzmq. -/
def atRuby : Bool :=
  match s.stack with
  | .executing _ :: _ => false
  | _ => true

/-- A call by the program, if it runs. -/
def rubyCall {α : Type} (f : Effect Err (Timing ActiveTimers) α) : Option Registry :=
  if s.atRuby then some { s with timing := (f s.timing).2 } else none

/-- A call by the program on a `Timer`, as there are by `ObjectSpace`: `add` need
    not have returned it. -/
def timerCall (self : ℕ) (f : Effect Err (Timing ActiveTimers) Unit) : Option Registry :=
  if self < s.timing.next then s.rubyCall f else none

/-- libzmq calls `mrb_zmq_timer_fn` for an active timer. -/
def fire (id : ℕ) : Option Registry :=
  match s.stack with
  | .executing timers :: _ =>
    (s.timing.zmq.timers (timers, id)).map fun t =>
      { timing := s.timing.timerFn t.arg, stack := .block :: s.stack }
  | _ => none

/-- A block returns. -/
def blockReturn : Option Registry :=
  match s.stack with
  | .block :: stack => some { s with stack }
  | _ => none

/-- `zmq_timers_execute` returns. -/
def executed : Option Registry :=
  match s.stack with
  | .executing _ :: stack => some { s with stack }
  | _ => none

end Registry

/-- The operations. -/
inductive TimerOp
  | add (timers : ℕ) (interval : ℤ) (block id memory : Option ℕ)
  | cancel (self : ℕ)
  | setInterval (self : ℕ) (interval : ℤ) (ok : Bool)
  | reset (self : ℕ) (ok : Bool)
  /-- `ZMQ::Timers#execute` calls libzmq. -/
  | execute (timers : ℕ)
  | fire (id : ℕ)
  | blockReturn
  | executed
  deriving DecidableEq, Repr

open Timing in
/-- What a program may do with timers, and libzmq while it executes them. -/
def registry : Machine Registry TimerOp where
  step s
    | .add timers interval block id memory =>
      s.rubyCall (timersAdd timers interval block memory (ActiveTimers.add timers interval id))
    | .cancel self => s.timerCall self (timerCancel self ActiveTimers.cancel)
    | .setInterval self interval ok =>
      s.timerCall self (timerSetInterval self interval (ActiveTimers.setInterval interval ok))
    | .reset self ok => s.timerCall self (timerReset self (ActiveTimers.reset ok))
    | .execute timers =>
      if s.atRuby then some { s with stack := .executing timers :: s.stack } else none
    | .fire id => s.fire id
    | .blockReturn => s.blockReturn
    | .executed => s.executed

namespace Timing

variable (s : Timing ActiveTimers)

/-- The timers active in libzmq are those of the hashes. Each of these has one
    `Timer` object, whose C argument carries its id and whose block is set. A
    `Timer` has a data pointer exactly if the id which it has been given is in the
    hash; without an id, it has none. The argument of `mrb_zmq_timer_fn` has never
    been freed. -/
structure Registered : Prop where
  active : ∀ k, (s.zmq.timers k).isSome ↔ (s.hash k).isSome
  timer : ∀ k o, s.hash k = some o →
    s.keyOf o = some k ∧ (s.objs o).block.isSome ∧ ∀ o', s.keyOf o' = some k → o' = o
  data : ∀ o k, (o, k) ∈ s.returned → ((s.objs o).data.isSome ↔ (s.hash k).isSome)
  ids : ∀ o, (s.objs o).data.isSome → ∃ k, (o, k) ∈ s.returned
  entered : ∀ a ∈ s.entered, a.isSome

/-- The four places in which a timer is held are linked. -/
structure Linked : Prop where
  hash : ∀ k o, s.hash k = some o → (o, k) ∈ s.returned ∧
    (∃ t, s.zmq.timers k = some t ∧ t.arg = o) ∧
      ∃ a, s.args o = some a ∧ a.key = some k ∧ s.objs o = { data := some o, block := some a.block }
  zmq : ∀ k t, s.zmq.timers k = some t → s.hash k = some t.arg
  args : ∀ p a k, s.args p = some a → a.key = some k → s.hash k = some p
  data : ∀ o p, (s.objs o).data = some p → p = o
  returned : ∀ o k, (o, k) ∈ s.returned →
    k ∈ s.zmq.given ∧ o < s.next ∧ ((s.objs o).data.isSome → s.hash k = some o)
  unique : ∀ o o' k k', (o, k) ∈ s.returned → (o', k') ∈ s.returned → (o = o' ↔ k = k')
  entered : ∀ a ∈ s.entered, a.isSome

/-- The `Timer`s with a data pointer have been returned. -/
def Handed : Prop := ∀ o, (s.objs o).data.isSome → ∃ k, (o, k) ∈ s.returned

variable {s} {o timers block id : ℕ} {memory : Option ℕ} {k : TimerKey} {interval : ℤ}

theorem Linked.keyOf (hs : s.Linked) (h : s.hash k = some o) : s.keyOf o = some k := by
  obtain ⟨-, -, a, ha, hkey, hobj⟩ := hs.hash k o h
  rw [Timing.keyOf, hobj, Option.bind_some, ha, Option.bind_some, hkey]

theorem Linked.of_keyOf (hs : s.Linked) (h : s.keyOf o = some k) : s.hash k = some o := by
  obtain ⟨a, hbind, hkey⟩ := Option.bind_eq_some_iff.1 h
  obtain ⟨p, hp, ha⟩ := Option.bind_eq_some_iff.1 hbind
  obtain rfl := hs.data o p hp
  exact hs.args p a k ha hkey

theorem Linked.registered (hs : s.Linked) (hhanded : s.Handed) : s.Registered := by
  refine ⟨fun k => ?_, fun k o h => ⟨hs.keyOf h, ?_, fun o' h' => ?_⟩, fun o k h => ?_, hhanded,
    hs.entered⟩
  · rw [Option.isSome_iff_exists, Option.isSome_iff_exists]
    constructor
    · rintro ⟨t, ht⟩
      exact ⟨_, hs.zmq k t ht⟩
    · rintro ⟨o, ho⟩
      obtain ⟨-, ⟨t, ht, -⟩, -⟩ := hs.hash k o ho
      exact ⟨t, ht⟩
  · obtain ⟨-, -, a, -, -, hobj⟩ := hs.hash k o h
    rw [hobj]
    rfl
  · exact Option.some.inj ((hs.of_keyOf h').symm.trans h)
  · constructor
    · intro hdata
      rw [(hs.returned o k h).2.2 hdata]
      rfl
    · intro hhash
      obtain ⟨o', ho'⟩ := Option.isSome_iff_exists.1 hhash
      obtain ⟨hret, -, a, -, -, hobj⟩ := hs.hash k o' ho'
      rw [(hs.unique o o' k k h hret).2 rfl, hobj]
      rfl

/-! ## What keeps the links -/

/-- A new object is not linked to anything, if there is no id in its memory. -/
theorem Linked.newTimer (hs : s.Linked) : (s.newTimer timers block none).Linked := by
  have hlt : ∀ k o, s.hash k = some o → o ≠ s.next := fun k o h =>
    Nat.ne_of_lt (hs.returned o k (hs.hash k o h).1).2.1
  refine ⟨fun k o h => ?_, hs.zmq, fun p a k ha hkey => ?_, fun o p hp => ?_,
    fun o k h => ?_, hs.unique, hs.entered⟩
  · rw [newTimer_objs (hlt k o h), newTimer_args (hlt k o h)]
    exact hs.hash k o h
  · by_cases hp : p = s.next
    · rw [hp, newTimer_args_next] at ha
      rw [← Option.some.inj ha] at hkey
      exact absurd hkey (by simp [TimerArg.key])
    · rw [newTimer_args hp] at ha
      exact hs.args p a k ha hkey
  · by_cases ho : o = s.next
    · rw [ho, newTimer_objs_next] at hp
      exact (Option.some.inj hp).symm.trans ho.symm
    · rw [newTimer_objs ho] at hp
      exact hs.data o p hp
  · obtain ⟨hgiven, hlt, hdata⟩ := hs.returned o k h
    rw [newTimer_objs (Nat.ne_of_lt hlt)]
    exact ⟨hgiven, Nat.lt_succ_of_lt hlt, hdata⟩

/-- A new object is linked to a timer with a new id. -/
theorem Linked.added (hs : s.Linked) {block : ℕ} {res : Option (ℕ × ActiveTimers)} {id : Option ℕ}
    (hres : ActiveTimers.add timers interval id s.next s.zmq = res)
    (hmemory : memory = none ∨ res.isSome) : (s.added timers block memory res).Linked := by
  rcases res with _ | ⟨id', zmq⟩
  · rw [hmemory.resolve_right Bool.false_ne_true]
    exact hs.newTimer
  obtain ⟨i, rfl, hadd⟩ := Option.bind_eq_some_iff.1 hres
  obtain ⟨hgiven, hadd⟩ := Option.ite_none_left_eq_some.1 hadd
  obtain ⟨rfl, rfl⟩ := Prod.mk.inj (Option.some.inj hadd)
  have hret : ∀ o k, (o, k) ∈ s.returned → k ≠ (timers, i) ∧ o ≠ s.next := fun o k h =>
    ⟨fun heq => hgiven (heq ▸ (hs.returned o k h).1), Nat.ne_of_lt (hs.returned o k h).2.1⟩
  have hhash : ∀ k o, s.hash k = some o → k ≠ (timers, i) ∧ o ≠ s.next := fun k o h =>
    hret o k (hs.hash k o h).1
  have hnew := @Linked.newTimer s timers block hs
  rw [added_some, Timing.added]
  -- The id is new, so that none of the links there are is changed.
  refine ⟨fun k o h => ?_, fun k t h => ?_, fun p a k ha hkey => ?_, hnew.data, fun o k h => ?_,
    fun o o' k k' h h' => ?_, hs.entered⟩
  · by_cases hk : k = (timers, i)
    · subst hk
      rw [register_hash_self] at h
      obtain rfl := Option.some.inj h
      refine ⟨List.mem_append_right _ List.mem_cons_self, ⟨_, Function.update_self .., rfl⟩,
        ⟨timers, block, some i⟩, ?_, rfl, @newTimer_objs_next _ s timers block none⟩
      rw [register_args_self]
      exact congrArg (Option.map _) newTimer_args_next
    · rw [register_hash hk] at h
      obtain ⟨hr, ⟨t, ht, harg⟩, a, ha, hkey, hobj⟩ := hnew.hash k o h
      refine ⟨List.mem_append_left _ hr, ⟨t, (Function.update_of_ne hk ..).trans ht, harg⟩, a, ?_,
        hkey, hobj⟩
      rwa [register_args (hhash k o h).2]
  · by_cases hk : k = (timers, i)
    · subst hk
      rw [register_hash_self]
      simp only [register, Function.update_self, Option.some.injEq] at h
      rw [← h]
    · rw [register_hash hk]
      simp only [register, Function.update_of_ne hk] at h
      exact hs.zmq k t h
  · by_cases hp : p = s.next
    · subst hp
      rw [register_args_self] at ha
      obtain ⟨a', ha', rfl⟩ := Option.map_eq_some_iff.1 ha
      obtain rfl := Option.some.inj (newTimer_args_next.symm.trans ha')
      obtain rfl := Option.some.inj hkey
      exact register_hash_self
    · rw [register_args hp] at ha
      have hold := hnew.args p a k ha hkey
      rw [register_hash (hhash k p hold).1]
      exact hold
  · rcases List.mem_append.1 h with h | h
    · obtain ⟨hgiven', hlt, hdata⟩ := hnew.returned o k h
      refine ⟨List.mem_cons_of_mem _ hgiven', hlt, fun hsome => ?_⟩
      rw [register_hash (hret o k h).1]
      exact hdata hsome
    · obtain ⟨rfl, rfl⟩ := Prod.mk.inj (List.mem_singleton.1 h)
      exact ⟨List.mem_cons_self, Nat.lt_succ_self _, fun _ => register_hash_self⟩
  · rcases List.mem_append.1 h with h | h <;> rcases List.mem_append.1 h' with h' | h'
    · exact hs.unique o o' k k' h h'
    · obtain ⟨rfl, rfl⟩ := Prod.mk.inj (List.mem_singleton.1 h')
      exact iff_of_false (hret o k h).2 (hret o k h).1
    · obtain ⟨rfl, rfl⟩ := Prod.mk.inj (List.mem_singleton.1 h)
      exact iff_of_false (hret o' k' h').2.symm (hret o' k' h').1.symm
    · obtain ⟨rfl, rfl⟩ := Prod.mk.inj (List.mem_singleton.1 h)
      obtain ⟨rfl, rfl⟩ := Prod.mk.inj (List.mem_singleton.1 h')
      exact iff_of_true rfl rfl

/-- A timer is cancelled. -/
theorem Linked.forget (hs : s.Linked) (h : s.hash k = some o) :
    (forget { s with zmq := { s.zmq with timers := Function.update s.zmq.timers k none } } o o
      (some k)).Linked := by
  have hret := (hs.hash k o h).1
  have hne : ∀ k' o', (o', k') ∈ s.returned → (k' ≠ k ↔ o' ≠ o) := fun k' o' h' =>
    not_congr (hs.unique o' o k' k h' hret).symm
  -- What is linked to another id belongs to another object.
  refine ⟨fun k' o' h' => ?_, fun k' t h' => ?_, fun p a k' ha hkey => ?_, fun o' p hp => ?_,
    fun o' k' h' => ?_, hs.unique, hs.entered⟩
  · by_cases hk : k' = k
    · rw [hk, forget_hash_self] at h'
      exact absurd h' (by simp)
    · rw [forget_hash hk] at h'
      obtain ⟨hr, ⟨t, ht, harg⟩, hargs⟩ := hs.hash k' o' h'
      have ho := (hne k' o' hr).1 hk
      refine ⟨hr, ⟨t, (Function.update_of_ne hk ..).trans ht, harg⟩, ?_⟩
      rw [forget_args ho, forget_objs ho]
      exact hargs
  · by_cases hk : k' = k
    · simp [Timing.forget, hk] at h'
    · rw [forget_hash hk]
      simp only [Timing.forget, Function.update_of_ne hk] at h'
      exact hs.zmq k' t h'
  · by_cases hp : p = o
    · rw [hp, forget_args_self] at ha
      exact absurd ha (by simp)
    · rw [forget_args hp] at ha
      have hold := hs.args p a k' ha hkey
      rw [forget_hash ((hne k' p (hs.hash k' p hold).1).2 hp)]
      exact hold
  · by_cases ho : o' = o
    · rw [ho, forget_objs_self] at hp
      exact absurd hp (by simp)
    · rw [forget_objs ho] at hp
      exact hs.data o' p hp
  · obtain ⟨hgiven, hlt, hdata⟩ := hs.returned o' k' h'
    refine ⟨hgiven, hlt, fun hsome => ?_⟩
    by_cases ho : o' = o
    · rw [ho, forget_objs_self] at hsome
      exact absurd hsome Bool.false_ne_true
    · rw [forget_objs ho] at hsome
      rw [forget_hash ((hne k' o' h').2 ho)]
      exact hdata hsome

/-- In libzmq, nothing but intervals has changed. -/
theorem Linked.congr (hs : s.Linked) {zmq : ActiveTimers} (hgiven : zmq.given = s.zmq.given)
    (hargs : ∀ k, (zmq.timers k).map (·.arg) = (s.zmq.timers k).map (·.arg)) :
    Linked { s with zmq } := by
  refine ⟨fun k o h => ?_, fun k t h => ?_, hs.args, hs.data, fun o k h => ?_, hs.unique,
    hs.entered⟩
  · obtain ⟨hr, ⟨t, ht, rfl⟩, ha⟩ := hs.hash k o h
    have harg := hargs k
    rw [ht] at harg
    obtain ⟨t', ht', harg'⟩ := Option.map_eq_some_iff.1 harg
    exact ⟨hr, ⟨t', ht', harg'⟩, ha⟩
  · have harg := hargs k
    rw [show zmq.timers k = some t from h] at harg
    obtain ⟨t', ht', harg'⟩ := Option.map_eq_some_iff.1 harg.symm
    exact (hs.zmq k t' ht').trans (congrArg some harg')
  · rw [hgiven]
    exact hs.returned o k h

theorem Linked.setInterval (hs : s.Linked) {key : Option TimerKey} {ok : Bool} :
    Linked { s with zmq :=
      (key.bind fun k => ActiveTimers.setInterval interval ok k s.zmq).getD s.zmq } := by
  rcases h : key.bind fun k => ActiveTimers.setInterval interval ok k s.zmq with _ | zmq
  · exact hs
  obtain ⟨k, -, hzmq⟩ := Option.bind_eq_some_iff.1 h
  obtain ⟨-, hzmq⟩ := Option.ite_none_right_eq_some.1 hzmq
  obtain ⟨t, ht, rfl⟩ := Option.map_eq_some_iff.1 hzmq
  refine hs.congr rfl fun k' => ?_
  by_cases hk : k' = k
  · simp [hk, ht]
  · simp [hk]

theorem Linked.reset (hs : s.Linked) {key : Option TimerKey} {ok : Bool} :
    Linked { s with zmq := (key.bind fun k => ActiveTimers.reset ok k s.zmq).getD s.zmq } := by
  rcases h : key.bind fun k => ActiveTimers.reset ok k s.zmq with _ | zmq
  · exact hs
  obtain ⟨k, -, hzmq⟩ := Option.bind_eq_some_iff.1 h
  obtain ⟨-, hzmq⟩ := Option.ite_none_right_eq_some.1 hzmq
  obtain ⟨t, -, rfl⟩ := Option.map_eq_some_iff.1 hzmq
  exact hs

/-- `mrb_zmq_timer_fn` is entered for an active timer. -/
theorem Linked.timerFn (hs : s.Linked) {t : ZmqTimer} (h : s.zmq.timers k = some t) :
    (s.timerFn t.arg).Linked := by
  refine { hs with entered := fun a ha => ?_ }
  rcases List.mem_append.1 ha with ha | ha
  · exact hs.entered a ha
  · obtain ⟨-, -, b, hb, -⟩ := hs.hash k t.arg (hs.zmq k t h)
    rw [List.mem_singleton.1 ha, hb]
    rfl

theorem Linked.cancel (hs : s.Linked) : (timerCancel o ActiveTimers.cancel s).2.Linked := by
  rw [timerCancel_snd]
  rcases hdata : (s.objs o).data with _ | p
  · exact hs
  rcases hcall : (s.keyOf o).bind fun k => ActiveTimers.cancel k s.zmq with _ | zmq
  · exact hs
  obtain rfl := hs.data o p hdata
  obtain ⟨k, hkey, hzmq⟩ := Option.bind_eq_some_iff.1 hcall
  obtain ⟨t, -, rfl⟩ := Option.map_eq_some_iff.1 hzmq
  rw [hkey]
  exact hs.forget (hs.of_keyOf hkey)

theorem Linked.add (hs : s.Linked) {block id : Option ℕ}
    (hmemory : memory = none ∨ (FitsSize interval → block.isSome →
      (ActiveTimers.add timers interval id s.next s.zmq).isSome)) :
    (timersAdd timers interval block memory (ActiveTimers.add timers interval id) s).2.Linked := by
  by_cases h : ¬FitsSize interval ∨ block = none
  · rw [timersAdd_raise h]
    exact hs
  · push Not at h
    obtain ⟨hinterval, hblock⟩ := h
    obtain ⟨b, rfl⟩ := Option.ne_none_iff_exists'.1 hblock
    rw [timersAdd_snd hinterval]
    exact hs.added rfl (hmemory.imp_right fun hadd => hadd hinterval rfl)

/-! ## What is handed out -/

theorem Handed.added (hs : s.Handed) {zmq : ActiveTimers} :
    (s.added timers block memory (some (id, zmq))).Handed := by
  intro o ho
  by_cases hnext : o = s.next
  · subst hnext
    exact ⟨_, List.mem_append_right _ List.mem_cons_self⟩
  · have hobj : (s.newTimer timers block memory).objs o = s.objs o := newTimer_objs hnext
    obtain ⟨k, hk⟩ := hs o (hobj ▸ ho)
    exact ⟨k, List.mem_append_left _ hk⟩

theorem Handed.forget (hs : s.Handed) {p : ℕ} {key : Option TimerKey} :
    (s.forget o p key).Handed := by
  intro o' ho'
  by_cases ho : o' = o
  · rw [ho, forget_objs_self] at ho'
    exact absurd ho' Bool.false_ne_true
  · rw [forget_objs ho] at ho'
    exact hs o' ho'

end Timing

namespace Registry

open Timing

/-- An `add` that raises leaves everything as it was; so does a `cancel` that
    raises, or of a `Timer` that has been cancelled. -/
def Undone (s : Registry) (op : TimerOp) (s' : Registry) : Prop :=
  match op with
  | .add timers interval block id memory =>
    ∀ err, (timersAdd timers interval block memory (ActiveTimers.add timers interval id)
      s.timing).1 = .error err → s' = s
  | .cancel self =>
    ((∃ err, (timerCancel self ActiveTimers.cancel s.timing).1 = .error err) ∨
      (s.timing.objs self).data = none) → s' = s
  | _ => True

/-- If `add` calls `zmq_timers_add`, this does not fail. -/
def Adds (s : Registry) : TimerOp → Prop
  | .add timers interval block id _ => FitsSize interval → block.isSome →
      (ActiveTimers.add timers interval id s.timing.next s.timing.zmq).isSome
  | _ => True

/-- The same, or there is no id in the memory of the C argument. -/
def Clean (s : Registry) (op : TimerOp) : Prop :=
  (∀ timers interval block id memory, op = .add timers interval block id memory →
    memory = none) ∨ s.Adds op

variable {s s' : Registry} {op : TimerOp}

theorem rubyCall_eq_some {α : Type} {f : Effect Err (Timing ActiveTimers) α}
    (h : s.rubyCall f = some s') : s' = { s with timing := (f s.timing).2 } :=
  (Option.some.inj (Option.ite_none_right_eq_some.1 h).2).symm

theorem timerCall_eq_some {self : ℕ} {f : Effect Err (Timing ActiveTimers) Unit}
    (h : s.timerCall self f = some s') : s' = { s with timing := (f s.timing).2 } :=
  rubyCall_eq_some (Option.ite_none_right_eq_some.1 h).2

/-- What is not called by the program. -/
def Internal : TimerOp → Prop
  | .execute _ | .fire _ | .blockReturn | .executed => True
  | .add .. | .cancel _ | .setInterval .. | .reset .. => False

/-- While libzmq executes timers, it changes nothing itself: it only enters
    `mrb_zmq_timer_fn` for active timers. -/
theorem internal_step (h : registry.step s op = some s') (hop : Internal op) :
    s'.timing = s.timing ∨
      ∃ k t, s.timing.zmq.timers k = some t ∧ s'.timing = s.timing.timerFn t.arg := by
  cases op with
  | execute timers =>
    obtain rfl := Option.some.inj (Option.ite_none_right_eq_some.1 h).2
    exact .inl rfl
  | fire id =>
    simp only [registry, fire] at h
    split at h
    · obtain ⟨t, ht, rfl⟩ := Option.map_eq_some_iff.1 h
      exact .inr ⟨_, t, ht, rfl⟩
    · exact absurd h (by simp)
  | blockReturn =>
    simp only [registry, blockReturn] at h
    split at h
    · exact .inl (Option.some.inj h ▸ rfl)
    · exact absurd h (by simp)
  | executed =>
    simp only [registry, executed] at h
    split at h
    · exact .inl (Option.some.inj h ▸ rfl)
    · exact absurd h (by simp)
  | add | cancel | setInterval | reset => exact absurd hop id

theorem linked_step (hs : s.timing.Linked) (h : registry.step s op = some s')
    (hop : s.Clean op) : s'.timing.Linked := by
  cases op with
  | add timers interval block id memory =>
    obtain rfl := rubyCall_eq_some h
    exact hs.add (hop.imp_left fun hmemory => hmemory _ _ _ _ _ rfl)
  | cancel self =>
    obtain rfl := timerCall_eq_some h
    exact hs.cancel
  | setInterval self interval ok =>
    obtain rfl := timerCall_eq_some h
    simp only [timerSetInterval_snd]
    split
    · exact hs.setInterval
    · exact hs
  | reset self ok =>
    obtain rfl := timerCall_eq_some h
    simp only [timerReset_snd]
    exact hs.reset
  | execute | fire | blockReturn | executed =>
    rcases internal_step h trivial with heq | ⟨k, t, ht, heq⟩
    · exact heq ▸ hs
    · exact heq ▸ hs.timerFn ht

/-- An `add` hands its object out, unless `zmq_timers_add` fails. -/
theorem handed_add (hs : s.timing.Handed) {timers : ℕ} {interval : ℤ} {block id memory : Option ℕ}
    (hop : s.Adds (.add timers interval block id memory)) :
    (timersAdd timers interval block memory (ActiveTimers.add timers interval id)
      s.timing).2.Handed := by
  by_cases h : ¬FitsSize interval ∨ block = none
  · rw [timersAdd_raise h]
    exact hs
  · push Not at h
    obtain ⟨hinterval, hblock⟩ := h
    obtain ⟨b, rfl⟩ := Option.ne_none_iff_exists'.1 hblock
    obtain ⟨⟨id', zmq⟩, hadd⟩ := Option.isSome_iff_exists.1 (hop hinterval rfl)
    rw [timersAdd_snd hinterval, hadd]
    exact hs.added

theorem handed_step (hs : s.timing.Handed) (h : registry.step s op = some s')
    (hop : s.Adds op) : s'.timing.Handed := by
  cases op with
  | add timers interval block id memory =>
    obtain rfl := rubyCall_eq_some h
    exact handed_add hs hop
  | cancel self =>
    obtain rfl := timerCall_eq_some h
    rcases @timerCancel_cases _ s.timing self ActiveTimers.cancel with heq | ⟨p, zmq, heq⟩
    · simp only [heq]
      exact hs
    · simp only [heq]
      exact Handed.forget (s := { s.timing with zmq }) hs
  | setInterval self interval ok =>
    obtain rfl := timerCall_eq_some h
    simp only [timerSetInterval_snd]
    split <;> exact hs
  | reset self ok =>
    obtain rfl := timerCall_eq_some h
    simp only [timerReset_snd]
    exact hs
  | execute | fire | blockReturn | executed =>
    rcases internal_step h trivial with heq | ⟨k, t, -, heq⟩
    · exact heq ▸ hs
    · exact heq ▸ hs

/-- A step leaves the timers registered exactly if it is not an `add` for which
    `zmq_timers_add` fails: the object of that is not handed out. -/
theorem registered_step (hs : s.timing.Linked) (hhanded : s.timing.Handed)
    (h : registry.step s op = some s') : s'.timing.Registered ↔ s.Adds op := by
  constructor
  · intro hs'
    cases op with
    | add timers interval block id memory =>
      obtain rfl := rubyCall_eq_some h
      intro hinterval hblock
      obtain ⟨b, rfl⟩ := Option.isSome_iff_exists.1 hblock
      by_contra hadd
      rw [Option.not_isSome_iff_eq_none] at hadd
      simp only [timersAdd_snd hinterval, hadd, Timing.added] at hs'
      obtain ⟨k, hk⟩ := hs'.ids s.timing.next (by rw [newTimer_objs_next]; rfl)
      exact Nat.lt_irrefl _ (hs.returned _ k hk).2.1
    | cancel | setInterval | reset | execute | fire | blockReturn | executed => trivial
  · exact fun hop => (linked_step hs h (.inr hop)).registered (handed_step hhanded h hop)

theorem undone_step (h : registry.step s op = some s') (hop : s.Adds op) : s.Undone op s' := by
  cases op with
  | add timers interval block id memory =>
    obtain rfl := rubyCall_eq_some h
    intro err herr
    simp only [timersAdd_error hop herr]
  | cancel self =>
    obtain rfl := timerCall_eq_some h
    rintro (⟨err, herr⟩ | hdata)
    · simp only [timerCancel_error herr]
    · simp only [timerCancel_of_none hdata]
  | setInterval | reset | execute | fire | blockReturn | executed => trivial

theorem linked_empty : ({} : Registry).timing.Linked where
  hash _ _ h := absurd h (by simp)
  zmq _ _ h := absurd h (by simp)
  args _ _ _ h := absurd h (by simp)
  data _ _ h := absurd h (by simp)
  returned _ _ h := absurd h List.not_mem_nil
  unique _ _ _ _ h := absurd h List.not_mem_nil
  entered _ h := absurd h List.not_mem_nil

theorem handed_empty : ({} : Registry).timing.Handed := fun _ h => absurd h Bool.false_ne_true

end Registry

open Registry

/-- In a run, the timers are registered in every state, and what raises leaves
    everything as it was, exactly if no call of `zmq_timers_add` fails. -/
theorem registered_iff_along (ops : List TimerOp) :
    registry.Always (fun s => s.timing.Registered) {} ops ∧ registry.Throughout Undone {} ops ↔
      registry.Along Adds {} ops := by
  have hempty := And.intro linked_empty handed_empty
  have hstep : ∀ s op s', s.timing.Linked ∧ s.timing.Handed → registry.step s op = some s' →
      s.Adds op → s'.timing.Linked ∧ s'.timing.Handed := fun s op s' hs h hop =>
    ⟨linked_step hs.1 h (.inr hop), handed_step hs.2 h hop⟩
  have hiff := @Machine.always_iff_along _ _ registry {} ops Adds _
    (fun s => s.timing.Registered) (fun s hs => hs.1.registered hs.2)
    (fun s op s' hs h => registered_step hs.1 hs.2 h) hstep hempty
  constructor
  · exact fun h => hiff.1 h.1
  · intro hops
    refine ⟨hiff.2 hops, hops.imp (I := fun s => s.timing.Linked ∧ s.timing.Handed) hempty ?_⟩
    intro s op s' hs h hop
    exact ⟨hstep s op s' hs h hop, undone_step h hop⟩

/-- The second `add` fails, and the memory of its object contains the id of the
    first timer. Where the program finds this object and cancels it, libzmq cancels
    the first timer, which is deleted from the hash as well. -/
theorem registered_failed :
    let ops : List TimerOp := [.add 0 10 (some 7) (some 1) none, .add 0 20 (some 8) none (some 1),
      .cancel 1]
    (registry.run {} ops).map (fun s => ((s.timing.zmq.timers (0, 1)).isSome,
      s.timing.hash (0, 1), (s.timing.objs 0).data)) = some (false, none, some 0) ∧
    ¬(registry.Always (fun s => s.timing.Registered) {} ops ∧
      registry.Throughout Undone {} ops) := by
  intro ops
  refine ⟨rfl, fun h => ?_⟩
  have hdata := (h.1.of_run (rfl : registry.run {} ops = some _)).data 0 (0, 1)
    List.mem_cons_self
  exact absurd (hdata.1 rfl) Bool.false_ne_true

end MrubyZmq
