import MrubyZmq.Simulation
import MrubyZmq.Timers.Restart

/-!
# Alarms

A program may keep an account of its timers: `add` sets an alarm, with the block
that is to be called and the time at which this is due; `cancel` removes the
alarm of a `Timer`; `interval=`, `reset` and the return of the block set it
again (`account`). libzmq reads the clock once in `execute`, when it is called:
an alarm which is set again as its block returns is set from that time, however
long the blocks have taken.

As long as no block raises but in the first entry its `execute` visits, the
timers go by this account (`punctual_of_along`): a block is only called for an
alarm which was due when `execute` was called, it is the block of that alarm, and
when `execute` returns, there is no alarm which was due then; `timeout` tells how
long it is until the first alarm is due; and `reset` raises exactly if the `Timer`
has no alarm.
-/

namespace MrubyZmq

/-- A timer, as the program knows it. -/
structure Alarm where
  block : ℕ
  interval : ℤ
  due : ℕ
  deriving DecidableEq, Repr

/-- The alarms of `Timer` objects. -/
abbrev Alarms := ℕ → Option Alarm

/-- The alarm of a `Timer`, if it has one, is set again. -/
def Alarms.again (w : Alarms) (o now : ℕ) : Alarms :=
  Function.update w o ((w o).map fun x => { x with due := now + x.interval.toNat })

/-- The alarm of a `Timer`, if it has one, gets another interval. -/
def Alarms.setInterval (w : Alarms) (o : ℕ) (interval : ℤ) : Alarms :=
  Function.update w o ((w o).map fun x => { x with interval })

/-- The other operations on timers are made outside of blocks. -/
inductive AlarmOp
  | op (op : ScheduleOp)
  | setInterval (self : ℕ) (interval : ℤ)
  | reset (self : ℕ)
  | timeout

namespace Schedule

/-- A call made while no timers are executed. -/
def idleCall {α : Type} (s : Schedule) (f : Effect Err (Timing Table) α) : Option Schedule :=
  if s.control = .idle then some { s with timing := (f s.timing).2 } else none

/-- `Timer#interval=`. -/
def setInterval (self : ℕ) (interval : ℤ) : Effect Err (Timing Table) Unit :=
  Timing.timerSetInterval self interval fun key t => t.restart (some interval) key.2

/-- `Timer#reset`. -/
def reset (self : ℕ) : Effect Err (Timing Table) Unit :=
  Timing.timerReset self fun key t => t.restart none key.2

/-- `ZMQ::Timers#timeout`: `mrb_zmq_timers_timeout`. -/
def timersTimeout : Effect Err (Timing Table) ℤ := fun s =>
  let (rc, zmq) := s.zmq.timeout
  (if rc = -1 then .error (.libzmq "zmq_timers_timeout") else .ok rc, { s with zmq })

end Schedule

open Schedule in
/-- What a program may do with a collection of timers, and libzmq while it
    executes them. -/
def alarming : Machine Schedule AlarmOp where
  step s
    | .op op => schedule.step s op
    | .setInterval self interval =>
      if self ∈ s.timing.returned.map (·.1) then s.idleCall (setInterval self interval) else none
    | .reset self =>
      if self ∈ s.timing.returned.map (·.1) then s.idleCall (reset self) else none
    | .timeout => s.idleCall timersTimeout

namespace Schedule

open Timing

variable (s : Schedule)

/-- The `Timer` whose block has been called last, unless it has been cancelled. -/
def caller : Option ℕ :=
  (s.timing.entered.getLast?.join.bind TimerArg.key).bind s.timing.hash

/-- The account which a program keeps of its alarms. -/
def watch (op : ScheduleOp) (w : Alarms) : Alarms :=
  match op with
  | .add interval block ok =>
    match block, (timersAdd 0 interval block none
      (fun arg t => t.add interval ok arg) s.timing).1 with
    | some block, .ok timer =>
      Function.update w timer (some ⟨block, interval, s.timing.zmq.clock + interval.toNat⟩)
    | _, _ => w
  | .cancel self =>
    match (timerCancel self (fun key t => t.cancel key.2) s.timing).1 with
    | .ok () => Function.update w self none
    | .error _ => w
  | .blockReturn =>
    match s.control, s.caller with
    | .block now, some timer => w.again timer now
    | _, _ => w
  | .tick _ | .execute | .visit | .blockRaise => w

/-- The account of all operations. -/
def account : AlarmOp → Alarms → Alarms
  | .op op, w => s.watch op w
  | .setInterval self interval, w =>
    match (setInterval self interval s.timing).1 with
    | .ok () => (w.setInterval self interval).again self s.timing.zmq.clock
    | .error _ => w
  | .reset self, w =>
    match (reset self s.timing).1 with
    | .ok () => w.again self s.timing.zmq.clock
    | .error _ => w
  | .timeout, w => w

/-- A block only raises in the first entry its `execute` visits. -/
def FirstRaises (s : Schedule) : AlarmOp → Prop
  | .op op => s.First op
  | .setInterval .. | .reset _ | .timeout => True

/-- The alarms are those of the entries which are not marked. -/
def Agreed (w : Alarms) : Prop :=
  ∀ o x, w o = some x ↔ ∃ e ∈ s.timing.zmq.rest, e.id ∉ s.timing.zmq.marks ∧ e.arg = o ∧
    (s.timing.objs o).block = some x.block ∧ e.interval = x.interval ∧ e.due = x.due

/-- The block that runs has been called for the next entry. -/
def Calling : Prop :=
  ∀ now, s.control = .block now → ∃ e l a, s.timing.zmq.rest = e :: l ∧
    s.timing.entered.getLast? = some (some a) ∧ a.key = some (0, e.id)

/-- What is known of a schedule and the account of it. -/
structure Watched (w : Alarms) : Prop where
  regular : s.Regular
  agreed : s.Agreed w
  calling : s.Calling

variable {s} {s' : Schedule} {w : Alarms} {e : Entry} {op : ScheduleOp} {self now : ℕ}

theorem idleCall_eq_some {α : Type} {f : Effect Err (Timing Table) α}
    (h : s.idleCall f = some s') :
    s.control = .idle ∧ s' = { s with timing := (f s.timing).2 } := by
  obtain ⟨hidle, h⟩ := Option.ite_none_right_eq_some.1 h
  exact ⟨hidle, (Option.some.inj h).symm⟩

/-! ## The entries which are not marked -/

/-- An entry which is not marked is linked to the `Timer` of its argument. -/
theorem Regular.entry (hs : s.Regular) (he : e ∈ s.timing.zmq.rest)
    (hmark : e.id ∉ s.timing.zmq.marks) :
    s.timing.hash (0, e.id) = some e.arg ∧ (e.arg, (0, e.id)) ∈ s.timing.returned ∧
      ∃ a, s.timing.args e.arg = some a ∧ a.key = some (0, e.id) ∧
        s.timing.objs e.arg = { data := some e.arg, block := some a.block } := by
  have hactive := (Table.active_iff hs.table.nodup).2 ⟨hmark, e, he, rfl, rfl⟩
  have hhash := hs.linked.zmq _ _ hactive
  obtain ⟨hret, -, harg⟩ := hs.linked.hash _ _ hhash
  exact ⟨hhash, hret, harg⟩

theorem Regular.arg_lt (hs : s.Regular) (he : e ∈ s.timing.zmq.rest)
    (hmark : e.id ∉ s.timing.zmq.marks) : e.arg < s.timing.next :=
  (hs.linked.returned _ _ (hs.entry he hmark).2.1).2.1

/-- A `Timer` with a data pointer has an entry, which is not marked. -/
theorem Regular.of_data (hs : s.Regular) {o p : ℕ} {k : TimerKey}
    (hret : (o, k) ∈ s.timing.returned) (hdata : (s.timing.objs o).data = some p) :
    ∃ e ∈ s.timing.zmq.rest, e.id ∉ s.timing.zmq.marks ∧ e.arg = o ∧ k = (0, e.id) ∧
      s.timing.keyOf o = some (0, e.id) := by
  have hhash := (hs.linked.returned o k hret).2.2 (hdata ▸ rfl)
  have hkey : s.timing.keyOf o = some k := hs.linked.keyOf hhash
  obtain ⟨hk, hmark, hrest⟩ := hs.keyOf hkey
  obtain ⟨e, he, hid⟩ := List.mem_map.1 hrest
  obtain rfl : k = (0, e.id) := Prod.ext hk hid.symm
  have harg := Option.some.inj ((hs.entry he hmark).1.symm.trans hhash)
  exact ⟨e, he, hmark, harg, rfl, hkey⟩

/-- Entries which are not marked are of one `Timer` exactly if they have its id. -/
theorem Regular.arg_iff (hs : s.Regular) (he : e ∈ s.timing.zmq.rest)
    (hmark : e.id ∉ s.timing.zmq.marks) {y : Entry} (hy : y ∈ s.timing.zmq.rest)
    (hmark' : y.id ∉ s.timing.zmq.marks) : y.arg = e.arg ↔ y.id = e.id := by
  rw [hs.linked.unique _ _ _ _ (hs.entry hy hmark').2.1 (hs.entry he hmark).2.1]
  simp

/-- Nothing but other objects has changed. -/
theorem Agreed.congr (hs : s.Regular) (h : s.Agreed w)
    (hrest : s'.timing.zmq.rest = s.timing.zmq.rest)
    (hmarks : s'.timing.zmq.marks = s.timing.zmq.marks)
    (hobjs : ∀ o < s.timing.next, s'.timing.objs o = s.timing.objs o) : s'.Agreed w := by
  intro o x
  rw [h o x, hrest, hmarks]
  refine exists_congr fun e => and_congr_right fun he => and_congr_right fun hmark =>
    and_congr_right fun ho => ?_
  rw [hobjs o (ho ▸ hs.arg_lt he hmark)]

/-- A marked entry is dropped: it is of no alarm. -/
theorem Agreed.drop (h : s.Agreed w) {l : List Entry} (hsound : s.timing.zmq.Sound)
    (hrest : s.timing.zmq.rest = e :: l) (hmark : e.id ∈ s.timing.zmq.marks)
    (hrest' : s'.timing.zmq.rest = l)
    (hmarks' : s'.timing.zmq.marks = s.timing.zmq.marks.erase e.id)
    (hobjs' : s'.timing.objs = s.timing.objs) : s'.Agreed w := by
  intro o x
  rw [h o x, hrest, hrest', hmarks', hobjs']
  simp only [List.mem_cons, or_and_right, exists_or, exists_eq_left, hmark, not_true_eq_false,
    false_and, false_or]
  refine exists_congr fun y => and_congr_right fun hy => and_congr_left fun _ => ?_
  exact not_congr (List.mem_erase_of_ne (hsound.id_ne hrest y hy)).symm

/-- An entry is inserted, and the alarm of its `Timer` is set. -/
theorem Agreed.insert {l : List Entry} {b : ℕ}
    (hrest : s'.timing.zmq.rest = l.orderedInsert (·.due < ·.due) e)
    (hmark : e.id ∉ s'.timing.zmq.marks) (hblock : (s'.timing.objs e.arg).block = some b)
    (hnew : ∀ y ∈ l, y.id ∉ s'.timing.zmq.marks → y.arg ≠ e.arg)
    (h : ∀ o ≠ e.arg, ∀ x, w o = some x ↔ ∃ y ∈ l, y.id ∉ s'.timing.zmq.marks ∧ y.arg = o ∧
      (s'.timing.objs o).block = some x.block ∧ y.interval = x.interval ∧ y.due = x.due) :
    s'.Agreed (Function.update w e.arg (some ⟨b, e.interval, e.due⟩)) := by
  intro o x
  rw [hrest]
  by_cases ho : o = e.arg
  · subst ho
    rw [Function.update_self, Option.some.injEq]
    constructor
    · rintro rfl
      exact ⟨e, (List.mem_orderedInsert _).2 (.inl rfl), hmark, rfl, hblock, rfl, rfl⟩
    · obtain ⟨block, interval, due⟩ := x
      rintro ⟨y, hy, hmark, harg, hx, rfl, rfl⟩
      rcases (List.mem_orderedInsert _).1 hy with rfl | hy
      · rw [Option.some.inj (hblock.symm.trans hx)]
      · exact absurd harg (hnew y hy hmark)
  · rw [Function.update_of_ne ho, h o ho x]
    simp only [List.mem_orderedInsert, or_and_right, exists_or, exists_eq_left, Ne.symm ho,
      false_and, and_false, false_or]

/-! ## What the calls return -/

/-- `add` raises, or it returns a new `Timer`. -/
theorem watch_add_raise {interval : ℤ} {block : Option ℕ} {ok : Bool}
    (h : ¬FitsSize interval ∨ block = none) : s.watch (.add interval block ok) w = w := by
  cases block with
  | none => rfl
  | some b =>
    have hinterval := h.resolve_right (by simp)
    simp only [watch, timersAdd, assertSize_of_not_fits hinterval,
      Effect.bind_error Effect.raise_apply]

theorem watch_add {interval : ℤ} {b : ℕ} {ok : Bool} (hinterval : FitsSize interval) :
    s.watch (.add interval (some b) ok) w =
      if ok then
        Function.update w s.timing.next
          (some ⟨b, interval, s.timing.zmq.clock + interval.toNat⟩)
      else w := by
  simp only [watch, timersAdd, assertSize_of_fits hinterval]
  rw [Effect.bind_ok Effect.pure_apply]
  cases ok with
  | true => rfl
  | false => rfl

theorem watch_cancel_none (h : (s.timing.objs self).data = none) :
    s.watch (.cancel self) w = Function.update w self none := by
  simp only [watch, timerCancel_of_none h]

theorem watch_cancel {k : TimerKey} {t : Table} (hkey : s.timing.keyOf self = some k)
    (hcancel : s.timing.zmq.cancel k.2 = some t) :
    s.watch (.cancel self) w = Function.update w self none := by
  obtain ⟨a, ha, hk⟩ := Option.bind_eq_some_iff.1 hkey
  obtain ⟨p, hp, -⟩ := Option.bind_eq_some_iff.1 ha
  have hcall : (a.key.bind fun key => s.timing.zmq.cancel key.2) = some t := by
    rw [hk, Option.bind_some, hcancel]
  simp only [watch, timerCancel]
  rw [Effect.bind_ok Effect.get_apply, hp]
  simp only
  rw [Effect.bind_ok (timerArg_some ha), Effect.bind_ok (keyCall_some hcall)]
  rfl

/-! ## The steps of the program -/

theorem Watched.tick (hs : s.Watched w) {d : ℕ} (h : schedule.step s (.tick d) = some s') :
    s'.Agreed w ∧ s'.Calling := by
  obtain rfl := Option.some.inj h
  exact ⟨hs.agreed, hs.calling⟩

theorem Watched.execute (hs : s.Watched w) (h : schedule.step s .execute = some s') :
    s'.Agreed w ∧ s'.Calling := by
  obtain rfl := Option.some.inj (Option.ite_none_right_eq_some.1 h).2
  exact ⟨hs.agreed, fun now hc => by simp at hc⟩

/-- The entry of a new timer is the one of the alarm that is set. -/
theorem Watched.added (hs : s.Watched w) {interval : ℤ} {b : ℕ} :
    Agreed
      { s with timing := s.timing.added 0 b none (some (s.timing.zmq.lastId + 1,
          s.timing.zmq.added interval s.timing.next)) }
      (Function.update w s.timing.next
        (some ⟨b, interval, s.timing.zmq.clock + interval.toNat⟩)) := by
  have hmark : s.timing.zmq.lastId + 1 ∉ s.timing.zmq.marks := fun hmem =>
    hs.regular.table.lastId_notMem (hs.regular.table.marks _ hmem)
  refine Agreed.insert (e := ⟨_, _, interval, s.timing.next⟩) rfl hmark ?_ ?_ ?_
  · exact congrArg TimerObj.block (@newTimer_objs_next _ s.timing 0 b none)
  · exact fun y hy hmark => Nat.ne_of_lt (hs.regular.arg_lt hy hmark)
  · intro o ho x
    have hobj : (s.timing.newTimer 0 b none).objs o = s.timing.objs o := newTimer_objs ho
    rw [hs.agreed o x, ← hobj]
    rfl

theorem Watched.add (hs : s.Watched w) {interval : ℤ} {block : Option ℕ} {ok : Bool}
    (h : schedule.step s (.add interval block ok) = some s') :
    s'.Agreed (s.watch (.add interval block ok) w) ∧ s'.Calling := by
  obtain ⟨hruby, rfl⟩ := rubyCall_eq_some h
  by_cases hraise : ¬FitsSize interval ∨ block = none
  · rw [watch_add_raise hraise, timersAdd_raise hraise]
    exact ⟨hs.agreed, hs.calling⟩
  push Not at hraise
  obtain ⟨hinterval, hblock⟩ := hraise
  obtain ⟨b, rfl⟩ := Option.ne_none_iff_exists'.1 hblock
  rw [watch_add hinterval, timersAdd_snd hinterval]
  cases ok with
  | false =>
    refine ⟨hs.agreed.congr hs.regular rfl rfl fun o ho => ?_, hs.calling⟩
    exact newTimer_objs (Nat.ne_of_lt ho)
  | true =>
    rw [Table.add_eq (hs.regular.past_le hruby)]
    refine ⟨hs.added, fun now hc => ?_⟩
    obtain ⟨e, l, a, hrest, hlast, hkey⟩ := hs.calling now hc
    have hrunning := hs.regular.running
    simp only [Running, show s.control = .block now from hc] at hrunning
    obtain ⟨hnow, e', l', hrest', he⟩ := hrunning
    obtain rfl := (List.cons.inj (hrest.symm.trans hrest')).1
    obtain ⟨l', hl'⟩ := Table.rest_added hrest (Nat.le_trans he hnow)
    exact ⟨e, l', a, hl', hlast, hkey⟩

/-- There is no alarm of a `Timer` which has been cancelled. -/
theorem Watched.none_of_data (hs : s.Watched w) {o : ℕ} (hdata : (s.timing.objs o).data = none) :
    w o = none := by
  refine Option.eq_none_iff_forall_ne_some.2 fun x hx => ?_
  obtain ⟨e, he, hmark, rfl, -⟩ := (hs.agreed o x).1 hx
  obtain ⟨-, -, a, -, -, hobj⟩ := hs.regular.entry he hmark
  exact absurd (hdata.symm.trans (congrArg TimerObj.data hobj)) (by simp)

theorem Watched.cancel (hs : s.Watched w) (h : schedule.step s (.cancel self) = some s') :
    s'.Agreed (s.watch (.cancel self) w) ∧ s'.Calling := by
  obtain ⟨hmem, h⟩ := Option.ite_none_right_eq_some.1 h
  obtain ⟨hruby, rfl⟩ := rubyCall_eq_some h
  obtain ⟨⟨o, k⟩, hret, rfl⟩ := List.mem_map.1 hmem
  rcases hdata : (s.timing.objs o).data with _ | p
  · rw [watch_cancel_none hdata, ← hs.none_of_data hdata, Function.update_eq_self,
      timerCancel_of_none hdata]
    exact ⟨hs.agreed, hs.calling⟩
  · obtain ⟨e, he, hmark, rfl, rfl, hkey⟩ := hs.regular.of_data hret hdata
    have hcancel : s.timing.zmq.cancel e.id = some (s.timing.zmq.mark e.id) := by
      refine if_pos ⟨?_, hmark⟩
      rw [List.map_append]
      exact List.mem_append_right _ (List.mem_map.2 ⟨e, he, rfl⟩)
    rw [watch_cancel hkey hcancel, timerCancel_forget hdata hkey hcancel]
    -- Of the entries which are not marked, just that of the timer is marked now.
    have hmem_mark : ∀ {j}, j ∉ (s.timing.zmq.mark e.id).marks ↔
        j ∉ s.timing.zmq.marks ∧ j ≠ e.id := by
      simp [Table.mark]
    refine ⟨fun o x => ?_, hs.calling⟩
    by_cases ho : o = e.arg
    · subst ho
      refine iff_of_false (by simp) ?_
      rintro ⟨y, hy, hmark', harg, -⟩
      obtain ⟨hmark', hne⟩ := hmem_mark.1 hmark'
      exact hne ((hs.regular.arg_iff he hmark hy hmark').1 harg)
    · rw [Function.update_of_ne ho, hs.agreed o x]
      refine exists_congr fun y => and_congr_right fun hy => ?_
      rw [forget_objs ho]
      constructor
      · rintro ⟨hmark', harg, h⟩
        refine ⟨hmem_mark.2 ⟨hmark', fun hid => ho ?_⟩, harg, h⟩
        exact harg.symm.trans ((hs.regular.arg_iff he hmark hy hmark').2 hid)
      · rintro ⟨hmark', h⟩
        exact ⟨(hmem_mark.1 hmark').1, h⟩

/-! ## The steps of libzmq -/

theorem Watched.visit (hs : s.Watched w) (h : s.visit = some s') :
    s'.Agreed w ∧ s'.Calling := by
  rw [Schedule.visit] at h
  split at h
  · rename_i now hc
    have hidle : Agreed { s.setTable s.timing.zmq.erase with control := .idle } w ∧
        Calling { s.setTable s.timing.zmq.erase with control := .idle } :=
      ⟨hs.agreed, fun now hc => by simp at hc⟩
    split at h
    · exact Option.some.inj h ▸ hidle
    rename_i e l hrest
    split at h
    · -- The entry that is dropped is a marked one.
      rename_i hmark
      obtain rfl := Option.some.inj h
      rw [@Table.advance_eq (s.timing.zmq.unmark e.id) _ _ hrest]
      exact ⟨hs.agreed.drop hs.regular.table hrest hmark rfl rfl rfl,
        fun now' hc' => absurd (hc.symm.trans hc') (by simp)⟩
    rename_i hmark
    split at h
    · exact Option.some.inj h ▸ hidle
    · obtain rfl := Option.some.inj h
      obtain ⟨-, -, a, ha, hkey, -⟩ := hs.regular.entry (hrest ▸ List.mem_cons_self) hmark
      refine ⟨hs.agreed, fun now' hc' => ⟨e, l, a, hrest, ?_, hkey⟩⟩
      exact List.getLast?_concat.trans (congrArg some ha)
  · exact absurd h (by simp)

/-- The entry inserted again is the one of the alarm that is set again. -/
theorem Watched.blockReturn (hs : s.Watched w) (h : s.blockReturn = some s') :
    s'.Agreed (s.watch .blockReturn w) ∧ s'.Calling := by
  rw [Schedule.blockReturn] at h
  split at h
  · rename_i now hc
    obtain rfl := Option.some.inj h
    refine ⟨?_, fun now' hc' => by simp at hc'⟩
    obtain ⟨e, l, a, hrest, hlast, hkey⟩ := hs.calling now hc
    have hrunning := hs.regular.running
    simp only [Running, hc] at hrunning
    obtain ⟨hnow, e', l', hrest', he⟩ := hrunning
    obtain ⟨rfl, rfl⟩ := List.cons.inj (hrest.symm.trans hrest')
    have hagain := hs.regular.table.again_eq hrest he
    have hcaller : s.caller = s.timing.hash (0, e.id) := by
      rw [caller, hlast, Option.join_some, Option.bind_some, hkey, Option.bind_some]
    rw [hagain]
    by_cases hmark : e.id ∈ s.timing.zmq.marks
    · -- The `Timer` has been cancelled meanwhile, perhaps by its own block.
      have hnone : s.timing.hash (0, e.id) = none := by
        refine Option.eq_none_iff_forall_ne_some.2 fun o ho => ?_
        obtain ⟨-, ⟨t, ht, -⟩, -⟩ := hs.regular.linked.hash _ _ ho
        exact ((Table.active_iff hs.regular.table.nodup).1 ht).1 hmark
      rw [watch, hc, hcaller, hnone]
      intro o x
      simp only [hs.agreed o x, hrest, setTable, List.mem_orderedInsert, List.mem_cons,
        or_and_right, exists_or, exists_eq_left, hmark, not_true_eq_false, false_and, false_or]
    · have hmem : e ∈ s.timing.zmq.rest := hrest ▸ List.mem_cons_self
      obtain ⟨hhash, -, a', -, -, hobj⟩ := hs.regular.entry hmem hmark
      have hblock : (s.timing.objs e.arg).block = some a'.block := congrArg TimerObj.block hobj
      have hw : w e.arg = some ⟨a'.block, e.interval, e.due⟩ :=
        (hs.agreed _ _).2 ⟨e, hmem, hmark, rfl, hblock, rfl, rfl⟩
      rw [watch, hc, hcaller, hhash]
      simp only [Alarms.again, hw, Option.map_some]
      refine Agreed.insert (e := { e with due := now + e.interval.toNat }) rfl hmark hblock ?_ ?_
      · intro y hy hmark' harg
        refine hs.regular.table.id_ne hrest y hy ?_
        exact (hs.regular.arg_iff hmem hmark (hrest ▸ List.mem_cons_of_mem _ hy) hmark').1 harg
      · intro o ho x
        simp only [hs.agreed o x, hrest, setTable, List.mem_cons, or_and_right, exists_or,
          exists_eq_left, Ne.symm ho, false_and, and_false, false_or]
  · exact absurd h (by simp)

theorem Watched.blockRaise (hs : s.Watched w) (h : s.blockRaise = some s')
    (hop : s.timing.zmq.past = []) : s'.Agreed w ∧ s'.Calling := by
  rw [Schedule.blockRaise] at h
  split at h
  · obtain rfl := Option.some.inj h
    rw [Table.leave_eq hop]
    exact ⟨hs.agreed, fun now hc => by simp at hc⟩
  · exact absurd h (by simp)

/-! ## The timeout -/

/-- Outside of `execute`, a marked entry is dropped. -/
theorem Watched.drop (hs : s.Watched w) (hidle : s.control = .idle) {l : List Entry}
    (hrest : s.timing.zmq.rest = e :: l) (hmark : e.id ∈ s.timing.zmq.marks) :
    (s.setTable { s.timing.zmq with
      rest := l, marks := s.timing.zmq.marks.erase e.id }).Watched w := by
  have hpast := hs.regular.running
  simp only [Running, hidle] at hpast
  have htable : (s.timing.zmq.unmark e.id).advance.erase =
      { s.timing.zmq with rest := l, marks := s.timing.zmq.marks.erase e.id } := by
    rw [@Table.advance_eq (s.timing.zmq.unmark e.id) _ _ hrest, Table.erase, ← hpast]
    rfl
  have hactive := Table.active_drop hs.regular.table hrest hmark
  have hids := hs.regular.ids
  rw [← htable]
  refine ⟨⟨(hs.regular.table.drop hrest).erase, ?_, fun y hy => ?_, ?_⟩, ?_, ?_⟩
  · have hlinked := hs.regular.linked
    rw [registry, ← hactive] at hlinked
    exact hlinked
  · rw [htable, setTable, hpast, List.nil_append] at hy
    exact hids y (List.mem_append_right _ (hrest ▸ List.mem_cons_of_mem _ hy))
  · simp only [Running, setTable, hidle]
    rfl
  · rw [htable]
    exact hs.agreed.drop hs.regular.table hrest hmark rfl rfl rfl
  · exact fun now hc => absurd (hidle.symm.trans hc) (by simp)

/-! ## Starting an interval again -/

theorem Watched.restarted (hs : s.Watched w) (hidle : s.control = .idle)
    (he : e ∈ s.timing.zmq.rest) (hmark : e.id ∉ s.timing.zmq.marks) {interval : ℤ} {x : Alarm}
    (hx : w e.arg = some x) :
    (s.setTable (s.timing.zmq.restarted e interval)).Watched (Function.update w e.arg
      (some ⟨x.block, interval, s.timing.zmq.clock + interval.toNat⟩)) := by
  have hpast := hs.regular.running
  simp only [Running, hidle] at hpast
  have hsound := hs.regular.table
  have hsound' := @Table.Sound.restarted _ _ interval hsound hpast he hmark
  have hmem : ∀ y ∈ s.timing.zmq.rest.erase e, y ∈ s.timing.zmq.rest ∧ y.id ≠ e.id := fun y hy =>
    (hsound.mem_erase he).1 hy
  refine ⟨⟨hsound', ?_, fun y hy => ?_, ?_⟩, ?_, ?_⟩
  · -- In the registry, only the interval of the timer has changed.
    exact hs.regular.linked.congr rfl (Table.active_restarted hsound hsound' he hmark)
  · rcases List.mem_append.1 hy with hy | hy
    · exact hs.regular.ids y (List.mem_append_left _ hy)
    · rcases Table.mem_restarted.1 hy with rfl | hy
      · exact hs.regular.ids e (List.mem_append_right _ he)
      · exact hs.regular.ids y (List.mem_append_right _ (hmem y hy).1)
  · simp only [Running, setTable, hidle]
    exact hpast
  · obtain ⟨-, -, -, -, hblock, -⟩ := (hs.agreed _ _).1 hx
    refine Agreed.insert (l := s.timing.zmq.rest.erase e)
      (e := { e with due := s.timing.zmq.clock + interval.toNat, interval })
      rfl hmark hblock ?_ ?_
    · intro y hy hmark' harg
      exact (hmem y hy).2 ((hs.regular.arg_iff he hmark (hmem y hy).1 hmark').1 harg)
    · intro o ho z
      rw [hs.agreed o z]
      refine exists_congr fun y => ?_
      rw [hsound.mem_erase he]
      constructor
      · rintro ⟨hy, hmark', harg, h⟩
        refine ⟨⟨hy, fun hye => ho ?_⟩, hmark', harg, h⟩
        exact harg.symm.trans ((hs.regular.arg_iff he hmark hy hmark').2 hye)
      · rintro ⟨⟨hy, -⟩, h⟩
        exact ⟨hy, h⟩
  · exact fun now hc => absurd (hidle.symm.trans hc) (by simp)

/-- A call on a `Timer` which starts its interval again raises if the `Timer` has
    no alarm, and else this is set again. -/
theorem Watched.restart (hs : s.Watched w) (hidle : s.control = .idle)
    (hmem : self ∈ s.timing.returned.map (·.1)) {func : String} {interval : Option ℤ}
    {call : Effect Err (Timing Table) Unit}
    (hcall : call = timerArg self >>= fun arg =>
      keyCall func arg fun key t => t.restart interval key.2) :
    (w self = none ∧ ∃ err, call s.timing = (.error err, s.timing)) ∨
    ∃ x t, w self = some x ∧ call s.timing = (.ok (), { s.timing with zmq := t }) ∧
      (s.setTable t).Watched (Function.update w self (some ⟨x.block, interval.getD x.interval,
        s.timing.zmq.clock + (interval.getD x.interval).toNat⟩)) := by
  subst hcall
  obtain ⟨⟨o, k⟩, hret, rfl⟩ := List.mem_map.1 hmem
  rcases hdata : (s.timing.objs o).data with _ | p
  · obtain ⟨err, herr⟩ := @timerArg_none _ s.timing o (by rw [hdata]; rfl)
    exact .inl ⟨hs.none_of_data hdata, err, Effect.bind_error herr⟩
  · obtain ⟨e, he, hmark, rfl, rfl, hkey⟩ := hs.regular.of_data hret hdata
    obtain ⟨-, -, a, -, -, hobj⟩ := hs.regular.entry he hmark
    have hx := (hs.agreed _ ⟨a.block, e.interval, e.due⟩).2
      ⟨e, he, hmark, rfl, congrArg TimerObj.block hobj, rfl, rfl⟩
    have hpast := hs.regular.running
    simp only [Running, hidle] at hpast
    obtain ⟨arg, harg, hargkey⟩ := Option.bind_eq_some_iff.1 hkey
    have hrestart : (arg.key.bind fun key => s.timing.zmq.restart interval key.2) =
        some (s.timing.zmq.restarted e (interval.getD e.interval)) := by
      rw [hargkey, Option.bind_some, Table.restart_eq hs.regular.table hpast he]
    refine .inr ⟨_, _, hx, ?_, hs.restarted hidle he hmark hx⟩
    rw [Effect.bind_ok (timerArg_some harg), keyCall_some hrestart]

theorem Watched.reset (hs : s.Watched w) (hidle : s.control = .idle)
    (hmem : self ∈ s.timing.returned.map (·.1)) :
    Watched { s with timing := (Schedule.reset self s.timing).2 } (s.account (.reset self) w) ∧
      ((Schedule.reset self s.timing).1 = .ok () ↔ (w self).isSome) := by
  have hcall : Schedule.reset self = timerArg self >>= fun arg =>
      keyCall "zmq_timers_reset" arg fun key t => t.restart none key.2 := rfl
  rcases hs.restart hidle hmem hcall with ⟨hnone, err, herr⟩ | ⟨x, t, hx, hok, hwatched⟩
  · simp only [account, herr]
    exact ⟨hs, by simp [hnone]⟩
  · simp only [account, hok, Alarms.again, hx, Option.map_some]
    exact ⟨hwatched, by simp⟩

theorem Watched.setInterval (hs : s.Watched w) (hidle : s.control = .idle)
    (hmem : self ∈ s.timing.returned.map (·.1)) {interval : ℤ} :
    Watched { s with timing := (Schedule.setInterval self interval s.timing).2 }
        (s.account (.setInterval self interval) w) ∧
      ((Schedule.setInterval self interval s.timing).1 = .ok () ↔
        FitsSize interval ∧ (w self).isSome) := by
  by_cases hinterval : FitsSize interval
  · have hcall : Schedule.setInterval self interval = timerArg self >>= fun arg =>
        keyCall "zmq_timers_set_interval" arg fun key t => t.restart (some interval) key.2 := by
      rw [Schedule.setInterval, timerSetInterval, assertSize_of_fits hinterval, Effect.pure_bind]
    rcases hs.restart hidle hmem hcall with ⟨hnone, err, herr⟩ | ⟨x, t, hx, hok, hwatched⟩
    · simp only [account, herr]
      exact ⟨hs, by simp [hnone]⟩
    · simp only [account, hok, Alarms.again, Alarms.setInterval, hx, Option.map_some,
        Function.update_self, Function.update_idem]
      exact ⟨hwatched, by simp [hinterval]⟩
  · have hcall : Schedule.setInterval self interval s.timing = (.error .rangeError, s.timing) := by
      rw [Schedule.setInterval, timerSetInterval, assertSize_of_not_fits hinterval]
      exact Effect.bind_error Effect.raise_apply
    simp only [account, hcall]
    exact ⟨hs, by simp [hinterval]⟩

theorem Watched.timeout (hs : s.Watched w) (hidle : s.control = .idle) :
    Watched { s with timing := (timersTimeout s.timing).2 } w := by
  refine Table.dropMarked_induction
    (P := fun l marks => (s.setTable { s.timing.zmq with rest := l, marks }).Watched w) ?_ hs
  intro e l marks hmark hwatched
  exact hwatched.drop hidle rfl hmark

/-- A step is followed by the account, unless a block raises in a later entry. -/
theorem Watched.step (hs : s.Watched w) {op : AlarmOp} (h : alarming.step s op = some s')
    (hop : s.FirstRaises op) : s'.Watched (s.account op w) := by
  cases op with
  | op op =>
    have hnext : s'.Agreed (s.watch op w) ∧ s'.Calling := by
      cases op with
      | tick d => exact hs.tick h
      | add interval block ok => exact hs.add h
      | cancel self => exact hs.cancel h
      | execute => exact hs.execute h
      | visit => exact hs.visit h
      | blockReturn => exact hs.blockReturn h
      | blockRaise => exact hs.blockRaise h hop
    exact ⟨hs.regular.step h hop, hnext.1, hnext.2⟩
  | setInterval self interval =>
    obtain ⟨hmem, h⟩ := Option.ite_none_right_eq_some.1 h
    obtain ⟨hidle, rfl⟩ := idleCall_eq_some h
    exact (hs.setInterval hidle hmem).1
  | reset self =>
    obtain ⟨hmem, h⟩ := Option.ite_none_right_eq_some.1 h
    obtain ⟨hidle, rfl⟩ := idleCall_eq_some h
    exact (hs.reset hidle hmem).1
  | timeout =>
    obtain ⟨hidle, rfl⟩ := idleCall_eq_some h
    exact hs.timeout hidle

theorem watched_empty : ({} : Schedule).Watched fun _ => none where
  regular := regular_empty
  agreed o x := iff_of_false (by simp) (by simp)
  calling now hc := by simp at hc

/-! ## What is called -/

/-- A result of `timeout`: how long it is until the first alarm is due, or an
    exception if there are no alarms. -/
def Foretells (s : Schedule) (w : Alarms) : Except Err ℤ → Prop
  | .ok ms => ∃ o alarm, w o = some alarm ∧ ms = max ((alarm.due : ℤ) - s.timing.zmq.clock) 0 ∧
      ∀ o' alarm', w o' = some alarm' → alarm.due ≤ alarm'.due
  | .error _ => ∀ o, w o = none

/-- A block which libzmq calls in an `execute` that was called at the time `now` is
    that of an alarm due by then, and gets the id of its `Timer`; `execute` does
    not return while there is an alarm due by then; `interval=` and `reset` only
    raise if the `Timer` has no alarm, or the interval is not a `size_t`; and
    `timeout` tells when the first alarm is due. -/
structure Punctual (x : Schedule × Alarms) (op : AlarmOp) (x' : Schedule × Alarms) : Prop where
  called : ∀ now, x.1.control = .walking now → x'.1.control = .block now →
    ∃ o k alarm arg, x.2 o = some alarm ∧ alarm.due ≤ now ∧ (o, k) ∈ x.1.timing.returned ∧
      x'.1.timing.entered = x.1.timing.entered ++ [some arg] ∧ arg.block = alarm.block ∧
        arg.key = some k
  executed : ∀ now, x.1.control = .walking now → x'.1.control = .idle →
    ∀ o alarm, x.2 o = some alarm → now < alarm.due
  setInterval : ∀ self interval, op = .setInterval self interval →
    ((setInterval self interval x.1.timing).1 = .ok () ↔
      FitsSize interval ∧ (x.2 self).isSome)
  reset : ∀ self, op = .reset self →
    ((reset self x.1.timing).1 = .ok () ↔ (x.2 self).isSome)
  timeout : op = .timeout → Foretells x.1 x.2 (timersTimeout x.1.timing).1

/-- While libzmq walks through its entries, the program does not run. -/
theorem step_walking {op : AlarmOp} (hc : s.control = .walking now)
    (h : alarming.step s op = some s') : s'.control = .walking now ∨ s.visit = some s' := by
  cases op with
  | op op =>
    cases op with
    | tick d => exact .inl (Option.some.inj h ▸ hc)
    | add => exact absurd hc ((rubyCall_eq_some h).1 now)
    | cancel => exact absurd hc ((rubyCall_eq_some (Option.ite_none_right_eq_some.1 h).2).1 now)
    | execute => exact absurd (hc.symm.trans (Option.ite_none_right_eq_some.1 h).1) (by simp)
    | visit => exact .inr h
    | blockReturn => simp [alarming, schedule, Schedule.blockReturn, hc] at h
    | blockRaise => simp [alarming, schedule, Schedule.blockRaise, hc] at h
  | setInterval | reset =>
    have hidle := (idleCall_eq_some (Option.ite_none_right_eq_some.1 h).2).1
    exact absurd (hc.symm.trans hidle) (by simp)
  | timeout => exact absurd (hc.symm.trans (idleCall_eq_some h).1) (by simp)

theorem Watched.called (hs : s.Watched w) (hc : s.control = .walking now) (h : s.visit = some s')
    (hc' : s'.control = .block now) :
    ∃ o k alarm arg, w o = some alarm ∧ alarm.due ≤ now ∧ (o, k) ∈ s.timing.returned ∧
      s'.timing.entered = s.timing.entered ++ [some arg] ∧ arg.block = alarm.block ∧
        arg.key = some k := by
  rw [Schedule.visit, hc] at h
  simp only at h
  split at h
  · exact absurd (Option.some.inj h ▸ hc') (by simp)
  rename_i e l hrest
  split at h
  · exact absurd (Option.some.inj h ▸ hc') (by simp [setTable, hc])
  rename_i hmark
  split at h
  · exact absurd (Option.some.inj h ▸ hc') (by simp)
  · obtain rfl := Option.some.inj h
    have he : e ∈ s.timing.zmq.rest := hrest ▸ List.mem_cons_self
    obtain ⟨-, hret, a, ha, hkey, hobj⟩ := hs.regular.entry he hmark
    have hw := (hs.agreed e.arg ⟨a.block, e.interval, e.due⟩).2
      ⟨e, he, hmark, rfl, congrArg TimerObj.block hobj, rfl, rfl⟩
    exact ⟨e.arg, (0, e.id), _, a, hw, Nat.le_of_not_lt ‹_›, hret,
      congrArg (s.timing.entered ++ [·]) ha, rfl, hkey⟩

theorem Watched.executed (hs : s.Watched w) (hc : s.control = .walking now)
    (h : s.visit = some s') (hc' : s'.control = .idle) {o : ℕ} {alarm : Alarm}
    (ho : w o = some alarm) : now < alarm.due := by
  obtain ⟨e, he, -, -, -, -, hdue⟩ := (hs.agreed o alarm).1 ho
  rw [← hdue]
  rw [Schedule.visit, hc] at h
  simp only at h
  split at h
  · -- The walk has come to the end.
    rename_i hrest
    exact absurd he (by simp [hrest])
  rename_i e₀ l hrest
  split at h
  · exact absurd (Option.some.inj h ▸ hc') (by simp [setTable, hc])
  split at h
  · -- The entries are in order.
    rename_i hlt
    have hordered := (List.pairwise_append.1 hs.regular.table.ordered).2.1
    rw [hrest] at he hordered
    rcases List.mem_cons.1 he with rfl | he
    · exact hlt
    · exact Nat.lt_of_lt_of_le hlt ((List.pairwise_cons.1 hordered).1 e he)
  · exact absurd (Option.some.inj h ▸ hc') (by simp)

/-- The first entry which is not marked is of the first alarm. -/
theorem Watched.foretells (hs : s.Watched w) (hidle : s.control = .idle) :
    Foretells s w (timersTimeout s.timing).1 := by
  have hs' := hs.timeout hidle
  generalize hdrop : Table.dropMarked s.timing.zmq.rest s.timing.zmq.marks = dropped
  obtain ⟨rest, marks⟩ := dropped
  have hrest : (timersTimeout s.timing).2.zmq.rest = rest := congrArg Prod.fst hdrop
  simp only [timersTimeout, Table.timeout, hdrop]
  rcases rest with _ | ⟨e, l⟩
  · -- There are none but marked entries.
    refine fun o => Option.eq_none_iff_forall_ne_some.2 fun x hx => ?_
    obtain ⟨e, he, -⟩ := (hs'.agreed o x).1 hx
    exact absurd he (by simp [hrest])
  · have hmark : e.id ∉ (timersTimeout s.timing).2.zmq.marks :=
      Table.notMem_dropMarked (congrArg Prod.fst hdrop)
    have he : e ∈ (timersTimeout s.timing).2.zmq.rest := hrest ▸ List.mem_cons_self
    obtain ⟨-, -, a, -, -, hobj⟩ := hs'.regular.entry he hmark
    have hne : max ((e.due : ℤ) - s.timing.zmq.clock) 0 ≠ -1 := by omega
    have hordered := (List.pairwise_append.1 hs'.regular.table.ordered).2.1
    rw [if_neg hne]
    refine ⟨e.arg, ⟨a.block, e.interval, e.due⟩, (hs'.agreed _ _).2 ⟨e, he, hmark, rfl,
      congrArg TimerObj.block hobj, rfl, rfl⟩, rfl, fun o' alarm' ho' => ?_⟩
    obtain ⟨y, hy, -, -, -, -, hdue⟩ := (hs'.agreed o' alarm').1 ho'
    rw [hrest] at hy hordered
    rw [← hdue]
    rcases List.mem_cons.1 hy with rfl | hy
    · exact Nat.le_refl _
    · exact (List.pairwise_cons.1 hordered).1 y hy

theorem Watched.punctual (hs : s.Watched w) {op : AlarmOp} {w' : Alarms}
    (h : alarming.step s op = some s') : Punctual (s, w) op (s', w') where
  called now hc hc' := by
    rcases step_walking hc h with hwalk | hvisit
    · exact absurd (hwalk.symm.trans hc') (by simp)
    · exact hs.called hc hvisit hc'
  executed now hc hc' o alarm ho := by
    rcases step_walking hc h with hwalk | hvisit
    · exact absurd (hwalk.symm.trans hc') (by simp)
    · exact hs.executed hc hvisit hc' ho
  setInterval self interval hop := by
    subst hop
    obtain ⟨hmem, h⟩ := Option.ite_none_right_eq_some.1 h
    exact (hs.setInterval (idleCall_eq_some h).1 hmem).2
  reset self hop := by
    subst hop
    obtain ⟨hmem, h⟩ := Option.ite_none_right_eq_some.1 h
    exact (hs.reset (idleCall_eq_some h).1 hmem).2
  timeout hop := by
    subst hop
    exact hs.foretells (idleCall_eq_some h).1

end Schedule

open Schedule

/-- In a run in which blocks only raise in the first entry their `execute`
    visits, the timers go by the account which the program keeps of its alarms. -/
theorem punctual_of_along {ops : List AlarmOp} (h : alarming.Along FirstRaises {} ops) :
    (alarming.observed account).Throughout Punctual ({}, fun _ => none) ops := by
  refine (Machine.along_observed h).imp (I := fun x => x.1.Watched x.2) watched_empty ?_
  intro x op x' hx hstep hop
  obtain ⟨hstep, hw⟩ := Machine.step_observed hstep
  exact ⟨hw ▸ hx.step hstep hop, hx.punctual hstep⟩

/-- The block of the first timer raises, and then is called again. This time, it
    cancels the second timer, and returns. Then the first timer gets another
    interval. -/
theorem punctual_again :
    let ops : List AlarmOp := [.op (.add 10 (some 7) true), .op (.add 20 (some 8) true),
      .op (.tick 10), .op .execute, .op .visit, .op .blockRaise, .op .execute, .op .visit,
      .op (.cancel 1), .op .blockReturn, .op .visit, .op .visit, .op (.tick 3), .reset 1,
      .setInterval 0 30, .timeout]
    (alarming.observed account).Throughout Punctual ({}, fun _ => none) ops ∧
    ((alarming.observed account).run ({}, fun _ => none) ops).map
      (fun x => (x.1.timing.entered, x.2 0, x.2 1, (timersTimeout x.1.timing).1.toOption)) =
        some ([some ⟨0, 7, some 1⟩, some ⟨0, 7, some 1⟩], some ⟨7, 30, 43⟩, none, some 30) := by
  intro ops
  refine ⟨punctual_of_along ?_, rfl⟩
  simp only [ops, Machine.Along, Machine.Throughout, FirstRaises, First, true_and, implies_true,
    and_true]
  intro s₁ h₁ s₂ h₂ s₃ h₃ s₄ h₄ s₅ h₅
  obtain rfl := Option.some.inj h₁
  obtain rfl := Option.some.inj h₂
  obtain rfl := Option.some.inj h₃
  obtain rfl := Option.some.inj h₄
  obtain rfl := Option.some.inj h₅
  exact fun _ _ => rfl

end MrubyZmq
