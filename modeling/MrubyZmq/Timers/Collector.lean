import MrubyZmq.Machine
import MrubyZmq.Reachability
import MrubyZmq.Timers

/-!
# Timers and the collector

The C argument of a `Timer` holds its collection and its block, where the
collector does not look. The block is an instance variable of the `Timer` as
well, but nothing else keeps the `ZMQ::Timers` alive which the `Timer` is used
with: it may be freed as soon as the program drops it.

A `Timer` that has not been freed and has a data pointer should have a
collection that has not been freed, so that no call acts on a freed one
(`Backed`). As no object refers to a `ZMQ::Timers` but by a reference of the
program (`reachable_timers_iff`), it is the program that has to keep it
(`backed_iff_along`):

* where the collector frees at once whatever is not reachable, as long as one of
  its `Timer`s is reached (`Accompanied`);
* where it may free any part of that, until all of its `Timer`s have been freed or
  cancelled (`Held`).
-/

namespace MrubyZmq

/-- An object of the Ruby heap. -/
inductive RBasic
  /-- A `ZMQ::Timers`. -/
  | timers (n : ℕ)
  /-- Its instance variable `timers`. -/
  | hash (n : ℕ)
  | timer (o : ℕ)
  | block (b : ℕ)
  deriving DecidableEq, Repr

/-- A collection which a call gave to libzmq, and whether it had been freed. -/
structure Touch where
  timers : ℕ
  freed : Bool
  deriving DecidableEq, Repr

/-- The timers of an interpreter with its collector. -/
structure Collecting where
  timing : Timing Unit := { zmq := () }
  /-- The number of the next `ZMQ::Timers`. -/
  next : ℕ := 0
  /-- What the program refers to. -/
  roots : List RBasic := []
  /-- References the program has made, as from the variables of a block. -/
  links : List (RBasic × RBasic) := []
  freed : List RBasic := []
  touched : List Touch := []

/-- What may happen. Where libzmq is called, the result is given. -/
inductive CollectOp
  | new
  | add (timers : ℕ) (interval : ℤ) (block id memory : Option ℕ)
  | cancel (self : ℕ) (ok : Bool)
  | setInterval (self : ℕ) (interval : ℤ) (ok : Bool)
  | reset (self : ℕ) (ok : Bool)
  /-- The program takes and drops references. -/
  | refer (roots : List RBasic) (links : List (RBasic × RBasic))
  /-- The collector frees what it has not marked. -/
  | collect (dead marked : List RBasic)

namespace Timing

variable {τ : Type} (s : Timing τ)

/-- The collection stored in the C argument of a `Timer` with a data pointer. -/
def collectionOf (o : ℕ) : Option ℕ := ((s.objs o).data.bind s.args).map (·.timers)

/-- The data pointers are those which `add` gives the objects. -/
def Own : Prop := ∀ o p, (s.objs o).data = some p → p = o ∧ o < s.next

/-- The C argument is the one of a `Timer` that is freed. -/
def frees (dead : List RBasic) (p : ℕ) : Bool :=
  dead.any fun c => match c with
    | .timer o => (s.objs o).data = some p
    | _ => false

/-- `mrb_free` of the C arguments of the `Timer`s that are freed. -/
def sweep (dead : List RBasic) : Timing τ :=
  { s with args := fun p => if s.frees dead p then none else s.args p }

end Timing

namespace Collecting

variable (s : Collecting)

/-- What an object refers to by its instance variables, or as a Hash. -/
def fields : RBasic → List RBasic
  | .timers n => [.hash n]
  | .hash n => (s.timing.returned.filter fun t =>
      t.2.1 = n ∧ s.timing.hash t.2 = some t.1).map fun t => .timer t.1
  | .timer o => (s.timing.objs o).block.toList.map .block
  | .block _ => []

/-- What an object refers to. -/
def edges (c : RBasic) : List RBasic := s.fields c ++ (s.links.filter fun l => l.1 = c).map (·.2)

/-- The object has been allocated. The blocks are the program's. -/
def Allocated : RBasic → Prop
  | .timers n | .hash n => n < s.next
  | .timer o => o < s.timing.next
  | .block _ => True

instance : (c : RBasic) → Decidable (s.Allocated c)
  | .timers n | .hash n => inferInstanceAs (Decidable (n < s.next))
  | .timer o => inferInstanceAs (Decidable (o < s.timing.next))
  | .block _ => inferInstanceAs (Decidable True)

/-- The object has been allocated, and not been freed. -/
def Alive (c : RBasic) : Prop := s.Allocated c ∧ c ∉ s.freed

instance (c : RBasic) : Decidable (s.Alive c) := inferInstanceAs (Decidable (_ ∧ _))

/-- A call on a `Timer` takes its collection from the C argument. -/
def touch (o : ℕ) : Collecting :=
  { s with
    touched := s.touched ++
      (s.timing.collectionOf o).toList.map fun n => ⟨n, .timers n ∈ s.freed⟩ }

/-- `ZMQ::Timers#add`. What it returns is referred to. -/
def add (timers : ℕ) (interval : ℤ) (block id memory : Option ℕ) : Collecting :=
  let r := Timing.timersAdd timers interval block memory (fun _ _ => id.map fun id => (id, ()))
    s.timing
  { s with
    timing := r.2
    roots := match r.1 with
      | .ok timer => .timer timer :: s.roots
      | .error _ => s.roots }

/-- What the program refers to has not been freed. -/
structure Tidy : Prop where
  own : s.timing.Own
  /-- The C arguments hold collections there have been. -/
  stored : ∀ o n, s.timing.collectionOf o = some n → n < s.next
  alive : ∀ c ∈ s.roots, s.Alive c
  allocated : ∀ c ∈ s.freed, s.Allocated c

/-- Every `Timer` that has not been freed and has a data pointer has a
    collection that has not been freed, and so had those which calls were made
    on. -/
structure Backed : Prop where
  timers : ∀ o n, .timer o ∉ s.freed → s.timing.collectionOf o = some n → .timers n ∉ s.freed
  touched : ∀ t ∈ s.touched, t.freed = false

/-- The program itself refers to the object: it is a root, or referred to by a
    reference which the program has made from what it reaches. -/
def Referred (c : RBasic) : Prop :=
  c ∈ s.roots ∨ ∃ b, Reachable s.edges s.roots b ∧ (b, c) ∈ s.links

/-- A collection frees all that is not reachable, but perhaps for blocks. -/
def Full (s : Collecting) : CollectOp → Prop
  | .collect dead _ => ∀ c, (∀ b, c ≠ .block b) → s.Alive c → ¬Reachable s.edges s.roots c →
      c ∈ dead
  | _ => True

/-- When the collector runs, the program refers to the collection of each `Timer`
    which it reaches. -/
def Accompanied (s : Collecting) : CollectOp → Prop
  | .collect _ _ => ∀ o n, .timer o ∉ s.freed → s.timing.collectionOf o = some n →
      Reachable s.edges s.roots (.timer o) → s.Referred (.timers n)
  | _ => True

/-- When the collector runs, the program refers to the collection of each `Timer`
    which has not been freed. -/
def Held (s : Collecting) : CollectOp → Prop
  | .collect _ _ => ∀ o n, .timer o ∉ s.freed → s.timing.collectionOf o = some n →
      s.Referred (.timers n)
  | _ => True

end Collecting

open Timing Collecting in
/-- A program using timers, and the collector. A call is made on what the
    program refers to. -/
def collecting : Machine Collecting CollectOp where
  step s
    | .new => some { s with next := s.next + 1, roots := .timers s.next :: s.roots }
    | .add timers interval block id memory =>
      if .timers timers ∈ s.roots ∧ ∀ b ∈ block, .block b ∉ s.freed then
        some (s.add timers interval block id memory)
      else none
    | .cancel self ok =>
      if .timer self ∈ s.roots then
        some
          { s.touch self with
            timing := (timerCancel self (fun _ z => if ok then some z else none) s.timing).2 }
      else none
    | .setInterval self interval ok =>
      if .timer self ∈ s.roots then
        -- An interval that does not fit raises before the C argument is read.
        some
          { (if FitsSize interval then s.touch self else s) with
            timing := (timerSetInterval self interval
              (fun _ z => if ok then some z else none) s.timing).2 }
      else none
    | .reset self ok =>
      if .timer self ∈ s.roots then
        some
          { s.touch self with
            timing := (timerReset self (fun _ z => if ok then some z else none) s.timing).2 }
      else none
    | .refer roots links =>
      if (∀ c ∈ roots, s.Alive c) ∧ ∀ l ∈ links, s.Alive l.2 then some { s with roots, links }
      else none
    | .collect dead marked =>
      if Marks s.edges s.roots marked ∧ ∀ c ∈ dead, s.Alive c ∧ c ∉ marked then
        some { s with timing := s.timing.sweep dead, freed := s.freed ++ dead }
      else none

/-- Whatever the collector may free, the `Timer`s are backed. -/
def Collecting.Secure (s : Collecting) : CollectOp → Prop
  | .collect _ _ => ∀ dead marked s', collecting.step s (.collect dead marked) = some s' →
      s'.Backed
  | _ => True

/-! ## What the functions do -/

namespace Timing

variable {τ : Type} {s : Timing τ} {n b o self : ℕ} {interval : ℤ} {block memory : Option ℕ}
  {zmqTimersAdd : (arg : ℕ) → τ → Option (ℕ × τ)} {r : Option (ℕ × τ)}
  {call : TimerKey → τ → Option τ} {dead : List RBasic}

theorem timersAdd_cases : (timersAdd n interval block memory zmqTimersAdd s).2 = s ∨
    ∃ b r, (timersAdd n interval block memory zmqTimersAdd s).2 = s.added n b memory r := by
  by_cases h : ¬FitsSize interval ∨ block = none
  · exact .inl (timersAdd_raise h)
  · push Not at h
    obtain ⟨hinterval, hblock⟩ := h
    obtain ⟨b, rfl⟩ := Option.ne_none_iff_exists'.1 hblock
    exact .inr ⟨b, _, timersAdd_snd hinterval⟩

theorem added_objs : (s.added n b memory r).objs =
    Function.update s.objs s.next { data := some s.next, block := some b } := by
  rcases r with _ | ⟨id, zmq⟩ <;> rfl

theorem added_next : (s.added n b memory r).next = s.next + 1 := by
  rcases r with _ | ⟨id, zmq⟩ <;> rfl

/-- `add` returns the new object. -/
theorem timersAdd_ok (h : (timersAdd n interval block memory zmqTimersAdd s).1 = .ok o) :
    o = s.next ∧ (timersAdd n interval block memory zmqTimersAdd s).2.next = s.next + 1 := by
  by_cases hinterval : FitsSize interval
  · rcases block with _ | b
    · simp only [timersAdd, assertSize_of_fits hinterval] at h
      exact absurd h (by simp [Effect.bind_apply])
    · rw [timersAdd_snd hinterval, added_next]
      refine ⟨?_, rfl⟩
      simp only [timersAdd, assertSize_of_fits hinterval] at h
      rcases hadd : zmqTimersAdd s.next s.zmq with _ | ⟨id, zmq⟩
      · exact absurd h (by simp [Effect.bind_apply, newTimer, zmqCall, hadd])
      · simp only [Effect.bind_apply, newTimer, zmqCall, hadd, Effect.pure_apply,
          Effect.get_apply, Effect.modify_apply] at h
        exact (Except.ok.inj h).symm
  · simp only [timersAdd, assertSize_of_not_fits hinterval] at h
    exact absurd h (by simp [Effect.bind_apply])

theorem added_args {p : ℕ} (hp : p ≠ s.next) : (s.added n b memory r).args p = s.args p := by
  rcases r with _ | ⟨id, zmq⟩
  · exact newTimer_args hp
  · exact (register_args hp).trans (newTimer_args hp)

theorem added_args_next : ((s.added n b memory r).args s.next).map (·.timers) = some n := by
  rcases r with _ | ⟨id, zmq⟩
  · rw [added, newTimer_args_next, Option.map_some]
  · rw [added, register_args_self, Option.map_map]
    exact congrArg _ (newTimer_args_next (s := s))

theorem own_added (hs : s.Own) : (s.added n b memory r).Own := by
  intro o p
  rw [added_objs, added_next]
  by_cases ho : o = s.next
  · subst ho
    rw [Function.update_self]
    intro hp
    exact ⟨(Option.some.inj hp).symm, Nat.lt_succ_self _⟩
  · rw [Function.update_of_ne ho]
    exact fun hp => ⟨(hs o p hp).1, Nat.lt_succ_of_lt (hs o p hp).2⟩

theorem collectionOf_added_next : (s.added n b memory r).collectionOf s.next = some n := by
  rw [collectionOf, added_objs, Function.update_self, Option.bind_some, added_args_next]

theorem collectionOf_added (hs : s.Own) (ho : o ≠ s.next) :
    (s.added n b memory r).collectionOf o = s.collectionOf o := by
  rw [collectionOf, added_objs, Function.update_of_ne ho, collectionOf]
  rcases hdata : (s.objs o).data with _ | p
  · rfl
  · obtain ⟨rfl, hlt⟩ := hs o p hdata
    rw [Option.bind_some, Option.bind_some, added_args ho]

/-- Cancelling a `Timer` gives no other a collection. -/
theorem collectionOf_forget {p : ℕ} {key : Option TimerKey} {m : ℕ}
    (h : (s.forget self p key).collectionOf o = some m) : s.collectionOf o = some m := by
  obtain ⟨arg, harg, rfl⟩ := Option.map_eq_some_iff.1 h
  obtain ⟨q, hq, harg⟩ := Option.bind_eq_some_iff.1 harg
  by_cases ho : o = self
  · rw [ho, forget_objs_self] at hq
    exact absurd hq (by simp)
  · rw [forget_objs ho] at hq
    by_cases hp : q = p
    · -- The argument at `p` is freed, whoever has it as data pointer.
      rw [hp, forget_args_self] at harg
      exact absurd harg (by simp)
    · rw [forget_args hp] at harg
      rw [collectionOf, hq, Option.bind_some, harg, Option.map_some]

theorem own_forget {p : ℕ} {key : Option TimerKey} (hs : s.Own) : (s.forget self p key).Own := by
  intro o q hq
  by_cases ho : o = self
  · rw [ho, forget_objs_self] at hq
    exact absurd hq (by simp)
  · rw [forget_objs ho] at hq
    exact hs o q hq

theorem frees_iff (hs : s.Own) (ho : (s.objs o).data = some o) :
    s.frees dead o = true ↔ .timer o ∈ dead := by
  rw [frees, List.any_eq_true]
  constructor
  · rintro ⟨c, hc, hdata⟩
    rcases c with n | n | o' | b
    · exact absurd hdata Bool.false_ne_true
    · exact absurd hdata Bool.false_ne_true
    · rwa [(hs o' o (of_decide_eq_true hdata)).1]
    · exact absurd hdata Bool.false_ne_true
  · intro h
    exact ⟨_, h, decide_eq_true ho⟩

/-- What the calls on a `Timer` may do: at most, it is cancelled. -/
structure Lessened (s s' : Timing τ) : Prop where
  next : s'.next = s.next
  own : s.Own → s'.Own
  collectionOf : ∀ o n, s'.collectionOf o = some n → s.collectionOf o = some n

theorem Lessened.refl (zmq : τ) : Lessened s { s with zmq } := ⟨rfl, id, fun _ _ h => h⟩

theorem lessened_cancel : Lessened s (timerCancel self call s).2 := by
  rcases timerCancel_cases (s := s) with h | ⟨p, zmq, h⟩
  · rw [h]
    exact .refl s.zmq
  · rw [h]
    exact ⟨rfl, fun hs => own_forget (s := { s with zmq }) hs, fun o n h =>
      collectionOf_forget (s := { s with zmq }) h⟩

theorem lessened_reset : Lessened s (timerReset self call s).2 := by
  rw [timerReset_snd]
  exact .refl _

theorem lessened_setInterval : Lessened s (timerSetInterval self interval call s).2 := by
  rw [timerSetInterval_snd]
  split
  · exact .refl _
  · exact .refl s.zmq

/-- A `Timer` has its C argument as long as it has not been freed. -/
theorem collectionOf_sweep (hs : s.Own) :
    (s.sweep dead).collectionOf o = if .timer o ∈ dead then none else s.collectionOf o := by
  rw [collectionOf, collectionOf, sweep]
  rcases hdata : (s.objs o).data with _ | p
  · exact (ite_self none).symm
  · obtain ⟨rfl, -⟩ := hs o p hdata
    rw [Option.bind_some, Option.bind_some]
    by_cases hdead : .timer p ∈ dead
    · simp only [(frees_iff hs hdata).2 hdead, hdead, if_true, Option.map_none]
    · have hfrees : s.frees dead p = false :=
        Bool.eq_false_iff.2 fun h => hdead ((frees_iff hs hdata).1 h)
      simp only [hfrees, hdead, if_false, Bool.false_eq_true]

end Timing

namespace Collecting

variable {s s' : Collecting} {op : CollectOp} {c : RBasic} {n o self : ℕ}

/-! ## The collector -/

variable (s) in
/-- What the program refers to, and what `add` has returned. -/
def known : List RBasic :=
  s.roots ++ s.links.map (·.2) ++ s.timing.returned.map fun t => .timer t.1

theorem mem_edges {d : RBasic} (h : d ∈ s.edges c) : d ∈ s.fields c ∨ d ∈ s.known := by
  rcases List.mem_append.1 h with h | h
  · exact .inl h
  · obtain ⟨l, hl, rfl⟩ := List.mem_map.1 h
    refine .inr (List.mem_append_left _ (List.mem_append_right _ ?_))
    exact List.mem_map_of_mem (List.mem_filter.1 hl).1

/-- There is at most one object, a Hash or a block, between those which are
    known. -/
theorem mem_known_of_fields {d e : RBasic} (hd : d ∈ s.fields c) (he : e ∈ s.fields d) :
    d ∈ s.known ∨ e ∈ s.known := by
  have hhash {n : ℕ} {e : RBasic} (he : e ∈ s.fields (.hash n)) : e ∈ s.known := by
    obtain ⟨t, ht, rfl⟩ := List.mem_map.1 he
    exact List.mem_append_right _ (List.mem_map.2 ⟨t, (List.mem_filter.1 ht).1, rfl⟩)
  rcases c with n | n | o | b
  · obtain rfl := List.mem_singleton.1 hd
    exact .inr (hhash he)
  · exact .inl (hhash hd)
  · obtain ⟨b, -, rfl⟩ := List.mem_map.1 hd
    exact absurd he List.not_mem_nil
  · exact absurd hd List.not_mem_nil

/-- What is known, and what it refers to, is closed under references: two edges in
    a row, neither to what is known, do not exist. -/
theorem marks_known : Marks s.edges s.roots (s.known ++ s.known.flatMap s.edges) where
  roots c hc := List.mem_append_left _ (List.mem_append_left _ (List.mem_append_left _ hc))
  edges d hd e he := by
    have hknown {d : RBasic} (hd : d ∈ s.known) (he : e ∈ s.edges d) :
        e ∈ s.known ++ s.known.flatMap s.edges :=
      List.mem_append_right _ (List.mem_flatMap.2 ⟨d, hd, he⟩)
    rcases List.mem_append.1 hd with hd | hd
    · exact hknown hd he
    · obtain ⟨c, hc, hd⟩ := List.mem_flatMap.1 hd
      rcases mem_edges hd with hfield | hd
      · rcases mem_edges he with hfield' | he'
        · rcases mem_known_of_fields hfield hfield' with hd | he'
          · exact hknown hd he
          · exact List.mem_append_left _ he'
        · exact List.mem_append_left _ he'
      · exact hknown hd he

/-- The collector may free just what is not reachable. -/
theorem collects_iff {dead : List RBasic} :
    (∃ marked s', collecting.step s (.collect dead marked) = some s') ↔
      ∀ c ∈ dead, s.Alive c ∧ ¬Reachable s.edges s.roots c := by
  constructor
  · rintro ⟨marked, s', h⟩ c hc
    obtain ⟨⟨hmarks, hdead⟩, -⟩ := Option.ite_none_right_eq_some.1 h
    exact ⟨(hdead c hc).1, fun hreach => (hdead c hc).2 (hmarks.mem hreach)⟩
  · intro h
    obtain ⟨marked, hmarks, hreach⟩ := exists_marks (marks_known (s := s))
    refine ⟨marked, _, if_pos ⟨hmarks, fun c hc => ⟨(h c hc).1, fun hmem => ?_⟩⟩⟩
    exact (h c hc).2 (hreach c hmem)

/-- No object refers to a collection but by a reference of the program: the C
    argument of a `Timer` does not count. -/
theorem reachable_timers_iff :
    Reachable s.edges s.roots (.timers n) ↔ s.Referred (.timers n) := by
  constructor
  · intro h
    cases h with
    | root h => exact .inl h
    | @edge b _ hb h =>
      rcases List.mem_append.1 h with h | h
      · rcases b with m | m | o | b
        · exact absurd (List.mem_singleton.1 h) (by simp)
        · obtain ⟨t, -, ht⟩ := List.mem_map.1 h
          exact absurd ht (by simp)
        · obtain ⟨b, -, ht⟩ := List.mem_map.1 h
          exact absurd ht (by simp)
        · exact absurd h List.not_mem_nil
      · obtain ⟨l, hl, heq⟩ := List.mem_map.1 h
        obtain ⟨hl, hfrom⟩ := List.mem_filter.1 hl
        obtain rfl : l = (b, .timers n) := Prod.ext (of_decide_eq_true hfrom) heq
        exact .inr ⟨b, hb, hl⟩
  · rintro (h | ⟨b, hb, hl⟩)
    · exact .root h
    · refine .edge hb (List.mem_append_right _ ?_)
      exact List.mem_map.2 ⟨_, List.mem_filter.2 ⟨hl, decide_eq_true rfl⟩, rfl⟩

/-! ## Steps -/

theorem Allocated.mono (hnext : s.next ≤ s'.next) (htimer : s.timing.next ≤ s'.timing.next)
    (h : s.Allocated c) : s'.Allocated c := by
  rcases c with n | n | o | b
  · exact Nat.lt_of_lt_of_le h hnext
  · exact Nat.lt_of_lt_of_le h hnext
  · exact Nat.lt_of_lt_of_le h htimer
  · trivial

/-- Allocating objects, and referring to what has not been freed. -/
theorem Tidy.congr (hs : s.Tidy) (hown : s'.timing.Own)
    (hstored : ∀ o n, s'.timing.collectionOf o = some n → n < s'.next) (hnext : s.next ≤ s'.next)
    (htimer : s.timing.next ≤ s'.timing.next) (hfreed : s'.freed = s.freed)
    (hroots : ∀ c ∈ s'.roots, c ∈ s.roots ∨ s'.Allocated c ∧ c ∉ s.freed) : s'.Tidy where
  own := hown
  stored := hstored
  alive c hc := by
    rcases hroots c hc with hc | ⟨hallocated, hc⟩
    · exact ⟨(hs.alive c hc).1.mono hnext htimer, hfreed ▸ (hs.alive c hc).2⟩
    · exact ⟨hallocated, hfreed ▸ hc⟩
  allocated c hc := (hs.allocated c (hfreed ▸ hc)).mono hnext htimer

theorem Tidy.add (hs : s.Tidy) (hn : n < s.next) {interval : ℤ} {block id memory : Option ℕ} :
    (s.add n interval block id memory).Tidy := by
  rw [Collecting.add]
  generalize hr : Timing.timersAdd n interval block memory (fun _ _ => id.map fun id => (id, ()))
    s.timing = r
  have hstep : r.2.Own ∧ (∀ o m, r.2.collectionOf o = some m → m < s.next) ∧
      s.timing.next ≤ r.2.next := by
    rw [← hr]
    rcases Timing.timersAdd_cases (s := s.timing) with h | ⟨b, r', h⟩
    · rw [h]
      exact ⟨hs.own, hs.stored, Nat.le_refl _⟩
    · rw [h, Timing.added_next]
      refine ⟨Timing.own_added hs.own, fun o m hm => ?_, Nat.le_succ _⟩
      by_cases ho : o = s.timing.next
      · rw [ho, Timing.collectionOf_added_next] at hm
        exact Option.some.inj hm ▸ hn
      · rw [Timing.collectionOf_added hs.own ho] at hm
        exact hs.stored o m hm
  refine hs.congr hstep.1 hstep.2.1 (Nat.le_refl _) hstep.2.2 rfl fun c hc => ?_
  rcases hreturned : r.1 with err | timer
  · rw [hreturned] at hc
    exact .inl hc
  · rw [hreturned] at hc
    rcases List.mem_cons.1 hc with rfl | hc
    · -- A new object has a number which has not been freed.
      obtain ⟨rfl, hnext⟩ := Timing.timersAdd_ok (hr ▸ hreturned)
      rw [hr] at hnext
      refine .inr ⟨?_, fun hfreed => Nat.lt_irrefl _ (hs.allocated _ hfreed)⟩
      exact Nat.lt_of_lt_of_eq (Nat.lt_succ_self _) hnext.symm
    · exact .inl hc

theorem Tidy.call (hs : s.Tidy) {timing : Timing Unit} {touched : List Touch}
    (h : s.timing.Lessened timing) : Tidy { s with timing, touched } :=
  hs.congr (h.own hs.own) (fun o n hn => hs.stored o n (h.collectionOf o n hn)) (Nat.le_refl _)
    (Nat.le_of_eq h.next.symm) rfl fun _ hc => .inl hc

theorem Tidy.step (hs : s.Tidy) (h : collecting.step s op = some s') : s'.Tidy := by
  cases op with
  | new =>
    obtain rfl := Option.some.inj h
    refine hs.congr hs.own (fun o n hn => Nat.lt_succ_of_lt (hs.stored o n hn)) (Nat.le_succ _)
      (Nat.le_refl _) rfl fun c hc => ?_
    rcases List.mem_cons.1 hc with rfl | hc
    · exact .inr ⟨Nat.lt_succ_self _, fun hfreed => Nat.lt_irrefl _ (hs.allocated _ hfreed)⟩
    · exact .inl hc
  | add n interval block id memory =>
    obtain ⟨⟨hn, -⟩, h⟩ := Option.ite_none_right_eq_some.1 h
    obtain rfl := Option.some.inj h
    exact hs.add (hs.alive _ hn).1
  | cancel self ok =>
    obtain ⟨-, h⟩ := Option.ite_none_right_eq_some.1 h
    obtain rfl := Option.some.inj h
    exact hs.call Timing.lessened_cancel
  | setInterval self interval ok =>
    obtain ⟨-, h⟩ := Option.ite_none_right_eq_some.1 h
    obtain rfl := Option.some.inj h
    split
    · exact hs.call Timing.lessened_setInterval
    · exact hs.call Timing.lessened_setInterval
  | reset self ok =>
    obtain ⟨-, h⟩ := Option.ite_none_right_eq_some.1 h
    obtain rfl := Option.some.inj h
    exact hs.call Timing.lessened_reset
  | refer roots links =>
    obtain ⟨⟨hroots, -⟩, h⟩ := Option.ite_none_right_eq_some.1 h
    obtain rfl := Option.some.inj h
    refine hs.congr hs.own hs.stored (Nat.le_refl _) (Nat.le_refl _) rfl fun c hc => ?_
    exact .inr (hroots c hc)
  | collect dead marked =>
    obtain ⟨⟨hmarks, hdead⟩, h⟩ := Option.ite_none_right_eq_some.1 h
    obtain rfl := Option.some.inj h
    refine ⟨hs.own, fun o n hn => ?_, fun c hc => ⟨(hs.alive c hc).1, fun hfreed => ?_⟩,
      fun c hc => ?_⟩
    · rw [Timing.collectionOf_sweep hs.own] at hn
      exact hs.stored o n (Option.ite_none_left_eq_some.1 hn).2
    · -- The roots are marked, and what is marked is not freed.
      rcases List.mem_append.1 hfreed with hfreed | hfreed
      · exact (hs.alive c hc).2 hfreed
      · exact (hdead c hfreed).2 (hmarks.roots c hc)
    · rcases List.mem_append.1 hc with hc | hc
      · exact hs.allocated c hc
      · exact (hdead c hc).1.1

/-! ## Collections in use -/

theorem backed_iff : s.Backed ↔
    (∀ o n, .timer o ∉ s.freed → s.timing.collectionOf o = some n → .timers n ∉ s.freed) ∧
      ∀ t ∈ s.touched, t.freed = false :=
  ⟨fun h => ⟨h.timers, h.touched⟩, fun h => ⟨h.1, h.2⟩⟩

/-- A call on a `Timer` which has not been freed acts on its collection. -/
theorem Backed.touched_touch (hs : s.Backed) (hself : .timer self ∉ s.freed) :
    ∀ t ∈ (s.touch self).touched, t.freed = false := by
  intro t ht
  rcases List.mem_append.1 ht with ht | ht
  · exact hs.touched t ht
  · obtain ⟨n, hn, rfl⟩ := List.mem_map.1 ht
    exact decide_eq_false (hs.timers self n hself (Option.mem_toList.1 hn))

theorem Backed.call (hs : s.Backed) {timing : Timing Unit} {touched : List Touch}
    (h : s.timing.Lessened timing) (htouched : ∀ t ∈ touched, t.freed = false) :
    Backed { s with timing, touched } :=
  ⟨fun o n ho hn => hs.timers o n ho (h.collectionOf o n hn), htouched⟩

theorem Backed.add (hs : s.Backed) (ht : s.Tidy) (hn : .timers n ∉ s.freed) {interval : ℤ}
    {block id memory : Option ℕ} : (s.add n interval block id memory).Backed := by
  refine ⟨fun o m ho hm => ?_, hs.touched⟩
  rw [Collecting.add] at hm
  rcases Timing.timersAdd_cases (s := s.timing) with h | ⟨b, r, h⟩
  · rw [h] at hm
    exact hs.timers o m ho hm
  · rw [h] at hm
    by_cases hnext : o = s.timing.next
    · -- The new `Timer` has the collection it was added to.
      rw [hnext, Timing.collectionOf_added_next] at hm
      exact Option.some.inj hm ▸ hn
    · rw [Timing.collectionOf_added ht.own hnext] at hm
      exact hs.timers o m ho hm

/-- Only the collector leaves a `Timer` without its collection. -/
theorem Backed.step (hs : s.Backed) (ht : s.Tidy) (h : collecting.step s op = some s')
    (hop : ∀ dead marked, op ≠ .collect dead marked) : s'.Backed := by
  cases op with
  | new =>
    obtain rfl := Option.some.inj h
    exact ⟨hs.timers, hs.touched⟩
  | add n interval block id memory =>
    obtain ⟨⟨hn, -⟩, h⟩ := Option.ite_none_right_eq_some.1 h
    obtain rfl := Option.some.inj h
    exact hs.add ht (ht.alive _ hn).2
  | cancel self ok =>
    obtain ⟨hself, h⟩ := Option.ite_none_right_eq_some.1 h
    obtain rfl := Option.some.inj h
    exact hs.call Timing.lessened_cancel (hs.touched_touch (ht.alive _ hself).2)
  | setInterval self interval ok =>
    obtain ⟨hself, h⟩ := Option.ite_none_right_eq_some.1 h
    obtain rfl := Option.some.inj h
    split
    · exact hs.call Timing.lessened_setInterval (hs.touched_touch (ht.alive _ hself).2)
    · exact hs.call Timing.lessened_setInterval hs.touched
  | reset self ok =>
    obtain ⟨hself, h⟩ := Option.ite_none_right_eq_some.1 h
    obtain rfl := Option.some.inj h
    exact hs.call Timing.lessened_reset (hs.touched_touch (ht.alive _ hself).2)
  | refer roots links =>
    obtain ⟨-, h⟩ := Option.ite_none_right_eq_some.1 h
    obtain rfl := Option.some.inj h
    exact ⟨hs.timers, hs.touched⟩
  | collect dead marked => exact absurd rfl (hop dead marked)

/-- A collector that frees a collection leaves the others backed exactly if it
    frees its `Timer`s as well. -/
theorem Backed.collect_iff (hs : s.Backed) (ht : s.Tidy) {dead marked : List RBasic}
    (h : collecting.step s (.collect dead marked) = some s') : s'.Backed ↔
      ∀ o n, .timer o ∉ s.freed → s.timing.collectionOf o = some n → .timers n ∈ dead →
        .timer o ∈ dead := by
  obtain ⟨-, h⟩ := Option.ite_none_right_eq_some.1 h
  obtain rfl := Option.some.inj h
  rw [backed_iff, and_iff_left hs.touched]
  simp only [Timing.collectionOf_sweep ht.own, List.mem_append, not_or]
  constructor
  · intro h o n ho hn hdead
    by_contra hnot
    have hn' : (if .timer o ∈ dead then none else s.timing.collectionOf o) = some n := by
      rwa [if_neg hnot]
    exact (h o n ⟨ho, hnot⟩ hn').2 hdead
  · rintro h o n ⟨ho, hnot⟩ hn
    rw [if_neg hnot] at hn
    exact ⟨hs.timers o n ho hn, fun hdead => hnot (h o n ho hn hdead)⟩

/-- The collection of a `Timer` has not been freed. -/
theorem Backed.alive (hs : s.Backed) (ht : s.Tidy) (ho : .timer o ∉ s.freed)
    (hn : s.timing.collectionOf o = some n) : s.Alive (.timers n) :=
  ⟨ht.stored o n hn, hs.timers o n ho hn⟩

/-! ### Where all is freed at once -/

/-- If the collector frees all that is not reachable, a step leaves the `Timer`s
    backed exactly if those which the program reaches are accompanied. -/
theorem Backed.step_full (hs : s.Backed) (ht : s.Tidy) (h : collecting.step s op = some s')
    (hop : s.Full op) : s'.Backed ↔ s.Accompanied op := by
  cases op with
  | collect dead marked =>
    have hdead := collects_iff.1 ⟨marked, s', h⟩
    rw [hs.collect_iff ht h]
    constructor
    · intro htogether o n ho hn hreach
      rw [← reachable_timers_iff]
      by_contra hnot
      have hfreed := hop _ (fun b => by simp) (hs.alive ht ho hn) hnot
      exact (hdead _ (htogether o n ho hn hfreed)).2 hreach
    · intro haccompanied o n ho hn hcollection
      obtain ⟨arg, harg, -⟩ := Option.map_eq_some_iff.1 hn
      obtain ⟨p, hp, -⟩ := Option.bind_eq_some_iff.1 harg
      -- A `Timer` not freed with its collection would be reachable.
      refine hop _ (fun b => by simp) ⟨(ht.own o p hp).2, ho⟩ fun hreach =>
        (hdead _ hcollection).2 ?_
      exact reachable_timers_iff.2 (haccompanied o n ho hn hreach)
  | new | add | cancel | setInterval | reset | refer =>
    exact iff_of_true (hs.step ht h (by simp)) trivial

/-! ### Where any part is freed -/

/-- Whatever the collector may free, it leaves the `Timer`s backed exactly if the
    program refers to all their collections. -/
theorem Backed.secure_iff (hs : s.Backed) (ht : s.Tidy) : s.Secure op ↔ s.Held op := by
  cases op with
  | collect dead marked =>
    constructor
    · intro hsecure o n ho hn
      rw [← reachable_timers_iff]
      by_contra hnot
      -- Nothing but the collection is freed.
      obtain ⟨marked, s', h⟩ := (collects_iff (s := s)).2
        (List.forall_mem_singleton.2 ⟨hs.alive ht ho hn, hnot⟩)
      have htimer := (hs.collect_iff ht h).1 (hsecure _ _ _ h) o n ho hn List.mem_cons_self
      exact absurd (List.mem_singleton.1 htimer) (by simp)
    · intro hheld dead marked s' h
      have hdead := collects_iff.1 ⟨marked, s', h⟩
      refine (hs.collect_iff ht h).2 fun o n ho hn hcollection => ?_
      exact absurd (reachable_timers_iff.2 (hheld o n ho hn)) (hdead _ hcollection).2
  | new | add | cancel | setInterval | reset | refer => exact Iff.rfl

theorem Backed.step_secure (hs : s.Backed) (ht : s.Tidy) (h : collecting.step s op = some s')
    (hop : s.Secure op) : s'.Backed := by
  cases op with
  | collect dead marked => exact hop dead marked s' h
  | new | add | cancel | setInterval | reset | refer => exact hs.step ht h (by simp)

theorem tidy_empty : Tidy {} :=
  ⟨fun _ _ h => absurd h (by simp), fun _ _ h => absurd h (by simp [Timing.collectionOf]),
    fun _ h => absurd h List.not_mem_nil, fun _ h => absurd h List.not_mem_nil⟩

theorem backed_empty : Backed {} :=
  ⟨fun _ _ _ h => absurd h (by simp [Timing.collectionOf]), fun _ h => absurd h List.not_mem_nil⟩

end Collecting

open Collecting

/-- In a run whose collections free at once all that is not reachable, every
    `Timer` has its collection in every state exactly if the program refers to the
    collection of each `Timer` it reaches, whenever the collector runs. If the
    program refers to the collections of all `Timer`s which have not been freed,
    they are backed wherever the collector frees any part of what is not reachable;
    and only then, whatever part that may be. -/
theorem backed_iff_along (ops : List CollectOp) :
    (collecting.Along Full {} ops →
      (collecting.Always Backed {} ops ↔ collecting.Along Accompanied {} ops)) ∧
    (collecting.Along Held {} ops → collecting.Always Backed {} ops) ∧
    (collecting.Along Secure {} ops ↔ collecting.Along Held {} ops) := by
  have hempty := And.intro tidy_empty backed_empty
  refine ⟨fun hfull => ?_, fun hheld => ?_, ?_⟩
  · exact Machine.always_iff_along_of (I := fun s => s.Tidy ∧ s.Backed) (fun _ hs => hs.2)
      (fun _ _ _ hs h hop => hs.2.step_full hs.1 h hop)
      (fun _ _ _ hs h hop haccompanied =>
        ⟨hs.1.step h, (hs.2.step_full hs.1 h hop).2 haccompanied⟩) hempty hfull
  · have hback := Machine.always_of_along (I := fun s => s.Tidy ∧ s.Backed)
      (fun _ _ _ hs h hop =>
        ⟨hs.1.step h, hs.2.step_secure hs.1 h ((hs.2.secure_iff hs.1).2 hop)⟩) hempty hheld
    exact ⟨hback.1.2, hback.throughout fun _ _ _ _ _ hs' => hs'.2⟩
  · constructor
    · intro hsecure
      refine hsecure.imp (I := fun s => s.Tidy ∧ s.Backed) hempty fun s op s' hs h hop => ?_
      exact ⟨⟨hs.1.step h, hs.2.step_secure hs.1 h hop⟩, (hs.2.secure_iff hs.1).1 hop⟩
    · intro hheld
      refine hheld.imp (I := fun s => s.Tidy ∧ s.Backed) hempty fun s op s' hs h hop => ?_
      have hsecure := (hs.2.secure_iff hs.1).2 hop
      exact ⟨⟨hs.1.step h, hs.2.step_secure hs.1 h hsecure⟩, hsecure⟩

/-- The program keeps a `Timer` and drops its collection, which is freed: the
    `Timer` is reset in a freed collection. -/
theorem collection_freed :
    let ops : List CollectOp := [.new, .add 0 10 (some 0) (some 1) none, .refer [.timer 0] [],
      .collect [.timers 0, .hash 0] [.timer 0, .block 0], .reset 0 true]
    (collecting.run {} ops).map (·.touched) = some [⟨0, true⟩] ∧
    collecting.Along Full {} ops ∧ ¬collecting.Always Backed {} ops := by
  intro ops
  refine ⟨rfl, ?_, fun h => ?_⟩
  · refine (Machine.along_cons rfl).2 ⟨trivial, (Machine.along_cons rfl).2 ⟨trivial, ?_⟩⟩
    refine (Machine.along_cons rfl).2 ⟨trivial, (Machine.along_cons rfl).2 ⟨?_, ?_⟩⟩
    · -- There are one collection, its hash, and one `Timer`, which is a root.
      rintro (n | n | o | b) hblock ⟨hallocated, -⟩ hreach
      · obtain rfl := Nat.lt_one_iff.1 hallocated
        exact List.mem_cons_self
      · obtain rfl := Nat.lt_one_iff.1 hallocated
        exact List.mem_cons_of_mem _ List.mem_cons_self
      · obtain rfl := Nat.lt_one_iff.1 hallocated
        exact absurd (.root List.mem_cons_self) hreach
      · exact absurd rfl (hblock b)
    · exact (Machine.along_cons rfl).2 ⟨trivial, trivial⟩
  · have htouched := (h.of_run (rfl : collecting.run {} ops = some _)).touched
    exact absurd (htouched _ List.mem_cons_self) (by decide)

end MrubyZmq
