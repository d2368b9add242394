import Mathlib.Data.List.Sort
import MrubyZmq.Timers.Registry

/-!
# The table of timers

How libzmq keeps timers. Their entries are in a multimap, ordered by due time.
`zmq_timers_cancel` only marks an id. `zmq_timers_execute` walks through the
entries:

* an entry whose id is marked loses the mark, and its handler is not called;
* otherwise, at the first entry which is not due the walk ends;
* otherwise the handler is called, and then a new entry is inserted, due after
  the interval.

Only after the walk, the entries visited are erased. A block that raises leaves
`mrb_zmq_timer_fn`, and with it the walk, by a jump: they are not.
-/

namespace MrubyZmq

structure Entry where
  due : ℕ
  id : ℕ
  interval : ℤ
  arg : ℕ
  deriving DecidableEq, Repr

/-- The timers of a collection in libzmq. -/
structure Table where
  /-- The entries which the walk under way has visited. -/
  past : List Entry := []
  /-- The other entries. -/
  rest : List Entry := []
  /-- The ids marked as cancelled. -/
  marks : List ℕ := []
  lastId : ℕ := 0
  clock : ℕ := 0
  deriving DecidableEq, Repr

namespace Table

variable (t : Table)

/-- Insertion into the multimap: behind the entries due at the same time. -/
def insert (e : Entry) : Table :=
  if t.past.any fun x => e.due < x.due then
    { t with past := t.past.orderedInsert (·.due < ·.due) e }
  else { t with rest := t.rest.orderedInsert (·.due < ·.due) e }

/-- `zmq_timers_add`, which may fail. -/
def add (interval : ℤ) (ok : Bool) (arg : ℕ) : Option (ℕ × Table) :=
  if ok then
    some (t.lastId + 1,
      { t with lastId := t.lastId + 1 }.insert
        ⟨t.clock + interval.toNat, t.lastId + 1, interval, arg⟩)
  else none

def mark (id : ℕ) : Table := { t with marks := t.marks ++ [id] }

def unmark (id : ℕ) : Table := { t with marks := t.marks.erase id }

/-- `zmq_timers_cancel`. -/
def cancel (id : ℕ) : Option Table :=
  if id ∈ (t.past ++ t.rest).map (·.id) ∧ id ∉ t.marks then some (t.mark id) else none

/-- The walk goes on to the next entry. -/
def advance : Table :=
  match t.rest with
  | e :: rest => { t with past := t.past ++ [e], rest }
  | [] => t

/-- After the handler of an entry has returned, it is inserted again. -/
def again (now : ℕ) : Table :=
  match t.rest with
  | e :: _ => (t.insert { e with due := now + e.interval.toNat }).advance
  | [] => t

/-- The entries visited are erased. -/
def erase : Table := { t with past := [] }

/-- The walk is left, and nothing is erased. -/
def leave : Table := { t with past := [], rest := t.past ++ t.rest }

end Table

/-- Where the program is. -/
inductive Control
  | idle
  /-- libzmq executes timers, at the time `now`. -/
  | walking (now : ℕ)
  /-- The same, and the block of the next entry runs. -/
  | block (now : ℕ)
  deriving DecidableEq, Repr

/-- A collection of timers. -/
structure Schedule where
  timing : Timing Table := { zmq := {} }
  control : Control := .idle

namespace Schedule

variable (s : Schedule)

def setTable (t : Table) : Schedule := { s with timing := { s.timing with zmq := t } }

/-- A call by the program, if it runs. -/
def rubyCall {α : Type} (f : Effect Err (Timing Table) α) : Option Schedule :=
  match s.control with
  | .walking _ => none
  | _ => some { s with timing := (f s.timing).2 }

/-- A step of the walk. -/
def visit : Option Schedule :=
  match s.control with
  | .walking now =>
    match s.timing.zmq.rest with
    | [] => some { s.setTable s.timing.zmq.erase with control := .idle }
    | e :: _ =>
      if e.id ∈ s.timing.zmq.marks then
        some (s.setTable (s.timing.zmq.unmark e.id).advance)
      else if now < e.due then
        some { s.setTable s.timing.zmq.erase with control := .idle }
      else some { timing := s.timing.timerFn e.arg, control := .block now }
  | _ => none

/-- The block returns. -/
def blockReturn : Option Schedule :=
  match s.control with
  | .block now => some { s.setTable (s.timing.zmq.again now) with control := .walking now }
  | _ => none

/-- The block raises, and the caller of `execute` rescues. -/
def blockRaise : Option Schedule :=
  match s.control with
  | .block _ => some { s.setTable s.timing.zmq.leave with control := .idle }
  | _ => none

end Schedule

/-- The operations. -/
inductive ScheduleOp
  /-- Time passes. -/
  | tick (d : ℕ)
  | add (interval : ℤ) (block : Option ℕ) (ok : Bool)
  | cancel (self : ℕ)
  /-- `ZMQ::Timers#execute` calls libzmq. -/
  | execute
  | visit
  | blockReturn
  | blockRaise
  deriving DecidableEq, Repr

open Timing in
/-- What a program may do with a collection of timers, and libzmq while it
    executes them. -/
def schedule : Machine Schedule ScheduleOp where
  step s
    | .tick d => some (s.setTable { s.timing.zmq with clock := s.timing.zmq.clock + d })
    | .add interval block ok =>
      -- The object of an `add` that fails is not used, whatever its memory contains.
      s.rubyCall (timersAdd 0 interval block none fun arg t => t.add interval ok arg)
    | .cancel self =>
      if self ∈ s.timing.returned.map (·.1) then
        s.rubyCall (timerCancel self fun key t => t.cancel key.2)
      else none
    | .execute =>
      if s.control = .idle then some { s with control := .walking s.timing.zmq.clock } else none
    | .visit => s.visit
    | .blockReturn => s.blockReturn
    | .blockRaise => s.blockRaise

/-! ## The multimap -/

namespace Table

variable {t : Table} {e x : Entry} {l : List Entry} {now : ℕ}

/-- The entries are in order. -/
def Ordered (l : List Entry) : Prop := l.Pairwise (·.due ≤ ·.due)

theorem Ordered.insert (h : Ordered l) : Ordered (l.orderedInsert (·.due < ·.due) e) := by
  induction l with
  | nil => exact List.pairwise_singleton ..
  | cons x l ih =>
    obtain ⟨hx, hl⟩ := List.pairwise_cons.1 h
    rw [List.orderedInsert_cons]
    split
    · rename_i hlt
      refine List.pairwise_cons.2 ⟨fun y hy => ?_, h⟩
      rcases List.mem_cons.1 hy with rfl | hy
      · exact Nat.le_of_lt hlt
      · exact Nat.le_trans (Nat.le_of_lt hlt) (hx y hy)
    · refine List.pairwise_cons.2 ⟨fun y hy => ?_, ih hl⟩
      rcases (List.mem_orderedInsert _).1 hy with rfl | hy
      · exact Nat.le_of_not_lt ‹_›
      · exact hx y hy

/-- An entry which is not due before those visited comes after them. -/
theorem insert_of_le (h : ∀ x ∈ t.past, x.due ≤ e.due) :
    t.insert e = { t with rest := t.rest.orderedInsert (·.due < ·.due) e } := by
  refine if_neg ?_
  rw [List.any_eq_true]
  rintro ⟨x, hx, hlt⟩
  exact Nat.not_lt_of_le (h x hx) (of_decide_eq_true hlt)

theorem advance_eq (hrest : t.rest = e :: l) :
    t.advance = { t with past := t.past ++ [e], rest := l } := by
  rw [advance, hrest]

/-- The entries from the walk's next one on, after the handler of that has
    returned: it has been inserted again. -/
theorem again_eq (hrest : t.rest = e :: l) (hpast : ∀ x ∈ t.past, x.due ≤ now) (he : e.due ≤ now) :
    t.again now = { t with
      past := t.past ++ [e]
      rest := l.orderedInsert (·.due < ·.due) { e with due := now + e.interval.toNat } } := by
  have hle : ∀ x : Entry, x.due ≤ now → ¬now + e.interval.toNat < x.due := fun x hx =>
    Nat.not_lt_of_le (Nat.le_add_right_of_le hx)
  simp only [again, hrest]
  rw [insert_of_le fun x hx => Nat.le_of_not_lt (hle x (hpast x hx)), hrest,
    List.orderedInsert_cons, if_neg (hle e he)]
  rfl

end Table

end MrubyZmq
