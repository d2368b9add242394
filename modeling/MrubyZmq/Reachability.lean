import Mathlib.Data.List.Basic
import Mathlib.Tactic.Common

/-!
# What a collector finds

A collector follows references from the roots, and marks what it finds. Marks
which contain the roots, and with an element all it refers to, contain whatever
is reachable (`Marks.mem`): what is not marked may be freed. Where there is any
finite set of marks, there is one of reachable elements only (`exists_marks`).
-/

namespace MrubyZmq

variable {α : Type*}

/-- The roots refer to the element, directly or indirectly. -/
inductive Reachable (edges : α → List α) (roots : List α) : α → Prop
  | root {a : α} : a ∈ roots → Reachable edges roots a
  | edge {a b : α} : Reachable edges roots a → b ∈ edges a → Reachable edges roots b

/-- The roots are marked, and so is whatever a marked element refers to. -/
structure Marks (edges : α → List α) (roots marked : List α) : Prop where
  roots : ∀ a ∈ roots, a ∈ marked
  edges : ∀ a ∈ marked, ∀ b ∈ edges a, b ∈ marked

variable {edges : α → List α} {roots marked all : List α} {a : α}

theorem marks_iff : Marks edges roots marked ↔
    (∀ a ∈ roots, a ∈ marked) ∧ ∀ a ∈ marked, ∀ b ∈ edges a, b ∈ marked :=
  ⟨fun h => ⟨h.roots, h.edges⟩, fun h => ⟨h.1, h.2⟩⟩

instance [DecidableEq α] : Decidable (Marks edges roots marked) :=
  decidable_of_iff' _ marks_iff

/-- What is reachable is marked. -/
theorem Marks.mem (h : Marks edges roots marked) (ha : Reachable edges roots a) : a ∈ marked := by
  induction ha with
  | root ha => exact h.roots _ ha
  | edge _ hb ih => exact h.edges _ ih _ hb

open Classical in
/-- The collector need not mark what is not reachable. -/
theorem exists_marks (h : Marks edges roots all) :
    ∃ marked, Marks edges roots marked ∧ ∀ a ∈ marked, Reachable edges roots a := by
  refine ⟨all.filter fun a => decide (Reachable edges roots a), ⟨fun a ha => ?_, ?_⟩, ?_⟩
  · exact List.mem_filter.2 ⟨h.roots a ha, decide_eq_true (.root ha)⟩
  · intro a ha b hb
    obtain ⟨ha, hreach⟩ := List.mem_filter.1 ha
    refine List.mem_filter.2 ⟨h.edges a ha b hb, decide_eq_true ?_⟩
    exact .edge (of_decide_eq_true hreach) hb
  · intro a ha
    exact of_decide_eq_true (List.mem_filter.1 ha).2

end MrubyZmq
