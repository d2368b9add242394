import Mathlib.Tactic.Common

/-!
# Traces

What was done to the outside world, in order, is a list. It is lawful if each
of its entries was allowed after those before it; a trace which only grows stays
unlawful once it is.
-/

namespace MrubyZmq

variable {α : Type*}

/-- Each entry of the trace is allowed after the entries `past` and those
    before it. -/
def Lawful (Allowed : List α → α → Prop) : (past : List α) → List α → Prop
  | _, [] => True
  | past, a :: l => Allowed past a ∧ Lawful Allowed (past ++ [a]) l

variable {Allowed : List α → α → Prop} {past l m : List α} {a : α}

@[simp] theorem lawful_nil : Lawful Allowed past [] := trivial

@[simp] theorem lawful_cons :
    Lawful Allowed past (a :: l) ↔ Allowed past a ∧ Lawful Allowed (past ++ [a]) l :=
  Iff.rfl

theorem lawful_append :
    Lawful Allowed past (l ++ m) ↔ Lawful Allowed past l ∧ Lawful Allowed (past ++ l) m := by
  induction l generalizing past with
  | nil => simp
  | cons a l ih => rw [List.cons_append, lawful_cons, ih, lawful_cons, and_assoc,
      List.append_assoc, List.singleton_append]

/-- What holds of a lawful trace, by going through it. -/
theorem Lawful.induction {P : List α → Prop} (h : Lawful Allowed past l) (hpast : P past)
    (hstep : ∀ past a, P past → Allowed past a → P (past ++ [a])) : P (past ++ l) := by
  induction l generalizing past with
  | nil => rwa [List.append_nil]
  | cons a l ih =>
    rw [List.append_cons]
    exact ih h.2 (hstep past a hpast h.1)

theorem lawful_of_forall (h : ∀ k a m, l = k ++ a :: m → Allowed (past ++ k) a) :
    Lawful Allowed past l := by
  induction l generalizing past with
  | nil => trivial
  | cons a l ih =>
    refine ⟨by simpa using h [] a l rfl, ih fun k b m hl => ?_⟩
    rw [List.append_assoc]
    exact h (a :: k) b m (congrArg (a :: ·) hl)

/-- Entries which are always allowed, and do not matter for others, may be left
    out. -/
theorem lawful_filter {q : α → Bool}
    (h : ∀ past a, Allowed past a ↔ (q a = true → Allowed (past.filter q) a)) :
    Lawful Allowed (past.filter q) (l.filter q) ↔ Lawful Allowed past l := by
  induction l generalizing past with
  | nil => simp
  | cons a l ih =>
    rw [lawful_cons, ← ih, List.filter_append, List.filter_cons, h past a]
    cases hq : q a <;> simp [hq]

end MrubyZmq
