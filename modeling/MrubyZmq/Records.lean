import Mathlib.Data.List.Basic
import Mathlib.Tactic.Common

/-!
# Sequences of records

Records which tell where they end are written one after the other, and read one
by one until nothing is left. What is written is read back if each record is,
whatever follows on it (`readAll_flatMap`).
-/

namespace MrubyZmq

variable {α β : Type*}

/-- Reading at most `n` records, which must make up the whole list. -/
def readRecords (read : List β → Option (α × List β)) : ℕ → List β → Option (List α)
  | _, [] => some []
  | 0, _ :: _ => none
  | n + 1, b :: l => (read (b :: l)).bind fun r => (readRecords read n r.2).map (r.1 :: ·)

/-- Reading records until nothing is left, each of at least one element. -/
def readAll (read : List β → Option (α × List β)) (l : List β) : Option (List α) :=
  readRecords read l.length l

variable {read : List β → Option (α × List β)} {write : α → List β} {l : List α} {n : ℕ}

theorem readRecords_flatMap (hne : ∀ a ∈ l, write a ≠ [])
    (hread : ∀ a ∈ l, ∀ rest, read (write a ++ rest) = some (a, rest))
    (hn : (l.flatMap write).length ≤ n) : readRecords read n (l.flatMap write) = some l := by
  induction l generalizing n with
  | nil => cases n <;> rfl
  | cons a l ih =>
    obtain ⟨b, k, hk⟩ := List.exists_cons_of_ne_nil (hne a List.mem_cons_self)
    have ha := hread a List.mem_cons_self (l.flatMap write)
    rw [List.flatMap_cons, hk, List.cons_append] at hn ⊢
    rw [hk, List.cons_append] at ha
    rcases n with _ | n
    · exact absurd hn (by simp)
    · have hl : (l.flatMap write).length ≤ n := by
        simp only [List.length_cons, List.length_append] at hn
        omega
      rw [readRecords, ha, Option.bind_some, ih (fun a ha => hne a (List.mem_cons_of_mem _ ha))
        (fun a ha => hread a (List.mem_cons_of_mem _ ha)) hl]
      rfl

/-- Records which are each read back are read back in a row. -/
theorem readAll_flatMap (hne : ∀ a ∈ l, write a ≠ [])
    (hread : ∀ a ∈ l, ∀ rest, read (write a ++ rest) = some (a, rest)) :
    readAll read (l.flatMap write) = some l :=
  readRecords_flatMap hne hread (Nat.le_refl _)

/-- What holds of whatever `read` returns holds of all the records. -/
theorem forall_of_readAll {P : α → Prop} (hP : ∀ m a rest, read m = some (a, rest) → P a)
    {m : List β} (h : readAll read m = some l) : ∀ a ∈ l, P a := by
  have hrecords : ∀ n m l, readRecords read n m = some l → ∀ a ∈ l, P a := by
    intro n
    induction n with
    | zero =>
      rintro (_ | ⟨b, m⟩) l h
      · obtain rfl := Option.some.inj h
        exact fun _ ha => absurd ha List.not_mem_nil
      · exact absurd h (by simp [readRecords])
    | succ n ih =>
      rintro (_ | ⟨b, m⟩) l h
      · obtain rfl := Option.some.inj h
        exact fun _ ha => absurd ha List.not_mem_nil
      · obtain ⟨⟨a, rest⟩, ha, hrest⟩ := Option.bind_eq_some_iff.1 h
        obtain ⟨k, hk, rfl⟩ := Option.map_eq_some_iff.1 hrest
        exact List.forall_mem_cons.2 ⟨hP _ _ _ ha, ih rest k hk⟩
  exact hrecords _ m l h

end MrubyZmq
