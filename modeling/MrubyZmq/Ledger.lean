import Mathlib.Data.List.Count
import Mathlib.Tactic.Common

/-!
# Ledgers

Tokens `0, 1, 2, …` are given out one after the other. The ledger is *balanced*
if each token given out has exactly one place: it is held, or it has been
released.
-/

namespace MrubyZmq

/-- Of the tokens below `next`, each is held once or has been released once, and
    there are no others. -/
def Balanced (next : ℕ) (held released : List ℕ) : Prop :=
  ∀ t, held.count t + released.count t = if t < next then 1 else 0

variable {next next' t : ℕ} {held held' released released' k l m : List ℕ}

theorem balanced_zero : Balanced 0 [] [] := fun t => by simp

/-- Only how often a token occurs matters. -/
theorem Balanced.perm (h : Balanced next held released)
    (hperm : (held' ++ released').Perm (held ++ released)) : Balanced next held' released' := by
  intro t
  rw [← h t, ← List.count_append, ← List.count_append]
  exact hperm.count_eq t

/-- The next token is given out. -/
theorem Balanced.acquire (h : Balanced next (l ++ m) released) :
    Balanced (next + 1) (l ++ [next] ++ m) released := by
  intro t
  have ht := h t
  rw [List.count_append] at ht
  rw [List.count_append, List.count_append, List.count_singleton]
  rcases Nat.lt_trichotomy t next with hlt | rfl | hgt
  · rw [if_pos hlt] at ht
    rw [if_pos (Nat.lt_succ_of_lt hlt)]
    have hne : next ≠ t := Nat.ne_of_gt hlt
    simp only [beq_iff_eq, hne, if_false]
    omega
  · simp only [Nat.lt_irrefl, if_false] at ht
    simp only [beq_self_eq_true, if_true, Nat.lt_succ_self]
    omega
  · rw [if_neg (Nat.not_lt_of_lt hgt)] at ht
    rw [if_neg (Nat.not_lt_of_le hgt)]
    have hne : next ≠ t := Nat.ne_of_lt hgt
    simp only [beq_iff_eq, hne, if_false]
    omega

theorem Balanced.release (h : Balanced next (l ++ [t] ++ m) released) :
    Balanced next (l ++ m) (released ++ [t]) := by
  refine h.perm ?_
  rw [List.append_assoc l [t], List.append_assoc l, List.append_assoc l]
  refine List.Perm.append_left l ?_
  rw [← List.append_assoc m]
  exact List.perm_append_comm

theorem Balanced.lt_of_mem (h : Balanced next held released) (ht : t ∈ held) : t < next := by
  by_contra hlt
  have hcount := h t
  rw [if_neg hlt] at hcount
  exact Nat.ne_of_gt (List.count_pos_iff.2 ht) (Nat.eq_zero_of_add_eq_zero_right hcount)

/-- A token which is overwritten is lost: it is neither held nor released. -/
theorem Balanced.not_of_lost (h : Balanced next (l ++ [t] ++ m) released) (hk : t ∉ k)
    (hnext : next ≤ next') : ¬Balanced next' (l ++ k ++ m) released := by
  intro h'
  have hlt : t < next := h.lt_of_mem (by simp)
  have hcount := h t
  have hcount' := h' t
  rw [if_pos hlt] at hcount
  rw [if_pos (Nat.lt_of_lt_of_le hlt hnext)] at hcount'
  simp only [List.count_append, List.count_singleton_self, List.count_eq_zero_of_not_mem hk]
    at hcount hcount'
  omega

/-- When nothing is held any longer, everything has been released once. -/
theorem Balanced.count_released (h : Balanced next [] released) (ht : t < next) :
    released.count t = 1 := by
  have hcount := h t
  rwa [if_pos ht, List.count_nil, Nat.zero_add] at hcount

end MrubyZmq
