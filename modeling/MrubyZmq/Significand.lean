import Mathlib.Algebra.Order.Ring.Int
import Mathlib.Algebra.Order.Ring.Nat
import Mathlib.Tactic.Common

/-!
# Rounding to a significand

A binary floating point number with a significand of `p` bits holds the integers
that are a significand below `2 ^ p` times a power of two (`Exact`). Another
integer is rounded to the nearest of them: the bits below its `p` highest ones
are dropped, and the significand left is one more if they were more than half a
unit of it, or just the half of one and it is odd (`roundInt`).

Exactly the integers which need no more than `p` bits are kept
(`roundInt_eq_iff`).
-/

namespace MrubyZmq

/-- The quotient, rounded to the nearest integer, from halfway to the even one. -/
def roundDiv (n d : ℕ) : ℕ :=
  if 2 * (n % d) < d ∨ (2 * (n % d) = d ∧ n / d % 2 = 0) then n / d else n / d + 1

/-- How many bits are below the `p` highest ones. -/
def droppedBits (p n : ℕ) : ℕ := n.log2 + 1 - p

/-- A natural number, rounded to a significand of `p` bits. -/
def roundNat (p n : ℕ) : ℕ := roundDiv n (2 ^ droppedBits p n) * 2 ^ droppedBits p n

/-- An integer, rounded to a significand of `p` bits. -/
def roundInt (p : ℕ) (v : ℤ) : ℤ := v.sign * roundNat p v.natAbs

/-- The integer is a significand of `p` bits, times a power of two. -/
def Exact (p : ℕ) (v : ℤ) : Prop := ∃ m e, m < 2 ^ p ∧ v.natAbs = m * 2 ^ e

variable {p n d : ℕ} {v : ℤ}

theorem roundDiv_mul_eq_iff (hd : 0 < d) : roundDiv n d * d = n ↔ d ∣ n := by
  constructor
  · intro h
    exact ⟨roundDiv n d, h.symm.trans (Nat.mul_comm ..)⟩
  · intro h
    have hmod : n % d = 0 := Nat.mod_eq_zero_of_dvd h
    rw [roundDiv, if_pos (.inl (by rwa [hmod])), Nat.div_mul_cancel h]

theorem lt_two_pow_droppedBits : n < 2 ^ (p + droppedBits p n) := by
  have hle : n.log2 + 1 ≤ p + droppedBits p n := by
    rw [droppedBits]
    omega
  exact Nat.lt_of_lt_of_le Nat.lt_log2_self (Nat.pow_le_pow_right Nat.two_pos hle)

theorem droppedBits_le {m e : ℕ} (hm : m < 2 ^ p) (hn : n ≠ 0) (h : n = m * 2 ^ e) :
    droppedBits p n ≤ e := by
  have hlt : n < 2 ^ (p + e) := by
    rw [h, Nat.pow_add]
    exact Nat.mul_lt_mul_of_pos_right hm (Nat.two_pow_pos e)
  have hlog : n.log2 < p + e := (Nat.log2_lt hn).2 hlt
  rw [droppedBits]
  omega

/-- An integer has a significand of `p` bits exactly if the bits below are zero. -/
theorem exact_iff_dvd : Exact p v ↔ 2 ^ droppedBits p v.natAbs ∣ v.natAbs := by
  constructor
  · rintro ⟨m, e, hm, h⟩
    by_cases hv : v.natAbs = 0
    · rw [hv]
      exact Nat.dvd_zero _
    · have hbits : 2 ^ droppedBits p v.natAbs ∣ 2 ^ e :=
        Nat.pow_dvd_pow 2 (droppedBits_le hm hv h)
      exact Nat.dvd_trans hbits ⟨m, h.trans (Nat.mul_comm ..)⟩
  · rintro ⟨m, h⟩
    refine ⟨m, _, ?_, h.trans (Nat.mul_comm ..)⟩
    refine Nat.lt_of_mul_lt_mul_left (a := 2 ^ droppedBits p v.natAbs) ?_
    rw [← h, Nat.mul_comm, ← Nat.pow_add]
    exact lt_two_pow_droppedBits

theorem roundNat_eq_iff : roundNat p n = n ↔ 2 ^ droppedBits p n ∣ n :=
  roundDiv_mul_eq_iff (Nat.two_pow_pos _)

/-- Rounding keeps exactly the integers with a significand of `p` bits. -/
theorem roundInt_eq_iff : roundInt p v = v ↔ Exact p v := by
  rw [exact_iff_dvd, ← roundNat_eq_iff]
  constructor
  · intro h
    by_cases hv : v = 0
    · rw [hv]
      exact roundNat_eq_iff.2 (Nat.dvd_zero _)
    · have habs := congrArg Int.natAbs h
      rwa [roundInt, Int.natAbs_mul, Int.natAbs_sign_of_ne_zero hv, Nat.one_mul,
        Int.natAbs_natCast] at habs
  · intro h
    rw [roundInt, h, Int.sign_mul_natAbs]

end MrubyZmq
