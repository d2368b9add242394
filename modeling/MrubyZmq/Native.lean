import Mathlib.Data.Nat.Digits.Lemmas
import MrubyZmq.Ruby

/-!
# Numbers in the byte order of the machine

A number of `k` bytes, as a machine keeps it in memory, the lowest byte first or
last: it is read as the number that has been written (`nativeNat_nativeBytes`).
-/

namespace MrubyZmq

/-- The lowest `k` bytes of a number, in the byte order of the machine. -/
def nativeBytes (big : Bool) (k n : ℕ) : Bytes :=
  let little := (List.range k).map fun i => .ofNat (n / 256 ^ i)
  if big then little.reverse else little

/-- The number which bytes are in the byte order of the machine. -/
def nativeNat (big : Bool) (l : Bytes) : ℕ :=
  Nat.ofDigits 256 ((if big then l.reverse else l).map (·.toNat))

variable {big : Bool} {k n : ℕ}

theorem length_nativeBytes : (nativeBytes big k n).length = k := by
  cases big <;> simp [nativeBytes]

theorem ofDigits_range (h : n < 256 ^ k) :
    Nat.ofDigits 256 ((List.range k).map fun i => n / 256 ^ i % 256) = n := by
  induction k generalizing n with
  | zero => exact (Nat.lt_one_iff.1 h).symm
  | succ k ih =>
    have hdiv : n / 256 < 256 ^ k := Nat.div_lt_of_lt_mul (by rwa [← pow_succ'])
    have hrest : ((List.range k).map Nat.succ).map (fun i => n / 256 ^ i % 256) =
        (List.range k).map fun i => n / 256 / 256 ^ i % 256 := by
      rw [List.map_map]
      refine List.map_congr_left fun i _ => ?_
      rw [Function.comp_apply, Nat.div_div_eq_div_mul, ← pow_succ']
    rw [List.range_succ_eq_map, List.map_cons, hrest, Nat.ofDigits_cons, ih hdiv, pow_zero,
      Nat.div_one]
    exact Nat.mod_add_div n 256

/-- A number which `k` bytes are enough for. -/
theorem nativeNat_nativeBytes (h : n < 256 ^ k) : nativeNat big (nativeBytes big k n) = n := by
  have hlittle : ((List.range k).map fun i => UInt8.ofNat (n / 256 ^ i)).map (·.toNat) =
      (List.range k).map fun i => n / 256 ^ i % 256 := by
    rw [List.map_map]
    exact List.map_congr_left fun i _ => UInt8.toNat_ofNat'
  cases big <;> simp only [nativeNat, nativeBytes, if_true, Bool.false_eq_true, if_false,
    List.reverse_reverse, hlittle, ofDigits_range h]

end MrubyZmq
