import Mathlib.Algebra.Order.Ring.Int
import Mathlib.Algebra.Order.Ring.Nat
import MrubyZmq.Effect

/-!
# Ruby values and exceptions

What the bindings see of Ruby. A value is only looked at through the methods
they call on it: whether it is true, the string it converts to, and the pairs
it iterates over; any of these may raise. All the exceptions are
`StandardError`s.
-/

namespace MrubyZmq

/-- A byte string. -/
abbrev Bytes := List UInt8

/-- The bytes of an ASCII text. -/
def ascii (text : List Char) : Bytes := text.map fun c => .ofNat c.toNat

/-- The exceptions. -/
inductive Err
  | typeError (message : String)
  | argumentError (message : String)
  | runtimeError (message : String)
  | rangeError
  | noMethodError (method : String)
  | keyError (key : String)
  /-- `LibZMQ::Error`. -/
  | libzmqError (message : String)
  /-- `ArgumentError`, `"Unknown mechanism #{mechanism.dump}"`. -/
  | unknownMechanism (mechanism : Bytes)
  /-- Raised by `mrb_zmq_handle_error` after the call of `func` failed. -/
  | libzmq (func : String)
  /-- Raised by the program's own code. -/
  | user (code : ℕ)
  deriving DecidableEq, Repr

/-- An iteration over (key, value) pairs, as converted by `String()`, which may
    raise in the end. -/
structure Each where
  pairs : List (Except Err Bytes × Except Err Bytes)
  done : Except Err Unit := .ok ()

/-- A Ruby value. -/
structure Value where
  /-- Neither `nil` nor `false`. -/
  truthy : Bool := true
  /-- `mrb_str_to_str`. -/
  toStr : Except Err Bytes
  /-- `each`, if it responds to it. -/
  each : Option Each := none

namespace Value

protected def nil : Value := { truthy := false, toStr := .ok [] }

protected def str (s : Bytes) : Value := { toStr := .ok s }

protected def int (n : ℕ) : Value := { toStr := .ok (ascii (Nat.toDigits 10 n)) }

end Value

/-- `mrb_assert_int_fit`: raises exactly if the value is not one of the target
    type, from `lo` to `hi`. -/
def assertIntFit {σ : Type} (value lo hi : ℤ) : Effect Err σ Unit :=
  if lo ≤ value ∧ value ≤ hi then pure () else Effect.raise .rangeError

/-- The value is a C `int`. -/
def FitsInt (value : ℤ) : Prop := -2 ^ 31 ≤ value ∧ value ≤ 2 ^ 31 - 1

instance (value : ℤ) : Decidable (FitsInt value) :=
  inferInstanceAs (Decidable (_ ∧ _))

/-- `mrb_assert_int_fit(mrb_int, value, int, INT_MAX)`. -/
def assertInt {σ : Type} (value : ℤ) : Effect Err σ Unit :=
  assertIntFit value (-2 ^ 31) (2 ^ 31 - 1)

/-- The value is a C `short`. -/
def FitsShort (value : ℤ) : Prop := -2 ^ 15 ≤ value ∧ value ≤ 2 ^ 15 - 1

instance (value : ℤ) : Decidable (FitsShort value) :=
  inferInstanceAs (Decidable (_ ∧ _))

/-- `mrb_assert_int_fit(mrb_int, value, short, SHRT_MAX)`. -/
def assertShort {σ : Type} (value : ℤ) : Effect Err σ Unit :=
  assertIntFit value (-2 ^ 15) (2 ^ 15 - 1)

/-- The value is a C `size_t`. -/
def FitsSize (value : ℤ) : Prop := 0 ≤ value ∧ value ≤ 2 ^ 64 - 1

instance (value : ℤ) : Decidable (FitsSize value) :=
  inferInstanceAs (Decidable (_ ∧ _))

/-- `mrb_assert_int_fit(mrb_int, value, size_t, SIZE_MAX)`. -/
def assertSize {σ : Type} (value : ℤ) : Effect Err σ Unit :=
  assertIntFit value 0 (2 ^ 64 - 1)

/-- An argument of the type `int`, after `mrb_assert_int_fit`. -/
def intArg (value : ℤ) : Except Err Int32 :=
  if FitsInt value then .ok (.ofInt value) else .error .rangeError

/-- An argument of the type `short`, after `mrb_assert_int_fit`. -/
def shortArg (value : ℤ) : Except Err Int16 :=
  if FitsShort value then .ok (.ofInt value) else .error .rangeError

variable {σ : Type} {value : ℤ} {s : σ}

theorem assertInt_of_fits (h : FitsInt value) : (assertInt value : Effect Err σ Unit) = pure () :=
  if_pos h

theorem assertInt_of_not_fits (h : ¬FitsInt value) :
    (assertInt value : Effect Err σ Unit) = Effect.raise .rangeError :=
  if_neg h

theorem assertShort_of_fits (h : FitsShort value) :
    (assertShort value : Effect Err σ Unit) = pure () :=
  if_pos h

theorem assertShort_of_not_fits (h : ¬FitsShort value) :
    (assertShort value : Effect Err σ Unit) = Effect.raise .rangeError :=
  if_neg h

theorem assertSize_of_fits (h : FitsSize value) :
    (assertSize value : Effect Err σ Unit) = pure () :=
  if_pos h

theorem assertSize_of_not_fits (h : ¬FitsSize value) :
    (assertSize value : Effect Err σ Unit) = Effect.raise .rangeError :=
  if_neg h

theorem intArg_of_fits (h : FitsInt value) : intArg value = .ok (.ofInt value) := if_pos h

theorem shortArg_of_fits (h : FitsShort value) : shortArg value = .ok (.ofInt value) := if_pos h

/-- What follows on a successful check may as well use the checked argument. -/
theorem assertInt_bind {α : Type} (f : ℤ → Effect Err σ α) :
    (assertInt value >>= fun _ => f value) =
      Effect.ofExcept (intArg value) >>= fun a => f a.toInt := by
  by_cases h : FitsInt value
  · rw [assertInt_of_fits h, intArg_of_fits h]
    funext s
    exact congrArg (f · s) (Int32.toInt_ofInt_of_le h.1 (Int.lt_of_le_sub_one h.2)).symm
  · rw [assertInt_of_not_fits h, intArg, if_neg h]
    rfl

theorem assertShort_bind {α : Type} (f : ℤ → Effect Err σ α) :
    (assertShort value >>= fun _ => f value) =
      Effect.ofExcept (shortArg value) >>= fun a => f a.toInt := by
  by_cases h : FitsShort value
  · rw [assertShort_of_fits h, shortArg_of_fits h]
    funext s
    exact congrArg (f · s) (Int16.toInt_ofInt_of_le h.1 (Int.lt_of_le_sub_one h.2)).symm
  · rw [assertShort_of_not_fits h, shortArg, if_neg h]
    rfl

theorem toInt_ofInt32_iff : (Int32.ofInt value).toInt = value ↔ FitsInt value := by
  constructor
  · intro h
    rw [← h]
    exact ⟨Int32.le_toInt _, Int.le_sub_one_of_lt (Int32.toInt_lt _)⟩
  · rintro ⟨hlo, hhi⟩
    exact Int32.toInt_ofInt_of_le hlo (Int.lt_of_le_sub_one hhi)

theorem toInt_ofInt16_iff : (Int16.ofInt value).toInt = value ↔ FitsShort value := by
  constructor
  · intro h
    rw [← h]
    exact ⟨Int16.le_toInt _, Int.le_sub_one_of_lt (Int16.toInt_lt _)⟩
  · rintro ⟨hlo, hhi⟩
    exact Int16.toInt_ofInt_of_le hlo (Int.lt_of_le_sub_one hhi)

end MrubyZmq
