import Mathlib.Tactic.Common

/-!
# Calls that return or raise

The effects of a call in Ruby, or of a C function called from it: from a state
it returns a value or raises an exception, and what it did to the state before
raising stays done.
-/

namespace MrubyZmq

/-- A call on the state `σ`, returning an `α` or raising an `ε`. -/
def Effect (ε σ α : Type) : Type := σ → Except ε α × σ

namespace Effect

variable {ε σ α β : Type}

instance : Monad (Effect ε σ) where
  pure a := fun s => (.ok a, s)
  bind x f := fun s =>
    match x s with
    | (.ok a, s') => f a s'
    | (.error e, s') => (.error e, s')

/-- Raising an exception. -/
def raise (e : ε) : Effect ε σ α := fun s => (.error e, s)

/-- `begin x; rescue => e; h e; end`. -/
def rescue (x : Effect ε σ α) (h : ε → Effect ε σ α) : Effect ε σ α := fun s =>
  match x s with
  | (.ok a, s') => (.ok a, s')
  | (.error e, s') => h e s'

/-- A value, or the exception raised while computing it. -/
def ofExcept : Except ε α → Effect ε σ α
  | .ok a => pure a
  | .error e => raise e

/-- The state. -/
def get : Effect ε σ σ := fun s => (.ok s, s)

/-- Changing the state. -/
def modify (f : σ → σ) : Effect ε σ Unit := fun s => (.ok (), f s)

variable {x : Effect ε σ α} {f : α → Effect ε σ β} {h : ε → Effect ε σ α} {s s' : σ} {a : α}
  {e : ε} {g : σ → σ}

@[simp] theorem pure_apply : (pure a : Effect ε σ α) s = (.ok a, s) := rfl

@[simp] theorem raise_apply : (raise e : Effect ε σ α) s = (.error e, s) := rfl

@[simp] theorem get_apply : (get : Effect ε σ σ) s = (.ok s, s) := rfl

@[simp] theorem modify_apply : (modify g : Effect ε σ Unit) s = (.ok (), g s) := rfl

@[simp] theorem ofExcept_ok : (ofExcept (.ok a) : Effect ε σ α) = pure a := rfl

@[simp] theorem ofExcept_error : (ofExcept (.error e) : Effect ε σ α) = raise e := rfl

theorem bind_apply : (x >>= f) s = match x s with
    | (.ok a, s') => f a s'
    | (.error e, s') => (.error e, s') := rfl

theorem bind_ok (hx : x s = (.ok a, s')) : (x >>= f) s = f a s' := by
  rw [bind_apply, hx]

theorem bind_error (hx : x s = (.error e, s')) : (x >>= f) s = (.error e, s') := by
  rw [bind_apply, hx]

theorem bind_assoc {γ : Type} (x : Effect ε σ α) (f : α → Effect ε σ β) (g : β → Effect ε σ γ) :
    (x >>= f >>= g) = x >>= fun a => f a >>= g := by
  funext s
  simp only [bind_apply]
  rcases x s with ⟨e | a, t⟩ <;> rfl

theorem pure_bind (a : α) (f : α → Effect ε σ β) : (pure a >>= f) = f a := rfl

/-- Returning afterwards changes nothing. -/
theorem bind_pure_unit (x : Effect ε σ Unit) : (x >>= fun _ => pure ()) = x := by
  funext s
  rw [bind_apply]
  rcases x s with ⟨e | _, s'⟩ <;> rfl

theorem rescue_ok (hx : x s = (.ok a, s')) : rescue x h s = (.ok a, s') := by
  rw [rescue, hx]

theorem rescue_error (hx : x s = (.error e, s')) : rescue x h s = h e s' := by
  rw [rescue, hx]

/-- A call that returns went through all its parts. -/
theorem bind_eq_ok {b : β} (hx : (x >>= f) s = (.ok b, s')) :
    ∃ a t, x s = (.ok a, t) ∧ f a t = (.ok b, s') := by
  rw [bind_apply] at hx
  split at hx
  · exact ⟨_, _, ‹_›, hx⟩
  · simp at hx

/-! ## What a call may do to the state -/

/-- The call, also if it raises, changes the state only as `R` allows. -/
def Within (R : σ → σ → Prop) (x : Effect ε σ α) : Prop := ∀ s, R s (x s).2

namespace Within

variable {R : σ → σ → Prop}

theorem pure [Std.Refl R] : Within R (pure a : Effect ε σ α) := fun s => Std.Refl.refl s

theorem raise [Std.Refl R] : Within R (raise e : Effect ε σ α) := fun s => Std.Refl.refl s

theorem ofExcept [Std.Refl R] {x : Except ε α} : Within R (ofExcept x : Effect ε σ α) := by
  cases x with
  | error e => exact raise
  | ok a => exact pure

/-- One call after the other. -/
theorem bind [IsTrans σ R] (hx : Within R x) (hf : ∀ a, Within R (f a)) :
    Within R (x >>= f) := by
  intro s
  rw [bind_apply]
  have hs := hx s
  rcases h : x s with ⟨e | a, t⟩
  · rwa [h] at hs
  · rw [h] at hs
    exact Trans.trans hs (hf a t)

end Within

end Effect

end MrubyZmq
