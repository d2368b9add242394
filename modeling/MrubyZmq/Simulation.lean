import MrubyZmq.Machine

/-!
# Simulations

A machine `m` is *simulated* by another one `n`, along a relation `R` of their
states, if whatever a step of `m` does is done by some operations of `n`
(`Simulates`). What is known of all runs of `n` is then known of the runs of
`m`: each of them is a run of `n`, whose operations are the `image` of its own.

The steps of `m` may be required to meet a condition `P`, on how the machine is
used.

An *observer* of a machine keeps a record of what is done with it (`observed`).
-/

namespace MrubyZmq

namespace Machine

variable {σ τ ι κ : Type*}

theorem run_append {m : Machine σ ι} {s : σ} {k l : List ι} :
    m.run s (k ++ l) = (m.run s k).bind fun s' => m.run s' l := by
  induction k generalizing s with
  | nil => rfl
  | cons i k ih =>
    rw [List.cons_append, run, run, Option.bind_assoc]
    exact congrArg _ (funext fun s' => ih)

/-- The operations `ops` of each step of a run, one after the other. -/
def image (m : Machine σ ι) (ops : σ → ι → List κ) : σ → List ι → List κ
  | _, [] => []
  | s, i :: l => ops s i ++ ((m.step s i).map fun s' => image m ops s' l).getD []

/-- Steps of `m` which meet `P` do what `n` does by the operations `ops`. -/
structure Simulates (m : Machine σ ι) (n : Machine τ κ) (R : σ → τ → Prop) (P : σ → ι → Prop)
    (ops : σ → ι → List κ) : Prop where
  step : ∀ s t i s', R s t → P s i → m.step s i = some s' →
    ∃ t', n.run t (ops s i) = some t' ∧ R s' t'

namespace Simulates

variable {m : Machine σ ι} {n : Machine τ κ} {R : σ → τ → Prop} {P : σ → ι → Prop}
  {ops : σ → ι → List κ} {s s' : σ} {t : τ} {l : List ι}

/-- What a run of `m` does is done by a run of `n`. -/
theorem run (h : Simulates m n R P ops) (hR : R s t) (hl : m.Along P s l)
    (hr : m.run s l = some s') : ∃ t', n.run t (m.image ops s l) = some t' ∧ R s' t' := by
  induction l generalizing s t with
  | nil => exact ⟨t, rfl, Option.some.inj hr ▸ hR⟩
  | cons i l ih =>
    obtain ⟨s₁, hs₁, hr⟩ := Option.bind_eq_some_iff.1 hr
    obtain ⟨hP, hl⟩ := hl s₁ hs₁
    obtain ⟨t₁, ht₁, hR₁⟩ := h.step s t i s₁ hR hP hs₁
    obtain ⟨t', ht', hR'⟩ := ih hR₁ hl hr
    refine ⟨t', ?_, hR'⟩
    rw [image, hs₁, Option.map_some, Option.getD_some, run_append, ht₁, Option.bind_some, ht']

end Simulates

/-! ## Observers -/

/-- The machine with an observer, whose record `f` makes of each operation and
    the state in which it happens. -/
def observed {ω : Type*} (m : Machine σ ι) (f : σ → ι → ω → ω) : Machine (σ × ω) ι where
  step x i := (m.step x.1 i).map fun s' => (s', f x.1 i x.2)

section Observed

variable {ω : Type*} {m : Machine σ ι} {f : σ → ι → ω → ω} {x x' : σ × ω} {i : ι} {l : List ι}

theorem step_observed (h : (m.observed f).step x i = some x') :
    m.step x.1 i = some x'.1 ∧ x'.2 = f x.1 i x.2 := by
  obtain ⟨s', hs', rfl⟩ := Option.map_eq_some_iff.1 h
  exact ⟨hs', rfl⟩

/-- The observer does not change how the machine is used. -/
theorem along_observed {P : σ → ι → Prop} (h : m.Along P x.1 l) :
    (m.observed f).Along (fun x i => P x.1 i) x l := by
  induction l generalizing x with
  | nil => trivial
  | cons i l ih =>
    intro x' hx'
    obtain ⟨hP, hl⟩ := h x'.1 (step_observed hx').1
    exact ⟨hP, ih hl⟩

end Observed

/-! ## Machines of which every operation can happen -/

/-- The machine with the next states `f`. -/
def total (f : τ → κ → τ) : Machine τ κ where
  step t k := some (f t k)

theorem run_total {f : τ → κ → τ} {t : τ} {l : List κ} :
    (total f).run t l = some (l.foldl f t) := by
  induction l generalizing t with
  | nil => rfl
  | cons k l ih => exact (run_cons rfl).trans ih

theorem image_singleton {m : Machine σ ι} {g : ι → κ} {s s' : σ} {l : List ι}
    (hr : m.run s l = some s') : m.image (fun _ i => [g i]) s l = l.map g := by
  induction l generalizing s with
  | nil => rfl
  | cons i l ih =>
    obtain ⟨s₁, hs₁, hr⟩ := Option.bind_eq_some_iff.1 hr
    rw [image, hs₁, Option.map_some, Option.getD_some, ih hr]
    rfl

/-- A simulation operation by operation. -/
theorem Simulates.run_total {m : Machine σ ι} {f : τ → κ → τ} {R : σ → τ → Prop}
    {P : σ → ι → Prop} {g : ι → κ} {s s' : σ} {t : τ} {l : List ι}
    (h : Simulates m (total f) R P fun _ i => [g i]) (hR : R s t) (hl : m.Along P s l)
    (hr : m.run s l = some s') : R s' ((l.map g).foldl f t) := by
  obtain ⟨t', ht', hR'⟩ := h.run hR hl hr
  rw [image_singleton hr, Machine.run_total] at ht'
  exact Option.some.inj ht' ▸ hR'

end Machine

end MrubyZmq
