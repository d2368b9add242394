import Mathlib.Tactic.Common

/-!
# Machines and their runs

A *machine* is a state with operations, each taking a state to the next one
where it can happen. A *run* is a list of operations made one after the other.
What is said about runs is said about their steps (`Throughout`): of the state
before, the operation and the state after.

* `Along`: a condition on the state before each operation, i.e., on how the
  machine is used;
* `Always`: an invariant, which holds in every state the run goes through.

`always_of_along` is the induction over runs, once and for all: an invariant
which every step meeting a condition preserves, holds in every run along which
the condition holds. Where a step keeps a property *only* if it meets the
condition, the condition is exact, also for whole runs (`always_iff_along`).
-/

namespace MrubyZmq

/-- A machine on the states `σ` with the operations `ι`: the next state, or
    `none` where the operation cannot happen. -/
structure Machine (σ ι : Type*) where
  /-- What an operation does. -/
  step : σ → ι → Option σ

namespace Machine

variable {σ ι : Type*} (m : Machine σ ι)

/-- The state after the operations `l`, one after the other. -/
def run : σ → List ι → Option σ
  | s, [] => some s
  | s, i :: l => (m.step s i).bind fun s' => run s' l

/-- Every step of the run `l` from `s`, until an operation that cannot happen,
    is related by `T`. -/
def Throughout (T : σ → ι → σ → Prop) : σ → List ι → Prop
  | _, [] => True
  | s, i :: l => ∀ s', m.step s i = some s' → T s i s' ∧ Throughout T s' l

/-- Every operation of the run meets `P` in the state before it. -/
def Along (P : σ → ι → Prop) : σ → List ι → Prop := m.Throughout fun s i _ => P s i

/-- `I` holds in every state of the run. -/
def Always (I : σ → Prop) (s : σ) (l : List ι) : Prop :=
  I s ∧ m.Throughout (fun _ _ s' => I s') s l

variable {m} {s s' : σ} {i : ι} {l : List ι} {T T' : σ → ι → σ → Prop} {P : σ → ι → Prop}
  {I : σ → Prop}

@[simp] theorem run_nil : m.run s [] = some s := rfl

theorem run_cons (h : m.step s i = some s') : m.run s (i :: l) = m.run s' l := by
  rw [run, h, Option.bind_some]

theorem throughout_cons (h : m.step s i = some s') :
    m.Throughout T s (i :: l) ↔ T s i s' ∧ m.Throughout T s' l := by
  simp [Throughout, h]

theorem along_cons (h : m.step s i = some s') :
    m.Along P s (i :: l) ↔ P s i ∧ m.Along P s' l := throughout_cons h

theorem always_cons (h : m.step s i = some s') :
    m.Always I s (i :: l) ↔ I s ∧ m.Always I s' l := by
  rw [Always, Always, throughout_cons h]

/-- The induction over runs: what is known of every step, with an invariant `I`
    of the states before, may be replaced by what follows from it. -/
theorem Throughout.imp (hI : I s)
    (h : ∀ s i s', I s → m.step s i = some s' → T s i s' → I s' ∧ T' s i s')
    (hl : m.Throughout T s l) : m.Throughout T' s l := by
  induction l generalizing s with
  | nil => trivial
  | cons i l ih =>
    intro s' hs'
    obtain ⟨hT, hl⟩ := hl s' hs'
    obtain ⟨hI', hT'⟩ := h s i s' hI hs' hT
    exact ⟨hT', ih hI' hl⟩

/-- An invariant which every step meeting the condition preserves. -/
theorem always_of_along (h : ∀ s i s', I s → m.step s i = some s' → P s i → I s') (hI : I s)
    (hl : m.Along P s l) : m.Always I s l :=
  ⟨hI, hl.imp hI fun s i s' hI hs' hP => ⟨h s i s' hI hs' hP, h s i s' hI hs' hP⟩⟩

/-- An invariant which every step preserves. -/
theorem always_of_step (h : ∀ s i s', I s → m.step s i = some s' → I s') (hI : I s) :
    m.Always I s l := by
  induction l generalizing s with
  | nil => exact ⟨hI, trivial⟩
  | cons i l ih =>
    refine ⟨hI, fun s' hs' => ?_⟩
    exact ih (h s i s' hI hs')

/-- A condition which every operation meets. -/
theorem along_of_forall (h : ∀ s i, P s i) : m.Along P s l := by
  induction l generalizing s with
  | nil => trivial
  | cons i l ih => exact fun s' _ => ⟨h s i, ih⟩

/-- A property which a step keeps exactly if it meets a condition holds
    throughout a run exactly if the condition is met along it. The invariant `I`
    tells what else is known of the states in which the property holds, and `F`
    what else is known of the operations. -/
theorem always_iff_along_of {G : σ → Prop} {F : σ → ι → Prop} (hG : ∀ s, I s → G s)
    (h : ∀ s i s', I s → m.step s i = some s' → F s i → (G s' ↔ P s i))
    (h' : ∀ s i s', I s → m.step s i = some s' → F s i → P s i → I s') (hI : I s)
    (hF : m.Along F s l) : m.Always G s l ↔ m.Along P s l := by
  rw [Always, and_iff_right (hG s hI)]
  induction l generalizing s with
  | nil => exact Iff.rfl
  | cons i l ih =>
    refine forall_congr' fun s' => imp_congr_right fun hs' => ?_
    obtain ⟨hFi, hF⟩ := hF s' hs'
    refine (and_congr_left' (h s i s' hI hs' hFi)).trans (and_congr_right fun hP => ?_)
    exact ih (h' s i s' hI hs' hFi hP) hF

/-- The same, of any operations. -/
theorem always_iff_along {G : σ → Prop} (hG : ∀ s, I s → G s)
    (h : ∀ s i s', I s → m.step s i = some s' → (G s' ↔ P s i))
    (h' : ∀ s i s', I s → m.step s i = some s' → P s i → I s') (hI : I s) :
    m.Always G s l ↔ m.Along P s l :=
  always_iff_along_of (F := fun _ _ => True) hG (fun s i s' hI hs' _ => h s i s' hI hs')
    (fun s i s' hI hs' _ => h' s i s' hI hs') hI (along_of_forall fun _ _ => trivial)

/-- What holds of every step, given the invariant of the states before it. -/
theorem Always.throughout (hl : m.Always I s l)
    (h : ∀ s i s', I s → m.step s i = some s' → I s' → T s i s') : m.Throughout T s l :=
  hl.2.imp (I := I) hl.1 fun s i s' hI hs' hI' => ⟨hI', h s i s' hI hs' hI'⟩

/-- An invariant holds in the last state of a run. -/
theorem Always.of_run (hl : m.Always I s l) (hr : m.run s l = some s') : I s' := by
  induction l generalizing s with
  | nil => exact Option.some.inj hr ▸ hl.1
  | cons i l ih =>
    obtain ⟨t, ht, hr⟩ := Option.bind_eq_some_iff.1 hr
    exact ih ((always_cons ht).1 hl).2 hr

end Machine

end MrubyZmq
