import Mathlib.Data.List.Pairwise
import MrubyZmq.Effect

/-!
# Writing one after the other

A write changes the state, or raises an exception and leaves it as it is. Of
several writes one after the other, those before the first that raises are done
already (`writeAll`). If the writes do not interfere (`Independent`), the state
is nevertheless as it was before, exactly if each of them on its own would have
changed nothing (`writeAll_unchanged_iff`).
-/

namespace MrubyZmq

variable {ε σ : Type}

/-- A write, or the exception it raises. -/
def write : Except ε (σ → σ) → Effect ε σ Unit
  | .ok f => Effect.modify f
  | .error e => Effect.raise e

/-- The writes one after the other. -/
def writeAll : List (Except ε (σ → σ)) → Effect ε σ Unit
  | [] => pure ()
  | w :: l => do
    write w
    writeAll l

/-- The first exception. -/
def firstError : List (Except ε (σ → σ)) → Option ε
  | [] => none
  | .ok _ :: l => firstError l
  | .error e :: _ => some e

/-- The writes before the first exception. -/
def made : List (Except ε (σ → σ)) → List (σ → σ)
  | .ok f :: l => f :: made l
  | _ => []

/-- If one of the writes raises, those before it change nothing. -/
def Unwritten (l : List (Except ε (σ → σ))) (s : σ) : Prop :=
  ∀ e, firstError l = some e → ∀ f ∈ made l, f s = s

/-- The writes may be made in any order, and more than once. -/
structure Independent (fs : List (σ → σ)) : Prop where
  comm : ∀ f ∈ fs, ∀ g ∈ fs, ∀ s, f (g s) = g (f s)
  idem : ∀ f ∈ fs, ∀ s, f (f s) = f s

variable {l : List (Except ε (σ → σ))} {fs : List (σ → σ)} {f g : σ → σ} {s s' : σ} {e : ε}

/-- The state after the writes which were made. -/
theorem writeAll_snd : (writeAll l s).2 = (made l).foldl (fun s f => f s) s := by
  induction l generalizing s with
  | nil => rfl
  | cons w l ih =>
    rcases w with e | f
    · rfl
    · exact ih

theorem writeAll_fst : (writeAll l s).1 = match firstError l with
    | some e => .error e
    | none => .ok () := by
  induction l generalizing s with
  | nil => rfl
  | cons w l ih =>
    rcases w with e | f
    · rfl
    · exact ih

/-- All the writes are made one by one. -/
theorem of_writeAll_cons {w : Except ε (σ → σ)} (h : writeAll (w :: l) s = (.ok (), s')) :
    ∃ f, w = .ok f ∧ writeAll l (f s) = (.ok (), s') := by
  rcases w with e | f
  · exact absurd (congrArg Prod.fst h) (by simp [writeAll, write, Effect.bind_apply])
  · exact ⟨f, rfl, h⟩

theorem mem_of_mem_made (hf : f ∈ made l) : .ok f ∈ l := by
  induction l with
  | nil => exact absurd hf List.not_mem_nil
  | cons w l ih =>
    rcases w with e | g
    · exact absurd hf List.not_mem_nil
    · rcases List.mem_cons.1 hf with rfl | hf
      · exact List.mem_cons_self
      · exact List.mem_cons_of_mem _ (ih hf)

/-! ## Writes which do not interfere -/

namespace Independent

/-- It is enough that any two of the writes commute, and each is made as well
    twice as once. -/
theorem of_pairwise (hcomm : l.Pairwise fun v w =>
      ∀ f g, v = .ok f → w = .ok g → ∀ s, f (g s) = g (f s))
    (hidem : ∀ f, .ok f ∈ l → ∀ s, f (f s) = f s) : Independent (made l) := by
  have hsymm : Std.Symm fun v w : Except ε (σ → σ) =>
      ∀ f g, v = .ok f → w = .ok g → ∀ s, f (g s) = g (f s) :=
    ⟨fun v w h f g hf hg s => (h g f hg hf s).symm⟩
  have hself : ∀ w ∈ l, ∀ f g, w = .ok f → w = .ok g → ∀ s, f (g s) = g (f s) := by
    intro w _ f g hf hg s
    rw [Except.ok.inj (hf.symm.trans hg)]
  have hall := List.Pairwise.forall_of_forall hself hcomm
  exact
    { comm := fun f hf g hg => hall (mem_of_mem_made hf) (mem_of_mem_made hg) f g rfl rfl
      idem := fun f hf => hidem f (mem_of_mem_made hf) }

theorem tail (h : Independent (g :: fs)) : Independent fs where
  comm f hf g hg := h.comm f (List.mem_cons_of_mem _ hf) g (List.mem_cons_of_mem _ hg)
  idem f hf := h.idem f (List.mem_cons_of_mem _ hf)

/-- A write may as well be made before the others. -/
theorem foldl_comm (h : ∀ g ∈ fs, ∀ s, f (g s) = g (f s)) :
    fs.foldl (fun s f => f s) (f s) = f (fs.foldl (fun s f => f s) s) := by
  induction fs generalizing s with
  | nil => rfl
  | cons g fs ih =>
    rw [List.foldl_cons, List.foldl_cons, ← h g List.mem_cons_self]
    exact ih fun g hg => h g (List.mem_cons_of_mem _ hg)

/-- A write which is made anyway makes no difference before. -/
theorem foldl_absorb (h : Independent fs) (hf : f ∈ fs) :
    fs.foldl (fun s f => f s) (f s) = fs.foldl (fun s f => f s) s := by
  induction fs generalizing s with
  | nil => exact absurd hf List.not_mem_nil
  | cons g fs ih =>
    rw [List.foldl_cons, List.foldl_cons]
    rcases List.mem_cons.1 hf with rfl | hfs
    · rw [h.idem f hf]
    · rw [h.comm g List.mem_cons_self f hf, ih h.tail hfs]

/-- Independent writes change nothing together exactly if none of them does. -/
theorem foldl_eq_self_iff (h : Independent fs) :
    fs.foldl (fun s f => f s) s = s ↔ ∀ f ∈ fs, f s = s := by
  constructor
  · intro hs f hf
    calc f s = f (fs.foldl (fun s f => f s) s) := by rw [hs]
      _ = fs.foldl (fun s f => f s) (f s) := (foldl_comm fun g hg => h.comm f hf g hg).symm
      _ = fs.foldl (fun s f => f s) s := h.foldl_absorb hf
      _ = s := hs
  · intro hs
    induction fs with
    | nil => rfl
    | cons f fs ih =>
      rw [List.foldl_cons, hs f List.mem_cons_self]
      exact ih h.tail fun g hg => hs g (List.mem_cons_of_mem _ hg)

end Independent

/-- If one of the writes raises, the state is as before exactly if none of those
    made before it changes anything. -/
theorem writeAll_unchanged_iff (h : Independent (made l)) :
    (∀ e s', writeAll l s = (.error e, s') → s' = s) ↔ Unwritten l s := by
  constructor
  · intro hs e he
    have herror : writeAll l s = (.error e, (made l).foldl (fun s f => f s) s) := by
      ext1
      · rw [writeAll_fst, he]
      · exact writeAll_snd
    exact h.foldl_eq_self_iff.1 (hs e _ herror)
  · intro hs e s' hw
    have hfst := @writeAll_fst _ _ l s
    have hsnd := @writeAll_snd _ _ l s
    rw [hw] at hfst hsnd
    rcases he : firstError l with _ | e'
    · rw [he] at hfst
      exact absurd hfst (by simp)
    · exact hsnd.trans (h.foldl_eq_self_iff.2 (hs e' he))

end MrubyZmq
