import Mathlib.Algebra.Order.Ring.Nat
import Mathlib.Data.List.Nodup
import Mathlib.Logic.Function.Basic
import Mathlib.Tactic.Common

/-!
# Data objects

A garbage collected heap of objects with a data pointer each. An object is
known by its id, which is never given out again (`Heap.nodup`, `Heap.lt`).

What is proved about the operations is what they do to the data pointers as a
list (`Heap.ptrs`).
-/

namespace MrubyZmq

/-- An object, and its data pointer. -/
structure Obj (α : Type*) where
  id : ℕ
  data : Option α := none
  deriving DecidableEq

/-- The objects which have not been swept. -/
structure Heap (α : Type*) where
  objs : List (Obj α) := []
  next : ℕ := 0
  nodup : (objs.map (·.id)).Nodup := by simp
  lt : ∀ x ∈ objs, x.id < next := by simp
  deriving DecidableEq

namespace Heap

variable {α : Type*} (h : Heap α)

/-- The object, if it is on the heap. -/
def find (o : ℕ) : Option (Obj α) := h.objs.find? (·.id = o)

/-- A new object, without data pointer. -/
def allocate : Heap α where
  objs := h.objs ++ [{ id := h.next }]
  next := h.next + 1
  nodup := by
    have hnext : h.next ∉ h.objs.map (·.id) := fun hmem => by
      obtain ⟨x, hx, hid⟩ := List.mem_map.1 hmem
      exact Nat.ne_of_lt (h.lt x hx) hid
    rw [List.map_append, List.nodup_append_comm]
    exact List.nodup_cons.2 ⟨hnext, h.nodup⟩
  lt x hx := by
    rcases List.mem_append.1 hx with hx | hx
    · exact Nat.lt_succ_of_lt (h.lt x hx)
    · rw [List.mem_singleton.1 hx]
      exact Nat.lt_succ_self _

/-- Objects with other data pointers. -/
def mapData (f : Obj α → Option α) : Heap α where
  objs := h.objs.map fun x => { x with data := f x }
  next := h.next
  nodup := by
    rw [List.map_map]
    exact h.nodup
  lt x hx := by
    obtain ⟨y, hy, rfl⟩ := List.mem_map.1 hx
    exact h.lt y hy

/-- Setting the data pointer of an object. -/
def dataInit (o : ℕ) (data : Option α) : Heap α :=
  h.mapData fun x => if x.id = o then data else x.data

/-- No object has a data pointer any longer. -/
def clear : Heap α := h.mapData fun _ => none

/-- Objects are swept. -/
def sweep (dead : List ℕ) : Heap α where
  objs := h.objs.filter (·.id ∉ dead)
  next := h.next
  nodup := h.nodup.sublist (List.filter_sublist.map _)
  lt x hx := h.lt x (List.mem_filter.1 hx).1

/-- The data pointers. -/
def ptrs : List α := h.objs.filterMap (·.data)

/-- The data pointers of some of the objects. -/
def ptrsOf (os : List ℕ) : List α := (h.objs.filter (·.id ∈ os)).filterMap (·.data)

variable {h} {o : ℕ} {x : Obj α} {a : α} {dead : List ℕ}

@[simp] theorem ptrs_allocate : h.allocate.ptrs = h.ptrs := by
  simp [ptrs, allocate]

theorem find_allocate : h.allocate.find h.next = some { id := h.next } := by
  have hnone : h.objs.find? (fun x => decide (x.id = h.next)) = none :=
    List.find?_eq_none.2 fun x hx => by simpa using Nat.ne_of_lt (h.lt x hx)
  rw [find, allocate, List.find?_append, hnone]
  simp

@[simp] theorem ptrs_clear : h.clear.ptrs = [] := by
  rw [ptrs, clear, mapData, List.filterMap_map, List.filterMap_eq_nil_iff]
  exact fun x _ => rfl

/-- The data pointers are those of the swept and of the other objects. -/
theorem ptrs_sweep : (h.ptrsOf dead ++ (h.sweep dead).ptrs).Perm h.ptrs := by
  have hperm := List.filter_append_perm (fun x : Obj α => decide (x.id ∈ dead)) h.objs
  simpa [ptrs, ptrsOf, sweep] using hperm.filterMap (·.data)

/-- Setting the data pointer of an object changes it in its place. -/
theorem ptrs_dataInit (hx : h.find o = some x) :
    ∃ l m, h.ptrs = l ++ x.data.toList ++ m ∧
      ∀ data, (h.dataInit o data).ptrs = l ++ data.toList ++ m := by
  obtain ⟨hid, l, m, hobjs, hne⟩ := List.find?_eq_some_iff_append.1 hx
  obtain rfl : x.id = o := by simpa using hid
  have hnodup := h.nodup
  rw [hobjs, List.map_append, List.map_cons] at hnodup
  have hm : ∀ y ∈ m, y.id ≠ x.id := fun y hy heq =>
    (List.nodup_cons.1 hnodup.of_append_right).1 (heq ▸ List.mem_map_of_mem hy)
  have hsame {k : List (Obj α)} {data : Option α} (hk : ∀ y ∈ k, y.id ≠ x.id) :
      k.filterMap (fun y => if y.id = x.id then data else y.data) = k.filterMap (·.data) :=
    List.filterMap_congr fun y hy => if_neg (hk y hy)
  refine ⟨l.filterMap (·.data), m.filterMap (·.data), ?_, fun data => ?_⟩
  · rw [ptrs, hobjs, List.filterMap_append, List.filterMap_cons, List.append_assoc]
    cases x.data <;> rfl
  · rw [ptrs, dataInit, mapData, List.filterMap_map, hobjs, List.filterMap_append,
      List.append_assoc]
    simp only [Function.comp_def, List.filterMap_cons, if_true, hsame hm,
      hsame fun y hy => by simpa using hne y hy]
    cases data <;> rfl

theorem find_dataInit {data : Option α} (hx : h.find o = some x) :
    (h.dataInit o data).find o = some { x with data } := by
  obtain rfl : x.id = o := by simpa using List.find?_some hx
  rw [find, dataInit, mapData, List.find?_map]
  simp only [Function.comp_def]
  rw [show h.objs.find? (fun y => decide (y.id = x.id)) = some x from hx, Option.map_some,
    if_pos rfl]

@[simp] theorem dataInit_dataInit {a b : Option α} :
    (h.dataInit o a).dataInit o b = h.dataInit o b := by
  simp only [dataInit, mapData, List.map_map, mk.injEq, and_true]
  refine List.map_congr_left fun y _ => ?_
  by_cases hy : y.id = o <;> simp [hy]

/-- Setting the data pointer of an object to what it was. -/
theorem dataInit_self (hx : h.find o = some x) : h.dataInit o x.data = h := by
  obtain rfl : x.id = o := by simpa using List.find?_some hx
  have hobjs : h.objs.map (fun y => { y with data := if y.id = x.id then x.data else y.data }) =
      h.objs := by
    refine (List.map_congr_left fun y hy => ?_).trans (List.map_id _)
    by_cases hid : y.id = x.id
    · obtain rfl := List.inj_on_of_nodup_map h.nodup hy (List.mem_of_find?_eq_some hx) hid
      simp
    · simp [hid]
  simp only [dataInit, mapData, hobjs]

theorem mem_ptrs_of_find (hx : h.find o = some x) (hdata : x.data = some a) : a ∈ h.ptrs := by
  obtain ⟨l, m, hptrs, -⟩ := ptrs_dataInit hx
  rw [hptrs, hdata]
  simp

/-- The data pointers are at most the old ones and the new one. -/
theorem mem_ptrs_dataInit {b : α} (hb : b ∈ (h.dataInit o (some a)).ptrs) : b ∈ h.ptrs ∨ b = a := by
  obtain ⟨x, hx, hdata⟩ := List.mem_filterMap.1 hb
  obtain ⟨y, hy, rfl⟩ := List.mem_map.1 hx
  simp only at hdata
  split at hdata
  · exact Or.inr (Option.some.inj hdata).symm
  · exact Or.inl (List.mem_filterMap.2 ⟨y, hy, hdata⟩)

/-! ## Looking data pointers up -/

/-- The data pointer of an object which is on the heap. -/
def data (h : Heap α) (o : ℕ) : Option α := (h.find o).bind (·.data)

theorem data_of_find (hx : h.find o = some x) : h.data o = x.data := by
  rw [data, hx, Option.bind_some]

theorem find_of_data (ha : h.data o = some a) : ∃ x, h.find o = some x ∧ x.data = some a :=
  Option.bind_eq_some_iff.1 ha

theorem find_mapData {f : Obj α → Option α} :
    (h.mapData f).find o = (h.find o).map fun x => { x with data := f x } := by
  rw [find, mapData, List.find?_map]
  rfl

@[simp] theorem data_allocate : h.allocate.data = h.data := by
  funext o
  rw [data, data, find, find, allocate, List.find?_append]
  cases h.objs.find? fun x => decide (x.id = o) with
  | some x => rfl
  | none => by_cases ho : h.next = o <;> simp [ho]

/-- The data pointer of one object is changed. -/
theorem data_dataInit (hx : h.find o = some x) {d : Option α} :
    (h.dataInit o d).data = Function.update h.data o d := by
  funext o'
  rw [data, dataInit, find_mapData]
  by_cases ho : o' = o
  · obtain rfl : x.id = o := by simpa using List.find?_some hx
    subst ho
    rw [hx, Function.update_self]
    simp
  · rw [Function.update_of_ne ho, data]
    cases hy : h.find o' with
    | none => rfl
    | some y =>
      obtain rfl : y.id = o' := by simpa using List.find?_some hy
      simp [ho]

theorem data_sweep : (h.sweep dead).data = fun o => if o ∈ dead then none else h.data o := by
  funext o
  rw [data, data, find, find, sweep, List.find?_filter]
  by_cases ho : o ∈ dead
  · rw [if_pos ho, List.find?_eq_none.2, Option.bind_none]
    intro y _ hy
    simp only [decide_eq_true_iff] at hy
    exact hy.1 (hy.2 ▸ ho)
  · rw [if_neg ho]
    congr 2
    funext y
    by_cases hy : y.id = o
    · subst hy
      simp [ho]
    · simp [hy]

theorem find_iff : h.find o = some x ↔ x ∈ h.objs ∧ x.id = o := by
  constructor
  · exact fun hx => ⟨List.mem_of_find?_eq_some hx, by simpa using List.find?_some hx⟩
  · rintro ⟨hx, rfl⟩
    obtain ⟨y, hy⟩ := Option.isSome_iff_exists.1
      (List.find?_isSome (p := fun y => decide (y.id = x.id)).2 ⟨x, hx, by simp⟩)
    obtain rfl := List.inj_on_of_nodup_map h.nodup (List.mem_of_find?_eq_some hy) hx
      (by simpa using List.find?_some hy)
    exact hy

theorem mem_ptrsOf {os : List ℕ} : a ∈ h.ptrsOf os ↔ ∃ o ∈ os, h.data o = some a := by
  rw [ptrsOf, List.mem_filterMap]
  constructor
  · rintro ⟨x, hx, hdata⟩
    obtain ⟨hx, hos⟩ := List.mem_filter.1 hx
    exact ⟨x.id, of_decide_eq_true hos, (data_of_find (find_iff.2 ⟨hx, rfl⟩)).trans hdata⟩
  · rintro ⟨o, ho, hdata⟩
    obtain ⟨x, hx, hxdata⟩ := find_of_data hdata
    obtain ⟨hmem, rfl⟩ := find_iff.1 hx
    exact ⟨x, List.mem_filter.2 ⟨hmem, decide_eq_true ho⟩, hxdata⟩

/-- No two objects have one data pointer, if it occurs once. -/
theorem data_inj {o' : ℕ} (hnodup : h.ptrs.Nodup) (ho : h.data o = some a)
    (ho' : h.data o' = some a) : o = o' := by
  by_contra hne
  obtain ⟨x, hx, hdata⟩ := find_of_data ho
  obtain ⟨l, m, hptrs, hset⟩ := ptrs_dataInit hx
  rw [hptrs, hdata, List.append_assoc] at hnodup
  -- Without the data pointer of `o`, there is still the one of `o'`.
  have hdata' : (h.dataInit o none).data o' = some a := by
    rw [data_dataInit hx, Function.update_of_ne (Ne.symm hne), ho']
  obtain ⟨y, hy, hydata⟩ := find_of_data hdata'
  have hmem := mem_ptrs_of_find hy hydata
  rw [hset, List.append_assoc] at hmem
  exact (List.nodup_cons.1 (List.nodup_middle.1 hnodup)).1 hmem

end Heap

end MrubyZmq
