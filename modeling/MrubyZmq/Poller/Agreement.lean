import Mathlib.Data.List.Perm.Subperm
import MrubyZmq.Poller

/-!
# The two registries of a poller

The array of a poller should contain, once each, the objects which libzmq holds
as user data of its items (`Poller.Agree`): then it keeps alive whatever `wait`
turns back into an object, and its length is the number of the items.

libzmq tells items apart by their keys, the array tells objects apart by `==`.
The registries agree exactly as long as no object is added under a second key,
and the object found in the array for a key that is removed is the one added
with it (`agree_iff_along`).
-/

namespace MrubyZmq

open scoped List

/-! ## Deleting from the array -/

/-- The elements which `Array#delete` deletes: those found equal to its argument
    before a comparison raises. -/
def arrayDeleted (equal : Ref → Except Err Bool) : List Ref → List Ref
  | [] => []
  | e :: l =>
    match equal e with
    | .ok true => e :: arrayDeleted equal l
    | .ok false => arrayDeleted equal l
    | .error _ => []

variable {equal : Ref → Except Err Bool} {l : List Ref}

theorem arrayDelete_perm : l ~ arrayDeleted equal l ++ (arrayDelete equal l).2 := by
  induction l with
  | nil => exact .refl _
  | cons e l ih =>
    rw [arrayDeleted, arrayDelete]
    rcases equal e with err | (_ | _)
    · exact .refl _
    · exact (ih.cons e).trans List.perm_middle.symm
    · exact ih.cons e

theorem arrayDelete_sublist : List.Sublist (arrayDelete equal l).2 l := by
  induction l with
  | nil => exact .refl _
  | cons e l ih =>
    rw [arrayDelete]
    rcases equal e with err | (_ | _)
    · exact .refl _
    · exact ih.cons_cons e
    · exact ih.cons e

/-! ## Agreement -/

namespace Poller

variable (p : Poller)

/-- The array contains exactly the objects which are user data of the items, and
    as many as there are items. -/
structure Agree : Prop where
  once : p.sockets.Nodup
  mem_iff : ∀ r, r ∈ p.sockets ↔ ∃ i ∈ p.zmq.items, i.userData = r
  slots : p.sockets.length = p.zmq.items.length

variable {p} {p' : Poller} {key : Key} {r : Ref} {events : ℤ} {ok : Bool} {zmq : ZmqPoller}

theorem agree_iff :
    p.Agree ↔ p.sockets.Nodup ∧ p.sockets ~ p.zmq.items.map (·.userData) := by
  constructor
  · rintro ⟨honce, hmem, hslots⟩
    have hsubset : p.sockets ⊆ p.zmq.items.map (·.userData) := fun r hr =>
      List.mem_map.2 ((hmem r).1 hr)
    refine ⟨honce, (honce.subperm hsubset).perm_of_length_le (Nat.le_of_eq ?_)⟩
    rw [List.length_map, hslots]
  · rintro ⟨honce, hperm⟩
    refine ⟨honce, fun r => ?_, ?_⟩
    · rw [hperm.mem_iff, List.mem_map]
    · rw [hperm.length_eq, List.length_map]

/-- An object is added under a key. -/
theorem Agree.add (hp : p.Agree) (hzmq : p.zmq.add key r events ok = some zmq) :
    Agree { zmq, sockets := p.sockets ++ [r] } ↔ r ∉ p.sockets := by
  obtain ⟨honce, hperm⟩ := agree_iff.1 hp
  obtain ⟨_, h⟩ := Option.dite_none_right_eq_some.1 hzmq
  obtain rfl := Option.some.inj h
  have hperm' : p.sockets ++ [r] ~
      (p.zmq.items ++ [(⟨key, r, events⟩ : Item)]).map (·.userData) := by
    rw [List.map_append]
    exact hperm.append_right [r]
  rw [agree_iff, and_iff_left hperm', List.nodup_append_comm]
  exact List.nodup_cons.trans (and_iff_left honce)

theorem Agree.modify (hp : p.Agree) (hzmq : p.zmq.modify key events ok = some zmq) :
    Agree { p with zmq } := by
  obtain ⟨-, h⟩ := Option.ite_none_right_eq_some.1 hzmq
  obtain rfl := Option.some.inj h
  rw [agree_iff, List.map_map]
  exact agree_iff.1 hp

end Poller

theorem ZmqPoller.perm_remove {z z' : ZmqPoller} {key : Key} {ok : Bool}
    (h : z.remove key ok = some z') : ∃ i ∈ z.items, i.key = key ∧ z.items ~ i :: z'.items := by
  obtain ⟨⟨hkey, -⟩, h⟩ := Option.ite_none_right_eq_some.1 h
  obtain rfl := Option.some.inj h
  obtain ⟨i, hi, rfl⟩ := List.mem_map.1 hkey
  refine ⟨i, hi, rfl, ?_⟩
  obtain ⟨k, m, hitems⟩ := List.append_of_mem hi
  have hnodup := z.nodup
  rw [hitems, List.map_append, List.map_cons] at hnodup
  have hne : ∀ j ∈ k ++ m, j.key ≠ i.key := fun j hj heq => by
    refine (List.nodup_middle.1 hnodup |> List.nodup_cons.1).1 ?_
    rw [← List.map_append, ← heq]
    exact List.mem_map_of_mem hj
  have hfilter : (k ++ m).filter (·.key ≠ i.key) = k ++ m :=
    List.filter_eq_self.2 fun j hj => decide_eq_true (hne j hj)
  have hrest : z.items.filter (·.key ≠ i.key) = k ++ m := by
    rw [← hfilter, hitems]
    simp
  change z.items ~ i :: z.items.filter (·.key ≠ i.key)
  rw [hrest, hitems]
  exact List.perm_middle

namespace Poller

variable {p : Poller} {key : Key} {ok : Bool} {zmq : ZmqPoller}

/-- An object is removed. -/
theorem Agree.remove (hp : p.Agree) (hzmq : p.zmq.remove key ok = some zmq) :
    Agree { zmq, sockets := (arrayDelete equal p.sockets).2 } ↔
      ∀ i ∈ p.zmq.items, i.key = key → arrayDeleted equal p.sockets = [i.userData] := by
  obtain ⟨honce, hperm⟩ := agree_iff.1 hp
  obtain ⟨i, hi, rfl, hitems⟩ := ZmqPoller.perm_remove hzmq
  have hunique : ∀ j ∈ p.zmq.items, j.key = i.key → j = i := fun j hj hkey =>
    List.inj_on_of_nodup_map p.zmq.nodup hj hi hkey
  have hall : p.sockets ~ i.userData :: zmq.items.map (·.userData) :=
    hperm.trans (hitems.map (·.userData))
  have hsplit := @arrayDelete_perm equal p.sockets
  rw [agree_iff, and_iff_right (honce.sublist arrayDelete_sublist)]
  constructor
  · intro hrest j hj hkey
    rw [hunique j hj hkey]
    -- What is left of the array is what is left of the user data.
    refine List.perm_singleton.1 ((List.perm_append_right_iff (arrayDelete equal p.sockets).2).1 ?_)
    exact hsplit.symm.trans (hall.trans (hrest.symm.cons i.userData))
  · intro hdeleted
    rw [hdeleted i hi rfl] at hsplit
    exact (hsplit.symm.trans hall).cons_inv

end Poller

namespace Polling

variable (s : Polling)

/-- The registries of all pollers agree. -/
def Agree : Prop := ∀ n, (s.pollers n).Agree

/-- The operation adds an object which is not in the array yet, or it deletes
    from the array what it removes from the items. -/
def Matches (s : Polling) : PollOp → Prop
  | .add n socket events ok => FitsShort events → ok = true →
      ∀ key, s.interp.pollerKey socket = .ok key → ¬(s.pollers n).zmq.Registered key →
        socket.ref ∉ (s.pollers n).sockets
  | .remove n socket ok => ok = true → ∀ key, s.interp.pollerKey socket = .ok key →
      ∀ i ∈ (s.pollers n).zmq.items, i.key = key →
        arrayDeleted socket.equals (s.pollers n).sockets = [i.userData]
  | _ => True

variable {s} {s' : Polling} {op : PollOp} {n : ℕ} {p : Poller}

theorem agree_set (hs : s.Agree) (keys : List Key) :
    ((s.workOn keys).set n p).Agree ↔ p.Agree := by
  constructor
  · intro h
    have hn := h n
    rwa [set_pollers_self] at hn
  · intro hp m
    by_cases hm : m = n
    · rw [hm, set_pollers_self]
      exact hp
    · rw [set_pollers_of_ne hm]
      exact hs m

theorem Agree.agree_add (hs : s.Agree) {socket : PollArg} {events : ℤ} {ok : Bool} :
    (pollerAdd n socket events ok s).2.Agree ↔ s.Matches (.add n socket events ok) := by
  rw [pollerAdd_snd]
  split
  · rcases hkey : s.interp.pollerKey socket with err | key
    · exact iff_of_true hs (by simp [Matches, hkey])
    · rcases hcall : (s.pollers n).zmq.add key socket.ref events ok with _ | zmq
      · rw [afterCall_none hcall]
        refine iff_of_true hs fun _ hok key' hkey' hfresh => ?_
        obtain rfl : key = key' := Except.ok.inj (hkey.symm.trans hkey')
        simp [ZmqPoller.add, hfresh, hok] at hcall
      · rw [afterCall_some hcall, agree_set hs, (hs n).add hcall]
        obtain ⟨⟨hfresh, hok⟩, -⟩ := Option.dite_none_right_eq_some.1 hcall
        constructor
        · exact fun h _ _ _ _ _ => h
        · exact fun h => h ‹_› hok key hkey hfresh
  · exact iff_of_true hs fun hevents => absurd hevents ‹_›

theorem Agree.agree_modify (hs : s.Agree) {socket : PollArg} {events : ℤ} {ok : Bool} :
    (pollerModify n socket events ok s).2.Agree := by
  rw [pollerModify_snd]
  split
  · rcases s.interp.pollerKey socket with err | key
    · exact hs
    · rcases hcall : (s.pollers n).zmq.modify key events ok with _ | zmq
      · rw [afterCall_none hcall]
        exact hs
      · rw [afterCall_some hcall, agree_set hs]
        exact (hs n).modify hcall
  · exact hs

theorem Agree.agree_remove (hs : s.Agree) {socket : PollArg} {ok : Bool} :
    (pollerRemove n socket ok s).2.Agree ↔ s.Matches (.remove n socket ok) := by
  rw [pollerRemove_snd]
  rcases hkey : s.interp.pollerKey socket with err | key
  · exact iff_of_true hs (by simp [Matches, hkey])
  · rcases hcall : (s.pollers n).zmq.remove key ok with _ | zmq
    · rw [afterCall_none hcall]
      refine iff_of_true hs fun hok key' hkey' i hi hi' => ?_
      obtain rfl : key = key' := Except.ok.inj (hkey.symm.trans hkey')
      have hreg : (s.pollers n).zmq.Registered key := hi' ▸ List.mem_map_of_mem hi
      simp [ZmqPoller.remove, hreg, hok] at hcall
    · rw [afterCall_some hcall, agree_set hs, (hs n).remove hcall]
      obtain ⟨⟨-, hok⟩, -⟩ := Option.ite_none_right_eq_some.1 hcall
      constructor
      · intro h _ key' hkey'
        rwa [← Except.ok.inj (hkey.symm.trans hkey')]
      · exact fun h => h hok key hkey

/-- A step keeps the registries in agreement exactly if it matches them. -/
theorem Agree.step (hs : s.Agree) (h : polling.step s op = some s') : s'.Agree ↔ s.Matches op := by
  cases op with
  | allocate => exact iff_of_true (Option.some.inj h ▸ hs) trivial
  | init | close | closeMark =>
    obtain ⟨interp, -, rfl⟩ := Option.map_eq_some_iff.1 h
    exact iff_of_true hs trivial
  | add n socket events ok => exact Option.some.inj h ▸ hs.agree_add
  | modify n socket events ok => exact iff_of_true (Option.some.inj h ▸ hs.agree_modify) trivial
  | remove n socket ok => exact Option.some.inj h ▸ hs.agree_remove
  | wait n => exact iff_of_true (Option.some.inj h ▸ hs) trivial

theorem agree_start (env : Env) (opened : Bool) : (start env opened).Agree := fun _ =>
  Poller.agree_iff.2 ⟨List.nodup_nil, .nil⟩

end Polling

open Polling

/-- In a run, the registries of the pollers agree in every state exactly if each
    operation matches them. -/
theorem agree_iff_along (env : Env) (opened : Bool) (ops : List PollOp) :
    polling.Always Agree (start env opened) ops ↔ polling.Along Matches (start env opened) ops :=
  Machine.always_iff_along (fun _ => id) (fun _ _ _ hs h => hs.step h)
    (fun _ _ _ hs h => (hs.step h).2) (agree_start env opened)

/-- A wrapper is added, and the socket it wraps is removed: the array keeps the
    wrapper. -/
theorem wrapper_left :
    let wrapper : PollArg := { ref := .object 0, zmqSocket := some (.ok (.socket 0)) }
    let ops : List PollOp := [.allocate, .init 0 1 true, .add 0 wrapper 1 true,
      .remove 0 { ref := .socket 0 } true]
    (polling.run (start {} true) ops).map (fun s =>
      ((s.pollers 0).zmq.items, (s.pollers 0).sockets)) = some ([], [.object 0]) ∧
    ¬polling.Always Agree (start {} true) ops := by
  intro wrapper ops
  refine ⟨rfl, fun h => ?_⟩
  have hslots := (h.of_run rfl 0).slots
  exact absurd hslots (by decide)

end MrubyZmq
