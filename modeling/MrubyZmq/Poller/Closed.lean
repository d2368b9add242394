import MrubyZmq.Context.Sockets
import MrubyZmq.Poller

/-!
# Pollers and closed sockets

Closing a socket leaves it registered with its pollers. No poller should work on
the item of a closed socket, and such an item should be removable
(`Polling.Sane`).

But the item of a closed socket stays (`registered_run`): what `remove` hands
libzmq is an open socket, whatever object it is called with. So the pollers are
sane exactly as long as no socket is closed while it is registered
(`sane_iff_along`).
-/

namespace MrubyZmq

theorem Interp.isOpen_iff {s : Interp} {p : ℕ} : s.isOpen p = true ↔ IsOpen s.calls p := by
  rw [Interp.isOpen, Bool.and_eq_true, decide_eq_true_iff, List.any_eq_true, IsOpen]
  refine and_congr_left fun _ => ⟨?_, ?_⟩
  · rintro ⟨a, ha, hp⟩
    split at hp
    · rename_i c q
      exact ⟨c, by rwa [← of_decide_eq_true hp]⟩
    · exact absurd hp Bool.false_ne_true
  · rintro ⟨c, hc⟩
    exact ⟨_, hc, decide_eq_true rfl⟩

/-- `mrb_zmq_get_socket` returns open sockets only. -/
theorem Interp.Tidy.getSocket {s : Interp} (hs : s.Tidy) {arg : PollArg} {r : Ref} {p : ℕ}
    (h : s.getSocket arg r = .ok p) : .close p true ∉ s.calls := by
  cases r with
  | cptr n q =>
    rw [Interp.getSocket] at h
    split at h
    · obtain rfl := Except.ok.inj h
      exact (Interp.isOpen_iff.1 (Bool.and_eq_true_iff.1 ‹_›).1).2
    · exact absurd h (by simp)
  | socket o =>
    rw [Interp.getSocket] at h
    split at h
    · obtain rfl := Except.ok.inj h
      obtain ⟨x, hx, hdata⟩ := Option.bind_eq_some_iff.1 ‹_›
      exact ((hs.mem_ptrs _).1 (Heap.mem_ptrs_of_find hx hdata)).2
    · exact absurd h (by simp)
  | object n => exact absurd h (by simp [Interp.getSocket])

theorem Interp.Tidy.pollerKey {s : Interp} (hs : s.Tidy) {arg : PollArg} {p : ℕ}
    (h : s.pollerKey arg = .ok (.sock p)) : .close p true ∉ s.calls := by
  have hmap {r : Ref} (hr : (s.getSocket arg r).map Key.sock = .ok (.sock p)) :
      .close p true ∉ s.calls := by
    cases hq : s.getSocket arg r with
    | error err => simp [hq, Except.map] at hr
    | ok q =>
      rw [hq] at hr
      exact hs.getSocket (Key.sock.inj (Except.ok.inj hr) ▸ hq)
  rw [Interp.pollerKey] at h
  revert h
  rcases arg.fileno with _ | (err | fd)
  · rcases arg.zmqSocket with _ | (err | r)
    · exact hmap
    · simp [Except.bind]
    · exact hmap
  · simp [Except.bind]
  · simp only [Except.bind]
    split <;> simp

namespace ZmqPoller

variable {z z' : ZmqPoller} {key k : Key} {r : Ref} {events : ℤ} {ok : Bool}

/-! A call of libzmq with one key does nothing to the others. -/

theorem registered_add (h : z.add key r events ok = some z') (hk : k ≠ key) :
    z'.Registered k ↔ z.Registered k := by
  obtain ⟨_, h⟩ := Option.dite_none_right_eq_some.1 h
  obtain rfl := Option.some.inj h
  simp [Registered, hk]

theorem registered_modify (h : z.modify key events ok = some z') :
    z'.Registered k ↔ z.Registered k := by
  obtain ⟨-, h⟩ := Option.ite_none_right_eq_some.1 h
  obtain rfl := Option.some.inj h
  rw [Registered, Registered, List.map_map]
  exact Iff.rfl

theorem registered_remove (h : z.remove key ok = some z') (hk : k ≠ key) :
    z'.Registered k ↔ z.Registered k := by
  obtain ⟨-, h⟩ := Option.ite_none_right_eq_some.1 h
  obtain rfl := Option.some.inj h
  simp only [Registered, List.mem_map, List.mem_filter, decide_eq_true_iff]
  constructor
  · rintro ⟨i, ⟨hi, -⟩, hkey⟩
    exact ⟨i, hi, hkey⟩
  · rintro ⟨i, hi, hkey⟩
    exact ⟨i, ⟨hi, hkey ▸ hk⟩, hkey⟩

end ZmqPoller

namespace Polling

variable (s : Polling)

/-- The socket has been closed. -/
def Closed (p : ℕ) : Prop := .close p true ∈ s.interp.calls

instance (p : ℕ) : Decidable (s.Closed p) := inferInstanceAs (Decidable (_ ∈ _))

/-- The socket is registered with the poller. -/
def Listed (n p : ℕ) : Prop := (s.pollers n).zmq.Registered (.sock p)

/-- Removing the object of the item from the poller, in this state or a later
    one, takes it out of both registries. -/
def Removable (n : ℕ) (i : Item) : Prop :=
  ∃ ops socket ok s₁ s₂, polling.run s ops = some s₁ ∧ socket.ref = i.userData ∧
    polling.step s₁ (.remove n socket ok) = some s₂ ∧
      ¬(s₂.pollers n).zmq.Registered i.key ∧ i.userData ∉ (s₂.pollers n).sockets

/-- libzmq has not worked on items of closed sockets, and these are removable. -/
structure Sane : Prop where
  work : ∀ w ∈ s.work, w.closed = false
  removable : ∀ n, ∀ i ∈ (s.pollers n).zmq.items, ∀ p, i.key = .sock p → s.Closed p →
    s.Removable n i

/-- The operation closes the socket. -/
def Closing (s : Polling) : PollOp → ℕ → Prop
  | .close o ok, p | .closeMark o ok, p => ok = true ∧ ∃ x ∈ s.interp.heap.find o, p ∈ x.data
  | _, _ => False

/-- The operation closes no socket which is registered with a poller. -/
def Unlisted (op : PollOp) : Prop := ∀ p, s.Closing op p → ∀ n, ¬s.Listed n p

/-- Registered sockets have not been closed, and libzmq has not worked on
    others. -/
structure Open : Prop where
  tidy : s.interp.Tidy
  listed : ∀ n p, s.Listed n p → ¬s.Closed p
  work : ∀ w ∈ s.work, w.closed = false

variable {s} {s' : Polling} {op : PollOp} {n m p : ℕ} {ops : List PollOp} {w : Work}

/-! ## Steps -/

/-- What a step may do: it raises, does something to the sockets, calls libzmq
    with the key of an argument, or waits. -/
inductive Stepped (s : Polling) : Polling → Prop
  | raised : Stepped s s
  | interp (op : Op) {i : Interp} (h : (MrubyZmq.interp {}).step s.interp op = some i)
    (hop : Interp.Closes {} s.interp op) : Stepped s { s with interp := i }
  | called (n : ℕ) (socket : PollArg) (call : Key → ZmqPoller → Option ZmqPoller)
    (sockets : List Ref)
    (h : ∀ key k z z', call key z = some z' → k ≠ key → (z'.Registered k ↔ z.Registered k)) :
    Stepped s (s.afterCall n (s.interp.pollerKey socket) call sockets)
  | wait (n : ℕ) : Stepped s (s.pollerWait n)

theorem stepped (h : polling.step s op = some s') : Stepped s s' := by
  cases op with
  | allocate =>
    obtain rfl := Option.some.inj h
    exact .interp .allocate rfl trivial
  | init o type opened =>
    obtain ⟨interp, hinit, rfl⟩ := Option.map_eq_some_iff.1 h
    exact .interp (.init o type opened) hinit trivial
  | close o ok =>
    obtain ⟨interp, hclose, rfl⟩ := Option.map_eq_some_iff.1 h
    exact .interp (.close o ok) hclose trivial
  | closeMark o ok =>
    obtain ⟨interp, hclose, rfl⟩ := Option.map_eq_some_iff.1 h
    exact .interp (.closeMark o ok) hclose trivial
  | add n socket events ok =>
    obtain rfl := Option.some.inj h
    rw [pollerAdd_snd]
    split
    · exact .called _ _ _ _ fun key k z z' => ZmqPoller.registered_add
    · exact .raised
  | modify n socket events ok =>
    obtain rfl := Option.some.inj h
    rw [pollerModify_snd]
    split
    · exact .called _ _ _ _ fun key k z z' h _ => ZmqPoller.registered_modify h
    · exact .raised
  | remove n socket ok =>
    obtain rfl := Option.some.inj h
    rw [pollerRemove_snd]
    exact .called _ _ _ _ fun key k z z' => ZmqPoller.registered_remove
  | wait n =>
    obtain rfl := Option.some.inj h
    exact .wait n

theorem mem_workOn {keys : List Key} :
    w ∈ (s.workOn keys).work ↔
      w ∈ s.work ∨ ∃ p, .sock p ∈ keys ∧ w = ⟨p, decide (s.Closed p)⟩ := by
  rw [workOn, List.mem_append, List.mem_flatMap]
  refine or_congr_right ⟨?_, ?_⟩
  · rintro ⟨key, hkey, hw⟩
    cases key with
    | sock p => exact ⟨p, hkey, List.mem_singleton.1 hw⟩
    | fd n => exact absurd hw List.not_mem_nil
  · rintro ⟨p, hp, rfl⟩
    exact ⟨_, hp, List.mem_singleton_self _⟩

theorem afterCall_interp {key : Except Err Key} {call : Key → ZmqPoller → Option ZmqPoller}
    {sockets : List Ref} : (s.afterCall n key call sockets).interp = s.interp := by
  rcases key with err | key
  · rfl
  · rcases h : call key (s.pollers n).zmq with _ | zmq
    · rw [afterCall_none h]
      rfl
    · rw [afterCall_some h]
      rfl

theorem Stepped.tidy (h : Stepped s s') (hs : s.interp.Tidy) : s'.interp.Tidy := by
  cases h with
  | raised => exact hs
  | interp op h hop => exact hs.step h hop
  | called n socket call sockets h =>
    rw [afterCall_interp]
    exact hs
  | wait n => exact hs

/-- A closed socket is neither registered nor removed. -/
theorem Stepped.listed (h : Stepped s s') (hs : s.interp.Tidy) (hp : s.Closed p) :
    s'.Listed m p ↔ s.Listed m p := by
  cases h with
  | raised | interp | wait => exact Iff.rfl
  | called n socket call sockets h =>
    rcases hkey : s.interp.pollerKey socket with err | key
    · exact Iff.rfl
    -- The key of an argument is an open socket, if it is a socket.
    have hne : .sock p ≠ key := fun heq => hs.pollerKey (heq ▸ hkey) hp
    rcases hcall : call key (s.pollers n).zmq with _ | zmq
    · rw [afterCall_none hcall]
      exact Iff.rfl
    · rw [afterCall_some hcall, Listed, Listed]
      by_cases hm : m = n
      · rw [hm, set_pollers_self]
        exact h key _ _ _ hcall hne
      · rw [set_pollers_of_ne hm]
        exact Iff.rfl

/-- libzmq works on open sockets, and on those that are registered. -/
theorem Stepped.work (h : Stepped s s') (hs : s.interp.Tidy) (hw : w ∈ s'.work) :
    w ∈ s.work ∨ ∃ p, (¬s.Closed p ∨ ∃ n, s.Listed n p) ∧ w = ⟨p, decide (s.Closed p)⟩ := by
  cases h with
  | raised | interp => exact Or.inl hw
  | wait n =>
    refine (mem_workOn.1 hw).imp_right fun ⟨p, hp, heq⟩ => ⟨p, Or.inr ⟨n, hp⟩, heq⟩
  | called n socket call sockets h =>
    rcases hkey : s.interp.pollerKey socket with err | key
    · rw [hkey] at hw
      exact Or.inl hw
    have hw' : w ∈ (s.workOn [key]).work := by
      rw [hkey] at hw
      rcases hcall : call key (s.pollers n).zmq with _ | zmq
      · rwa [afterCall_none hcall] at hw
      · rwa [afterCall_some hcall] at hw
    refine (mem_workOn.1 hw').imp_right fun ⟨p, hp, heq⟩ => ⟨p, Or.inl ?_, heq⟩
    exact hs.pollerKey (List.mem_singleton.1 hp ▸ hkey)

/-! ## Closing -/

theorem closed_closeData {s : Interp} {o q : ℕ} {ok : Bool} :
    .close p true ∈ (s.closeData o q ok).calls ↔
      .close p true ∈ s.calls ∨ ok = true ∧ q = p := by
  cases ok <;> simp [Interp.closeData, Interp.call, @eq_comm _ p]

/-- The sockets closed after a step. -/
theorem closed_step (h : polling.step s op = some s') :
    s'.Closed p ↔ s.Closed p ∨ s.Closing op p := by
  cases op with
  | allocate => exact Option.some.inj h ▸ (or_iff_left id).symm
  | init o type opened =>
    obtain ⟨interp, hinit, rfl⟩ := Option.map_eq_some_iff.1 h
    obtain ⟨x, -, rfl⟩ := Option.map_eq_some_iff.1 hinit
    refine Iff.trans ?_ (or_iff_left id).symm
    simp only [Closed]
    split
    · rfl
    · -- A socket which is opened closes none.
      split
      · cases opened <;> simp [Interp.openSocket, Interp.call]
      · rfl
  | close o ok =>
    obtain ⟨interp, hclose, rfl⟩ := Option.map_eq_some_iff.1 h
    obtain ⟨x, hx, rfl⟩ := Option.map_eq_some_iff.1 hclose
    simp only [Closed, Closing, hx, Option.mem_some_iff, exists_eq_left']
    cases x.data with
    | none => simp
    | some q => rw [closed_closeData, Option.mem_some_iff]
  | closeMark o ok =>
    obtain ⟨interp, hclose, rfl⟩ := Option.map_eq_some_iff.1 h
    obtain ⟨x, hx, rfl⟩ := Option.map_eq_some_iff.1 hclose
    simp only [Closed, Closing, hx, Option.mem_some_iff, exists_eq_left']
    cases x.data with
    | none => simp
    | some q =>
      rw [closed_closeData, Option.mem_some_iff]
      simp [Interp.call]
  | add n socket events ok =>
    obtain rfl := Option.some.inj h
    rw [Closed, pollerAdd_snd]
    split
    · rw [afterCall_interp]
      exact (or_iff_left id).symm
    · exact (or_iff_left id).symm
  | modify n socket events ok =>
    obtain rfl := Option.some.inj h
    rw [Closed, pollerModify_snd]
    split
    · rw [afterCall_interp]
      exact (or_iff_left id).symm
    · exact (or_iff_left id).symm
  | remove n socket ok =>
    obtain rfl := Option.some.inj h
    rw [Closed, pollerRemove_snd, afterCall_interp]
    exact (or_iff_left id).symm
  | wait n => exact Option.some.inj h ▸ (or_iff_left id).symm

/-- Closing a socket leaves it registered. -/
theorem listed_of_closing (h : polling.step s op = some s') (hop : s.Closing op p) :
    s'.Listed n p ↔ s.Listed n p := by
  cases op with
  | close | closeMark =>
    obtain ⟨interp, -, rfl⟩ := Option.map_eq_some_iff.1 h
    exact Iff.rfl
  | allocate | init | add | modify | remove | wait => exact absurd hop id

/-! ## Runs -/

/-- The item of a closed socket stays. -/
theorem registered_run (hs : s.interp.Tidy) (hp : s.Closed p) (hn : s.Listed n p)
    (h : polling.run s ops = some s') : s'.interp.Tidy ∧ s'.Closed p ∧ s'.Listed n p := by
  have halways := @Machine.always_of_step _ _ polling s ops
    (fun s => s.interp.Tidy ∧ s.Closed p ∧ s.Listed n p) ?_ ⟨hs, hp, hn⟩
  · exact halways.of_run h
  · rintro s op s' ⟨hs, hp, hn⟩ hstep
    refine ⟨(stepped hstep).tidy hs, (closed_step hstep).2 (Or.inl hp), ?_⟩
    exact ((stepped hstep).listed hs hp).2 hn

theorem not_removable (hs : s.interp.Tidy) {i : Item} (hp : s.Closed p) (hn : s.Listed n p)
    (hi : i.key = .sock p) : ¬s.Removable n i := by
  rintro ⟨ops, socket, ok, s₁, s₂, hrun, -, hstep, hgone, -⟩
  obtain ⟨hs₁, hp₁, hn₁⟩ := registered_run hs hp hn hrun
  rw [hi] at hgone
  exact hgone (((stepped hstep).listed hs₁ hp₁).2 hn₁)

theorem Open.sane (hs : s.Open) : s.Sane := by
  refine ⟨hs.work, fun n i hi p hkey hp => absurd hp (hs.listed n p ?_)⟩
  rw [Listed, ← hkey]
  exact List.mem_map_of_mem hi

theorem Open.step (hs : s.Open) (h : polling.step s op = some s') (hop : s.Unlisted op) :
    s'.Open := by
  refine ⟨(stepped h).tidy hs.tidy, fun n p hn hp => ?_, fun w hw => ?_⟩
  · rcases (closed_step h).1 hp with hp | hp
    · exact hs.listed n p (((stepped h).listed hs.tidy hp).1 hn) hp
    · exact hop p hp n ((listed_of_closing h hp).1 hn)
  · rcases (stepped h).work hs.tidy hw with hw | ⟨p, hp, rfl⟩
    · exact hs.work w hw
    · exact decide_eq_false (hp.elim id fun ⟨n, hn⟩ => hs.listed n p hn)

theorem Open.not_sane (hs : s.Open) (h : polling.step s op = some s') (hop : ¬s.Unlisted op) :
    ¬s'.Sane := by
  simp only [Unlisted, not_forall, not_not] at hop
  obtain ⟨p, hp, n, hn⟩ := hop
  have hn' := (listed_of_closing h hp).2 hn
  obtain ⟨i, hi, hkey⟩ := List.mem_map.1 hn'
  intro hs'
  have hclosed := (closed_step h).2 (Or.inr hp)
  exact not_removable ((stepped h).tidy hs.tidy) hclosed hn' hkey
    (hs'.removable n i hi p hkey hclosed)

theorem open_start (env : Env) (opened : Bool) : (start env opened).Open :=
  ⟨Interp.tidy_gemInit env opened, fun _ _ h => absurd h List.not_mem_nil,
    fun _ h => absurd h List.not_mem_nil⟩

end Polling

open Polling

/-- In a run, the pollers are sane in every state exactly if no operation closes
    a socket which is registered with a poller. -/
theorem sane_iff_along (env : Env) (opened : Bool) (ops : List PollOp) :
    polling.Always Sane (start env opened) ops ↔ polling.Along Unlisted (start env opened) ops :=
  Machine.always_iff_along (fun _ => Open.sane)
    (fun _ _ _ hs h => ⟨fun hs' => not_not.1 fun hop => hs.not_sane h hop hs',
      fun hop => (hs.step h hop).sane⟩)
    (fun _ _ _ => Open.step) (open_start env opened)

/-- A registered socket is closed: `remove` raises, and `wait` works on it. -/
theorem waited_closed :
    let socket : PollArg := { ref := .socket 0 }
    let ops : List PollOp := [.allocate, .init 0 1 true, .add 0 socket 1 true, .close 0 true,
      .remove 0 socket true, .wait 0]
    (polling.run (start {} true) ops).map (fun s => (s.work, (s.pollers 0).sockets)) =
      some ([⟨0, false⟩, ⟨0, true⟩], [.socket 0]) ∧
    ¬polling.Always Sane (start {} true) ops := by
  intro socket ops
  refine ⟨rfl, fun h => ?_⟩
  have hwork := (h.of_run rfl).work ⟨0, true⟩ (by decide)
  exact absurd hwork (by decide)

end MrubyZmq
