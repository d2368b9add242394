import MrubyZmq.Poller.Agreement

/-!
# Waiting with a block

`mrb_zmq_poller_wait` yields the ready events to the block, one after the other.
It has got them all at once from libzmq, with pointers to the objects as user
data, before the block runs for the first time (`Waiting`). The block may add to
the poller and remove from it, and the program may drop its references at any
time: then the collector frees what is not in the array of the poller.

What the block is given should be registered with the poller, in its array, and
not freed (`Fresh`). This is so, and would be if the block did nothing more from
some point on (`Safe`), exactly if the objects of the events are in the array to
begin with, and the block removes no object before its events have been yielded
(`safe_iff_along`).
-/

namespace MrubyZmq

/-- The objects which are user data of the items. -/
def Poller.objects (p : Poller) : List Ref := p.zmq.items.map (·.userData)

/-- A `zmq_poller_event_t`. -/
structure Event where
  userData : Ref
  events : ℤ
  deriving DecidableEq, Repr

/-- An event yielded to the block, with what was known of its object. -/
structure Yield where
  event : Event
  registered : Bool
  held : Bool
  freed : Bool
  deriving DecidableEq, Repr

/-- The events which `zmq_poller_wait_all` writes for `mrb_zmq_poller_wait`, of
    those that are ready. -/
def Poller.waitAll (p : Poller) (ready : List Event) : List Event :=
  let nEvents := p.sockets.length
  if 0 < nEvents then ready.take nEvents else []

namespace Poller

variable {p : Poller} {ready : List Event} {e : Event}

theorem mem_of_mem_waitAll (he : e ∈ p.waitAll ready) : e ∈ ready := by
  rw [waitAll] at he
  split at he
  · exact List.mem_of_mem_take he
  · exact absurd he List.not_mem_nil

/-- If the registries agree, the objects of the events are in the array. -/
theorem Agree.waitAll (hp : p.Agree) (hready : ∀ e ∈ ready, e.userData ∈ p.objects)
    (he : e ∈ p.waitAll ready) : e.userData ∈ p.sockets :=
  (hp.mem_iff _).2 (List.mem_map.1 (hready e (mem_of_mem_waitAll he)))

end Poller

/-- A call of `wait` with a block. -/
structure Waiting where
  polling : Polling
  /-- What the program refers to. -/
  roots : List Ref
  /-- What the collector has freed. -/
  freed : List Ref
  /-- The array `events` of the call. -/
  events : List Event
  /-- The index `i` of the loop. -/
  index : ℕ := 0
  yields : List Yield := []

/-- What happens during the call. -/
inductive WaitOp
  /-- The block is called with the next event. -/
  | next
  | poll (op : PollOp)
  | refer (roots : List Ref)
  | collect (dead : List Ref)

/-- The objects an operation is called with. -/
def PollOp.objects : PollOp → List Ref
  | .allocate | .wait _ => []
  | .init o _ _ | .close o _ | .closeMark o _ => [.socket o]
  | .add _ socket _ _ | .modify _ socket _ _ | .remove _ socket _ => [socket.ref]

namespace Waiting

variable (n : ℕ) (s : Waiting)

/-- The poller. -/
def poller : Poller := s.polling.pollers n

/-- The events which are still to be yielded. -/
def pending : List Event := s.events.drop s.index

/-- `mrb_yield_argv`, in the loop of `mrb_zmq_poller_wait`. -/
def yield (e : Event) : Waiting :=
  { s with
    index := s.index + 1
    yields := s.yields ++
      [{ event := e
         registered := e.userData ∈ (s.poller n).objects
         held := e.userData ∈ (s.poller n).sockets
         freed := e.userData ∈ s.freed }] }

end Waiting

/-- The poller `n` waits: its block, once it runs, does what a program may do,
    but cannot refer to what has been freed. What is neither referred to nor in
    the array may be freed at any time. -/
def waiting (n : ℕ) : Machine Waiting WaitOp where
  step s
    | .next => s.events[s.index]?.map (s.yield n)
    -- The block runs from the first event on.
    | .poll op =>
      if 0 < s.index ∧ ∀ r ∈ op.objects, r ∉ s.freed then
        (polling.step s.polling op).map fun polling => { s with polling }
      else none
    | .refer roots =>
      if 0 < s.index ∧ ∀ r ∈ roots, r ∉ s.freed then some { s with roots } else none
    | .collect dead =>
      if ∀ r ∈ dead, r ∉ s.roots ∧ r ∉ (s.poller n).sockets then
        some { s with freed := s.freed ++ dead }
      else none

/-- `zmq_poller_wait_all` has found events which are ready. -/
structure Returned (n : ℕ) where
  polling : Polling
  roots : List Ref
  freed : List Ref
  ready : List Event
  /-- libzmq returns the user data of its items. -/
  registered : ∀ e ∈ ready, e.userData ∈ (polling.pollers n).objects
  /-- What is in the array has not been freed. -/
  live : ∀ r ∈ (polling.pollers n).sockets, r ∉ freed

/-- The loop begins. -/
def Returned.start {n : ℕ} (w : Returned n) : Waiting where
  polling := w.polling.pollerWait n
  roots := w.roots
  freed := w.freed
  events := (w.polling.pollers n).waitAll w.ready

namespace Waiting

variable (n : ℕ) (s : Waiting)

/-- All that was yielded was registered, in the array, and not freed. -/
def Fresh : Prop := ∀ y ∈ s.yields, y.registered = true ∧ y.held = true ∧ y.freed = false

/-- What was yielded are the events up to the index, once each and in order. -/
def InOrder : Prop := s.yields.map (·.event) = s.events.take s.index

/-- All that is yielded is fresh, if the block does nothing more. -/
def Safe : Prop := ∀ k, (waiting n).Always Fresh s (List.replicate k .next)

/-- The operation removes no object of an event which is still to be yielded:
    the object is registered under another key, and left in the array. -/
def Spares (s : Waiting) : WaitOp → Prop
  | .poll (.remove m socket ok) => m = n → ok = true → ∀ key,
      s.polling.interp.pollerKey socket = .ok key → (s.poller n).zmq.Registered key →
        ∀ e ∈ s.pending, (∃ i ∈ (s.poller n).zmq.items, i.key ≠ key ∧ i.userData = e.userData) ∧
          e.userData ∈ (arrayDelete socket.equals (s.poller n).sockets).2
  | _ => True

/-- The objects of the events which are still to be yielded are registered, and
    in the array. -/
def Due : Prop :=
  ∀ e ∈ s.pending, e.userData ∈ (s.poller n).objects ∧ e.userData ∈ (s.poller n).sockets

/-- What is in the array has not been freed. -/
def Live : Prop := ∀ r ∈ (s.poller n).sockets, r ∉ s.freed

variable {n s} {s' : Waiting} {op : WaitOp} {e : Event} {l : List Event}

/-! ## Yielding -/

/-- The next event is the first of those which are pending. -/
theorem getElem?_index : s.events[s.index]? = s.pending.head? := List.head?_drop.symm

theorem pending_yield : (s.yield n e).pending = s.pending.tail := List.tail_drop.symm

theorem fresh_yield : (s.yield n e).Fresh ↔ s.Fresh ∧ e.userData ∈ (s.poller n).objects ∧
    e.userData ∈ (s.poller n).sockets ∧ e.userData ∉ s.freed := by
  rw [Fresh, yield, List.forall_mem_append, List.forall_mem_singleton]
  simp only [decide_eq_true_iff, decide_eq_false_iff_not]
  exact Iff.rfl

theorem step_next (h : s.pending = e :: l) :
    (waiting n).step s .next = some (s.yield n e) := by
  have he : s.events[s.index]? = some e := by rw [getElem?_index, h, List.head?_cons]
  exact congrArg (Option.map (s.yield n)) he

/-- As long as the block does nothing, the pending events are yielded. -/
theorem due_of_always
    (h : (waiting n).Always Fresh s (List.replicate s.pending.length .next)) : s.Due n := by
  rw [Due]
  -- By induction on the events pending: the first one is yielded next, and the
  -- poller stays as it is.
  induction hl : s.pending generalizing s with
  | nil => exact fun _ he => absurd he List.not_mem_nil
  | cons e l ih =>
    have htail : (s.yield n e).pending = l := by rw [pending_yield, hl, List.tail_cons]
    rw [hl, List.length_cons, List.replicate_succ, Machine.always_cons (step_next hl)] at h
    obtain ⟨-, hobject, hheld, -⟩ := fresh_yield.1 h.2.1
    have hrest := @ih (s.yield n e) (by rw [htail]; exact h.2) htail
    exact List.forall_mem_cons.2 ⟨⟨hobject, hheld⟩, hrest⟩

/-- The rest of the loop is safe exactly if its events are due. -/
theorem safe_iff (hs : s.Live n) : s.Safe n ↔ s.Fresh ∧ s.Due n := by
  constructor
  · intro h
    exact ⟨(h 0).1, due_of_always (h _)⟩
  · rintro ⟨hfresh, hdue⟩ k
    induction k generalizing s with
    | zero => exact ⟨hfresh, trivial⟩
    | succ k ih =>
      rcases hl : s.pending with _ | ⟨e, l⟩
      · -- The loop is over.
        refine ⟨hfresh, fun s' hs' => ?_⟩
        have hnone : s.events[s.index]? = none := by rw [getElem?_index, hl, List.head?_nil]
        obtain ⟨e, he, -⟩ := Option.map_eq_some_iff.1 hs'
        exact absurd (hnone.symm.trans he) (by simp)
      · have htail : (s.yield n e).pending = l := by rw [pending_yield, hl, List.tail_cons]
        rw [Due, hl] at hdue
        obtain ⟨⟨hobject, hheld⟩, hdue⟩ := List.forall_mem_cons.1 hdue
        rw [List.replicate_succ, Machine.always_cons (step_next hl)]
        refine ⟨hfresh, ih hs (fresh_yield.2 ⟨hfresh, hobject, hheld, hs _ hheld⟩) ?_⟩
        rwa [Due, htail]

end Waiting

namespace Polling

variable {s s' : Polling} {op : PollOp} {n m : ℕ} {r : Ref} {key : Except Err Key}
  {call : Key → ZmqPoller → Option ZmqPoller} {sockets : List Ref}

/-- Nothing is removed from the poller `n`. -/
def Retains (n : ℕ) (s s' : Polling) : Prop :=
  (s.pollers n).objects ⊆ (s'.pollers n).objects ∧ (s.pollers n).sockets ⊆ (s'.pollers n).sockets

theorem Retains.refl : Retains n s s := ⟨fun _ h => h, fun _ h => h⟩

theorem retains_afterCall (h : m = n → ∀ k zmq, call k (s.pollers n).zmq = some zmq →
      (s.pollers n).objects ⊆ zmq.items.map (·.userData) ∧ (s.pollers n).sockets ⊆ sockets) :
    Retains n s (s.afterCall m key call sockets) := by
  rcases key with e | key
  · exact .refl
  · rcases hcall : call key (s.pollers m).zmq with _ | zmq
    · rw [afterCall_none hcall]
      exact .refl
    · rw [afterCall_some hcall]
      by_cases hm : m = n
      · subst hm
        rw [Retains, set_pollers_self]
        exact h rfl key zmq hcall
      · rw [Retains, set_pollers_of_ne (Ne.symm hm)]
        exact ⟨fun _ h => h, fun _ h => h⟩

theorem retains_step (h : polling.step s op = some s')
    (hop : ∀ socket ok, op ≠ .remove n socket ok) : Retains n s s' := by
  cases op with
  | allocate | wait =>
    obtain rfl := Option.some.inj h
    exact .refl
  | init | close | closeMark =>
    obtain ⟨interp, -, rfl⟩ := Option.map_eq_some_iff.1 h
    exact .refl
  | add m socket events ok =>
    obtain rfl := Option.some.inj h
    rw [pollerAdd_snd]
    split
    · refine retains_afterCall ?_
      rintro rfl key zmq hadd
      obtain ⟨_, hadd⟩ := Option.dite_none_right_eq_some.1 hadd
      obtain rfl := Option.some.inj hadd
      rw [List.map_append]
      exact ⟨List.subset_append_left .., List.subset_append_left ..⟩
    · exact .refl
  | modify m socket events ok =>
    obtain rfl := Option.some.inj h
    rw [pollerModify_snd]
    split
    · refine retains_afterCall ?_
      rintro rfl key zmq hmodify
      obtain ⟨-, hmodify⟩ := Option.ite_none_right_eq_some.1 hmodify
      obtain rfl := Option.some.inj hmodify
      rw [List.map_map]
      exact ⟨fun _ h => h, fun _ h => h⟩
    · exact .refl
  | remove m socket ok =>
    obtain rfl := Option.some.inj h
    rw [pollerRemove_snd]
    exact retains_afterCall fun hm => absurd rfl (hm ▸ hop socket ok)

theorem mem_sockets_afterCall
    (hr : r ∈ ((s.afterCall m key call sockets).pollers n).sockets) :
    r ∈ (s.pollers n).sockets ∨ m = n ∧ r ∈ sockets := by
  rcases key with e | key
  · exact .inl hr
  · rcases hcall : call key (s.pollers m).zmq with _ | zmq
    · rw [afterCall_none hcall] at hr
      exact .inl hr
    · rw [afterCall_some hcall] at hr
      by_cases hm : m = n
      · subst hm
        rw [set_pollers_self] at hr
        exact .inr ⟨rfl, hr⟩
      · rw [set_pollers_of_ne (Ne.symm hm)] at hr
        exact .inl hr

/-- What is in an array was there before, or is added to it. -/
theorem mem_sockets_step (h : polling.step s op = some s') (hr : r ∈ (s'.pollers n).sockets) :
    r ∈ (s.pollers n).sockets ∨ r ∈ op.objects := by
  cases op with
  | allocate | wait =>
    obtain rfl := Option.some.inj h
    exact .inl hr
  | init | close | closeMark =>
    obtain ⟨interp, -, rfl⟩ := Option.map_eq_some_iff.1 h
    exact .inl hr
  | add m socket events ok =>
    obtain rfl := Option.some.inj h
    rw [pollerAdd_snd] at hr
    split at hr
    · rcases mem_sockets_afterCall hr with hr' | ⟨rfl, hr'⟩
      · exact .inl hr'
      · exact List.mem_append.1 hr'
    · exact .inl hr
  | modify m socket events ok =>
    obtain rfl := Option.some.inj h
    rw [pollerModify_snd] at hr
    split at hr
    · rcases mem_sockets_afterCall hr with hr' | ⟨rfl, hr'⟩ <;> exact .inl hr'
    · exact .inl hr
  | remove m socket ok =>
    obtain rfl := Option.some.inj h
    rw [pollerRemove_snd] at hr
    rcases mem_sockets_afterCall hr with hr' | ⟨rfl, hr'⟩
    · exact .inl hr'
    · exact .inl (arrayDelete_sublist.subset hr')

end Polling

namespace Waiting

variable {n : ℕ} {s s' : Waiting} {op : WaitOp} {e : Event}

/-- The events which are due are so after the object of a key is removed exactly
    if their objects are spared. -/
theorem due_remove_iff (hs : s.Due n) {socket : PollArg} {ok : Bool} :
    Due n { s with polling := (Polling.pollerRemove n socket ok s.polling).2 } ↔
      s.Spares n (.poll (.remove n socket ok)) := by
  rw [Due, poller, Polling.pollerRemove_snd]
  rcases hkey : s.polling.interp.pollerKey socket with err | key
  · exact iff_of_true hs fun _ _ key hkey' => absurd (hkey.symm.trans hkey') (by simp)
  · rcases hcall : (s.poller n).zmq.remove key ok with _ | zmq
    · -- `zmq_poller_remove` fails, and the array is not touched.
      rw [Polling.afterCall_none hcall]
      refine iff_of_true hs fun _ hok key' hkey' hregistered => ?_
      obtain rfl := Except.ok.inj (hkey.symm.trans hkey')
      exact absurd hcall (by simp [ZmqPoller.remove, hregistered, hok])
    · rw [Polling.afterCall_some hcall, Polling.set_pollers_self]
      obtain ⟨⟨hregistered, hok⟩, hzmq⟩ := Option.ite_none_right_eq_some.1 hcall
      obtain rfl := Option.some.inj hzmq
      constructor
      · intro h _ _ key' hkey' _ e he
        obtain rfl := Except.ok.inj (hkey.symm.trans hkey')
        obtain ⟨i, hi, hobject⟩ := List.mem_map.1 (h e he).1
        obtain ⟨hi, hne⟩ := List.mem_filter.1 hi
        exact ⟨⟨i, hi, of_decide_eq_true hne, hobject⟩, (h e he).2⟩
      · intro h e he
        obtain ⟨⟨i, hi, hne, hobject⟩, hheld⟩ := h rfl hok key hkey hregistered e he
        refine ⟨List.mem_map.2 ⟨i, ?_, hobject⟩, hheld⟩
        exact List.mem_filter.2 ⟨hi, decide_eq_true hne⟩

/-- A step leaves the events due exactly if it spares their objects. -/
theorem due_step (hlive : s.Live n) (hfresh : s.Fresh) (hdue : s.Due n)
    (h : (waiting n).step s op = some s') :
    s'.Live n ∧ s'.Fresh ∧ (s'.Due n ↔ s.Spares n op) := by
  cases op with
  | next =>
    obtain ⟨e, he, rfl⟩ := Option.map_eq_some_iff.1 h
    obtain ⟨l, hl⟩ := List.head?_eq_some_iff.1 (getElem?_index.symm.trans he)
    have htail : (s.yield n e).pending = l := by rw [pending_yield, hl, List.tail_cons]
    rw [Due, hl] at hdue
    obtain ⟨⟨hobject, hheld⟩, hdue⟩ := List.forall_mem_cons.1 hdue
    refine ⟨hlive, fresh_yield.2 ⟨hfresh, hobject, hheld, hlive _ hheld⟩, iff_of_true ?_ trivial⟩
    rwa [Due, htail]
  | poll op =>
    obtain ⟨⟨-, hargs⟩, h⟩ := Option.ite_none_right_eq_some.1 h
    obtain ⟨polling, hstep, rfl⟩ := Option.map_eq_some_iff.1 h
    refine ⟨fun r hr => ?_, hfresh, ?_⟩
    · rcases Polling.mem_sockets_step hstep hr with hr | hr
      · exact hlive r hr
      · exact hargs r hr
    · -- Only a `remove` from this poller takes anything out of it.
      by_cases hop : ∃ socket ok, op = .remove n socket ok
      · obtain ⟨socket, ok, rfl⟩ := hop
        obtain rfl := Option.some.inj hstep
        exact due_remove_iff hdue
      · have hretains := Polling.retains_step hstep fun socket ok heq => hop ⟨socket, ok, heq⟩
        refine iff_of_true (fun e he => ?_) ?_
        · exact ⟨hretains.1 (hdue e he).1, hretains.2 (hdue e he).2⟩
        · cases op with
          | remove m socket ok =>
            rintro rfl
            exact absurd ⟨socket, ok, rfl⟩ hop
          | _ => trivial
  | refer roots =>
    obtain ⟨-, h⟩ := Option.ite_none_right_eq_some.1 h
    obtain rfl := Option.some.inj h
    exact ⟨hlive, hfresh, iff_of_true hdue trivial⟩
  | collect dead =>
    obtain ⟨hdead, h⟩ := Option.ite_none_right_eq_some.1 h
    obtain rfl := Option.some.inj h
    -- The array is looked at by the collector, and what it contains is kept.
    refine ⟨fun r hr hfreed => ?_, hfresh, iff_of_true hdue trivial⟩
    rcases List.mem_append.1 hfreed with hr' | hr'
    · exact hlive r hr hr'
    · exact (hdead r hr').2 hr

theorem inOrder_step (hs : s.InOrder) (h : (waiting n).step s op = some s') : s'.InOrder := by
  cases op with
  | next =>
    obtain ⟨e, he, rfl⟩ := Option.map_eq_some_iff.1 h
    rw [InOrder, yield, List.map_append, hs, List.take_add_one, he]
    rfl
  | poll op =>
    obtain ⟨-, h⟩ := Option.ite_none_right_eq_some.1 h
    obtain ⟨polling, -, rfl⟩ := Option.map_eq_some_iff.1 h
    exact hs
  | refer | collect =>
    obtain ⟨-, h⟩ := Option.ite_none_right_eq_some.1 h
    obtain rfl := Option.some.inj h
    exact hs

end Waiting

open Waiting

namespace Returned

variable {n : ℕ} (w : Returned n)

/-- The objects of the events are in the array, as they are if the registries
    agree (`Poller.Agree.waitAll`). -/
def Held : Prop := ∀ e ∈ w.start.events, e.userData ∈ (w.polling.pollers n).sockets

instance : Decidable w.Held := inferInstanceAs (Decidable (∀ e ∈ _, _))

theorem due_start : w.start.Due n ↔ w.Held := by
  constructor
  · exact fun h e he => (h e he).2
  · exact fun h e he => ⟨w.registered e (Poller.mem_of_mem_waitAll he), h e he⟩

theorem live_start : w.start.Live n := w.live

theorem fresh_start : w.start.Fresh := fun _ hy => absurd hy List.not_mem_nil

end Returned

/-- In every run of `wait` with a block, the events are yielded once each and in
    order. They are fresh, and would be if the block did nothing more from some
    point on, exactly if their objects are in the array to begin with and no
    operation of the block removes one before its events have been yielded. -/
theorem safe_iff_along (n : ℕ) (w : Returned n) (ops : List WaitOp) :
    (waiting n).Always InOrder w.start ops ∧
    (w.Held ∧ (waiting n).Along (Spares n) w.start ops →
      (waiting n).Always Fresh w.start ops) ∧
    ((waiting n).Always (Safe n) w.start ops ↔
      w.Held ∧ (waiting n).Along (Spares n) w.start ops) := by
  have hiff (hheld : w.Held) : (waiting n).Always (Safe n) w.start ops ↔
      (waiting n).Along (Spares n) w.start ops := by
    refine Machine.always_iff_along (I := fun s => s.Live n ∧ s.Fresh ∧ s.Due n) ?_ ?_ ?_ ?_
    · rintro s ⟨hlive, hs⟩
      exact (safe_iff hlive).2 hs
    · rintro s op s' ⟨hlive, hfresh, hdue⟩ h
      obtain ⟨hlive', hfresh', hdue'⟩ := due_step hlive hfresh hdue h
      rw [safe_iff hlive', and_iff_right hfresh', hdue']
    · rintro s op s' ⟨hlive, hfresh, hdue⟩ h hspares
      obtain ⟨hlive', hfresh', hdue'⟩ := due_step hlive hfresh hdue h
      exact ⟨hlive', hfresh', hdue'.2 hspares⟩
    · exact ⟨w.live_start, w.fresh_start, w.due_start.2 hheld⟩
  refine ⟨Machine.always_of_step (fun s op s' => inOrder_step) rfl, ?_, ?_⟩
  · rintro ⟨hheld, hops⟩
    have hsafe := (hiff hheld).2 hops
    exact ⟨(hsafe.1 0).1, hsafe.throughout fun s op s' _ _ hs' => (hs' 0).1⟩
  · constructor
    · intro h
      have hheld := w.due_start.1 ((safe_iff w.live_start).1 h.1).2
      exact ⟨hheld, (hiff hheld).1 h⟩
    · exact fun h => (hiff h.1).2 h.2

/-- The block, given the first object, removes the second one, which nothing
    else refers to: it is freed, and yielded. -/
theorem yielded_freed :
    let file (o : ℕ) : PollArg := { ref := .object o, fileno := some (.ok o) }
    let w : Returned 0 :=
      { polling := (Polling.pollerAdd 0 (file 1) 1 true
          (Polling.pollerAdd 0 (file 0) 1 true (.start {} true)).2).2
        roots := []
        freed := []
        ready := [⟨.object 0, 1⟩, ⟨.object 1, 1⟩]
        registered := by decide
        live := fun _ _ => List.not_mem_nil }
    let ops : List WaitOp :=
      [.next, .poll (.remove 0 (file 1) true), .collect [.object 1], .next]
    w.Held ∧ ((waiting 0).run w.start ops).map Waiting.yields =
      some [⟨⟨.object 0, 1⟩, true, true, false⟩, ⟨⟨.object 1, 1⟩, false, false, true⟩] ∧
    ¬(waiting 0).Always Fresh w.start ops := by
  intro file w ops
  refine ⟨by decide, rfl, fun h => ?_⟩
  have hfresh := h.of_run (rfl : (waiting 0).run w.start ops = some _)
  exact absurd (hfresh _ (List.mem_cons_of_mem _ List.mem_cons_self)).1 (by decide)

end MrubyZmq
