import MrubyZmq.Poller.Closed
import MrubyZmq.Poller.Wait
import MrubyZmq.Reachability

/-!
# Pollers and the collector

libzmq holds the objects registered with a poller, and their sockets, by pointers
which the collector does not see. What the collector sees is the array of the
`ZMQ::Poller`, and the reference that a wrapper has to the socket it wraps.

These are enough (`kept_of_along`): as long as

* the two registries of each poller agree, and no registered socket is closed
  by the program (see `MrubyZmq.Poller.Agreement`, `MrubyZmq.Poller.Closed`),
* no object is removed of which a call of `wait` with a block has still to yield
  an event (see `MrubyZmq.Poller.Wait`),
* and an object registered for a socket is its `ZMQ::Socket` or refers to it,

no object which libzmq may return is freed, nor is one which `wait` has got from
it, and no socket which libzmq works on is closed by a finalizer, wherever the
collector runs. A plain `ZMQ::Socket` meets the last condition (`anchor_socket`),
a C pointer does not.
-/

namespace MrubyZmq

/-! ## Programs -/

/-- An object of the Ruby heap. -/
inductive PollObj
  | ref (r : Ref)
  | poller (n : ℕ)
  deriving DecidableEq, Repr

/-- An object that `wait` has returned or yielded, and whether it had been
    freed. -/
structure Handed where
  object : Ref
  freed : Bool
  deriving DecidableEq, Repr

/-- A call of `wait` with a block. -/
structure WaitFrame where
  poller : ℕ
  /-- The events which are still to be yielded. -/
  pending : List Event
  /-- The block has been called. -/
  begun : Bool := false

/-- Sockets and pollers with the collector. -/
structure Keeping where
  polling : Polling
  /-- The number of the next `ZMQ::Poller`. -/
  next : ℕ := 0
  /-- What the program refers to. -/
  roots : List PollObj := []
  /-- References the program has made, as from a wrapper to its socket. -/
  links : List (PollObj × PollObj) := []
  freed : List PollObj := []
  handed : List Handed := []
  /-- The calls of `wait` with a block, the last one first. -/
  waits : List WaitFrame := []

inductive KeepOp
  | new
  | poll (op : PollOp)
  /-- `wait` without a block, given the item which libzmq finds ready. -/
  | wait (n : ℕ) (ready : Option ℕ)
  /-- `wait` with a block, given the events which are ready. -/
  | waitAll (n : ℕ) (ready : List Event)
  /-- The block is called with the next event. -/
  | next
  /-- `wait` with a block is left: it returns, or its block breaks or raises. -/
  | leave
  /-- The program takes and drops references. -/
  | refer (roots : List PollObj) (links : List (PollObj × PollObj))
  /-- The collector frees what it has not marked, given for which sockets
      `zmq_close` succeeds. -/
  | collect (dead marked : List PollObj) (ok : ℕ → Bool)

/-- The poller an operation is called on. -/
def PollOp.poller : PollOp → Option ℕ
  | .add n _ _ _ | .modify n _ _ _ | .remove n _ _ | .wait n => some n
  | .allocate | .init _ _ _ | .close _ _ | .closeMark _ _ => none

namespace Keeping

variable (s : Keeping)

/-- The program runs, not libzmq. -/
def running : Bool :=
  match s.waits with
  | w :: _ => w.begun
  | [] => true

/-- The object has been allocated, and not been freed. -/
def Alive (c : PollObj) : Prop := (∀ n, c = .poller n → n < s.next) ∧ c ∉ s.freed

instance : (c : PollObj) → Decidable (s.Alive c)
  | .ref r => decidable_of_iff (.ref r ∉ s.freed) (by simp [Alive])
  | .poller n => decidable_of_iff (n < s.next ∧ .poller n ∉ s.freed) (by simp [Alive])

/-- What an object refers to. -/
def edges (c : PollObj) : List PollObj :=
  (match c with
    | .poller n => (s.polling.pollers n).sockets.map .ref
    | .ref _ => []) ++ (s.links.filter fun l => l.1 = c).map (·.2)

/-- The `ZMQ::Socket`s among the objects. -/
def sockets (l : List PollObj) : List ℕ :=
  l.filterMap fun c => match c with
    | .ref (.socket o) => some o
    | _ => none

/-- What the collector begins with: the pollers which wait are on the stack. -/
def held : List PollObj := s.waits.map (fun w => .poller w.poller) ++ s.roots

/-- The objects `dead` have not been marked. (A poller which has not been marked
    is not used again, and counts as freed together with the rest.) -/
def Garbage (dead marked : List PollObj) : Prop :=
  Marks s.edges s.held marked ∧ (∀ c ∈ dead, s.Alive c ∧ c ∉ marked) ∧
    ∀ n < s.next, s.Alive (.poller n) → .poller n ∉ marked → .poller n ∈ dead

instance (dead marked : List PollObj) : Decidable (s.Garbage dead marked) :=
  inferInstanceAs (Decidable (_ ∧ _ ∧ _))

/-- The objects `dead` are freed: `mrb_zmq_gc_close`, `mrb_zmq_gc_poller_destroy`. -/
def collect (dead : List PollObj) (ok : ℕ → Bool) : Keeping :=
  { s with
    polling :=
      { s.polling with
        interp := s.polling.interp.collect (sockets dead) ok
        pollers := fun n =>
          if .poller n ∈ dead then { zmq := ⟨[], List.nodup_nil⟩ } else s.polling.pollers n }
    freed := s.freed ++ dead }

/-- `mrb_zmq_poller_wait` without a block, which returns the user data of the
    item that is ready. -/
def wait (n : ℕ) (ready : Option ℕ) : Keeping :=
  let event := ready.bind fun k => (s.polling.pollers n).zmq.items[k]?
  { s with
    polling := s.polling.pollerWait n
    roots := event.toList.map (fun i => .ref i.userData) ++ s.roots
    handed := s.handed ++ event.toList.map fun i => ⟨i.userData, .ref i.userData ∈ s.freed⟩ }

/-- `mrb_zmq_poller_wait` with a block, until `zmq_poller_wait_all` returns. -/
def waitAll (n : ℕ) (ready : List Event) : Keeping :=
  { s with
    polling := s.polling.pollerWait n
    waits := { poller := n, pending := (s.polling.pollers n).waitAll ready } :: s.waits }

/-- `mrb_yield_argv`, in the loop of `mrb_zmq_poller_wait`. -/
def yield (n : ℕ) (e : Event) (pending : List Event) (waits : List WaitFrame) : Keeping :=
  { s with
    waits := { poller := n, pending, begun := true } :: waits
    roots := .ref e.userData :: s.roots
    handed := s.handed ++ [⟨e.userData, .ref e.userData ∈ s.freed⟩] }

/-- A new object is referred to. -/
def allocated : PollOp → List PollObj
  | .allocate => [.ref (.socket s.polling.interp.heap.next)]
  | _ => []

/-- The interpreter has just been started. -/
def start (env : Env) (opened : Bool) : Keeping where
  polling := .start env opened
  roots := (Polling.start env opened).interp.heap.objs.map fun x => .ref (.socket x.id)

end Keeping

open Keeping in
/-- A program using pollers, and the collector. A call is made on what has not
    been freed; libzmq returns the user data of its items. -/
def keeping : Machine Keeping KeepOp where
  step s
    | .new =>
      if s.running then some { s with next := s.next + 1, roots := .poller s.next :: s.roots }
      else none
    | .poll op =>
      if s.running ∧ (∀ r ∈ op.objects, s.Alive (.ref r)) ∧
          ∀ n ∈ op.poller, s.Alive (.poller n) then
        (polling.step s.polling op).map fun polling =>
          { s with polling, roots := s.allocated op ++ s.roots }
      else none
    | .wait n ready => if s.running ∧ s.Alive (.poller n) then some (s.wait n ready) else none
    | .waitAll n ready =>
      if s.running ∧ s.Alive (.poller n) ∧
          ∀ e ∈ ready, e.userData ∈ (s.polling.pollers n).objects then
        some (s.waitAll n ready)
      else none
    | .next =>
      match s.waits with
      | ⟨n, e :: pending, _⟩ :: waits => some (s.yield n e pending waits)
      | _ => none
    | .leave =>
      match s.waits with
      | _ :: waits => some { s with waits }
      | [] => none
    | .refer roots links =>
      if s.running ∧ (∀ c ∈ roots, s.Alive c) ∧ ∀ l ∈ links, s.Alive l.2 then
        some { s with roots, links }
      else none
    | .collect dead marked ok =>
      if s.Garbage dead marked then some (s.collect dead ok) else none

namespace Keeping

variable (s : Keeping)

/-- Whatever libzmq may return has not been freed, nor has what `wait` is still to
    yield, nor had what it did return or yield; and whatever libzmq works on has
    not been closed, nor was what it did work on. -/
structure Kept : Prop where
  userData : ∀ n, ∀ i ∈ (s.polling.pollers n).zmq.items, .ref i.userData ∉ s.freed
  pending : ∀ w ∈ s.waits, ∀ e ∈ w.pending, .ref e.userData ∉ s.freed
  handed : ∀ y ∈ s.handed, y.freed = false
  listed : ∀ n p, s.polling.Listed n p → ¬s.polling.Closed p
  work : ∀ w ∈ s.polling.work, w.closed = false

/-- The object is the `ZMQ::Socket` of the socket, or refers to it. -/
def Anchor (links : List (PollObj × PollObj)) (r : Ref) (p : ℕ) : Prop :=
  ∃ o, s.polling.interp.heap.data o = some p ∧
    (r = .socket o ∨ (.ref r, .ref (.socket o)) ∈ links)

/-- An object is added for a socket it refers to. -/
def Anchors : PollOp → Prop
  | .add _ socket _ ok => ok = true → ∀ p, s.polling.interp.pollerKey socket = .ok (.sock p) →
      s.Anchor s.links socket.ref p
  | _ => True

/-- An object which is removed is not one of an event that is still to be
    yielded: that is left in the array. -/
def Spares : PollOp → Prop
  | .remove n socket ok => ok = true → ∀ key, s.polling.interp.pollerKey socket = .ok key →
      (s.polling.pollers n).zmq.Registered key → ∀ w ∈ s.waits, w.poller = n →
        ∀ e ∈ w.pending, e.userData ∈ (arrayDelete socket.equals (s.polling.pollers n).sockets).2
  | _ => True

/-- The operation keeps the registries in agreement, closes no registered socket,
    removes no object that is still to be yielded, and leaves the objects
    registered for sockets with references to them. A finalizer has `zmq_close`
    succeed. -/
def Orderly (s : Keeping) : KeepOp → Prop
  | .poll op => s.polling.Matches op ∧ s.polling.Unlisted op ∧ s.Spares op ∧ s.Anchors op
  | .refer _ links => ∀ n, ∀ i ∈ (s.polling.pollers n).zmq.items, ∀ p, i.key = .sock p →
      s.Anchor links i.userData p
  | .collect dead _ ok => ∀ p ∈ s.polling.interp.heap.ptrsOf (sockets dead), ok p = true
  | _ => True

end Keeping

/-! ## Steps of the pollers -/

namespace Polling

variable {s s' : Polling} {op : PollOp} {n m o p : ℕ} {i : Item} {key : Except Err Key}
  {call : Key → ZmqPoller → Option ZmqPoller} {sockets : List Ref}

theorem afterCall_pollers_of_ne (h : n ≠ m) :
    (s.afterCall m key call sockets).pollers n = s.pollers n := by
  rcases key with err | key
  · rfl
  · rcases hcall : call key (s.pollers m).zmq with _ | zmq
    · rw [afterCall_none hcall]
      rfl
    · rw [afterCall_some hcall, set_pollers_of_ne h]
      rfl

/-- The other pollers stay as they are. -/
theorem pollers_step (h : polling.step s op = some s') (hn : op.poller ≠ some n) :
    s'.pollers n = s.pollers n := by
  have hne {m : ℕ} (hm : some m ≠ some n) : n ≠ m := fun heq => hm (heq ▸ rfl)
  cases op with
  | allocate | wait => exact Option.some.inj h ▸ rfl
  | init | close | closeMark =>
    obtain ⟨interp, -, rfl⟩ := Option.map_eq_some_iff.1 h
    rfl
  | add m socket events ok =>
    obtain rfl := Option.some.inj h
    rw [pollerAdd_snd]
    split
    · exact afterCall_pollers_of_ne (hne hn)
    · rfl
  | modify m socket events ok =>
    obtain rfl := Option.some.inj h
    rw [pollerModify_snd]
    split
    · exact afterCall_pollers_of_ne (hne hn)
    · rfl
  | remove m socket ok =>
    obtain rfl := Option.some.inj h
    rw [pollerRemove_snd]
    exact afterCall_pollers_of_ne (hne hn)

/-- The items after a call of libzmq are those before it, or what the call
    makes of its key. -/
theorem item_afterCall (hi : i ∈ ((s.afterCall m key call sockets).pollers n).zmq.items) :
    i ∈ (s.pollers n).zmq.items ∨
      m = n ∧ ∃ k zmq, key = .ok k ∧ call k (s.pollers m).zmq = some zmq ∧ i ∈ zmq.items := by
  by_cases hm : n = m
  · subst hm
    rcases key with err | k
    · exact .inl hi
    · rcases hcall : call k (s.pollers n).zmq with _ | zmq
      · rw [afterCall_none hcall] at hi
        exact .inl hi
      · rw [afterCall_some hcall, set_pollers_self] at hi
        exact .inr ⟨rfl, k, zmq, rfl, hcall, hi⟩
  · rw [afterCall_pollers_of_ne hm] at hi
    exact .inl hi

/-- An item was there before, or is the one which is added. -/
theorem item_step (h : polling.step s op = some s') (hi : i ∈ (s'.pollers n).zmq.items) :
    (∃ j ∈ (s.pollers n).zmq.items, j.key = i.key ∧ j.userData = i.userData) ∨
      ∃ socket events, op = .add n socket events true ∧
        s.interp.pollerKey socket = .ok i.key ∧ i.userData = socket.ref := by
  cases op with
  | allocate | wait =>
    obtain rfl := Option.some.inj h
    exact .inl ⟨i, hi, rfl, rfl⟩
  | init | close | closeMark =>
    obtain ⟨interp, -, rfl⟩ := Option.map_eq_some_iff.1 h
    exact .inl ⟨i, hi, rfl, rfl⟩
  | add m socket events ok =>
    obtain rfl := Option.some.inj h
    rw [pollerAdd_snd] at hi
    split at hi
    · rcases item_afterCall hi with hi | ⟨rfl, k, zmq, hkey, hadd, hi⟩
      · exact .inl ⟨i, hi, rfl, rfl⟩
      · obtain ⟨hfresh, hzmq⟩ := Option.dite_none_right_eq_some.1 hadd
        obtain rfl := Option.some.inj hzmq
        rcases List.mem_append.1 hi with hi | hi
        · exact .inl ⟨i, hi, rfl, rfl⟩
        · obtain rfl := List.mem_singleton.1 hi
          exact .inr ⟨socket, events, by rw [hfresh.2], hkey, rfl⟩
    · exact .inl ⟨i, hi, rfl, rfl⟩
  | modify m socket events ok =>
    obtain rfl := Option.some.inj h
    rw [pollerModify_snd] at hi
    split at hi
    · rcases item_afterCall hi with hi | ⟨rfl, k, zmq, -, hmodify, hi⟩
      · exact .inl ⟨i, hi, rfl, rfl⟩
      · obtain ⟨-, hmodify⟩ := Option.ite_none_right_eq_some.1 hmodify
        obtain rfl := Option.some.inj hmodify
        obtain ⟨j, hj, rfl⟩ := List.mem_map.1 hi
        exact .inl ⟨j, hj, rfl, rfl⟩
    · exact .inl ⟨i, hi, rfl, rfl⟩
  | remove m socket ok =>
    obtain rfl := Option.some.inj h
    rw [pollerRemove_snd] at hi
    rcases item_afterCall hi with hi | ⟨rfl, k, zmq, -, hremove, hi⟩
    · exact .inl ⟨i, hi, rfl, rfl⟩
    · obtain ⟨-, hremove⟩ := Option.ite_none_right_eq_some.1 hremove
      obtain rfl := Option.some.inj hremove
      exact .inl ⟨i, (List.mem_filter.1 hi).1, rfl, rfl⟩

/-- What is in the array of a poller stays there, unless it is removed. -/
theorem mem_sockets_of_spared {r : Ref} (h : polling.step s op = some s')
    (hr : r ∈ (s.pollers n).sockets)
    (hop : ∀ socket, op = .remove n socket true → ∀ key, s.interp.pollerKey socket = .ok key →
      (s.pollers n).zmq.Registered key → r ∈ (arrayDelete socket.equals (s.pollers n).sockets).2) :
    r ∈ (s'.pollers n).sockets := by
  by_cases hremove : ∃ socket ok, op = .remove n socket ok
  · obtain ⟨socket, ok, rfl⟩ := hremove
    obtain rfl := Option.some.inj h
    rw [pollerRemove_snd]
    rcases hkey : s.interp.pollerKey socket with err | key
    · exact hr
    · rcases hcall : (s.pollers n).zmq.remove key ok with _ | zmq
      · rw [afterCall_none hcall]
        exact hr
      · obtain ⟨⟨hregistered, rfl⟩, -⟩ := Option.ite_none_right_eq_some.1 hcall
        rw [afterCall_some hcall, set_pollers_self]
        exact hop socket rfl key hkey hregistered
  · exact (retains_step h fun socket ok heq => hremove ⟨socket, ok, heq⟩).2 hr

/-- What is done to an object without data pointer, or with another one, is not
    done to `o`. -/
theorem data_dataInit_of_ne {h : Heap ℕ} {o' : ℕ} {x : Obj ℕ} {d : Option ℕ}
    (ho : h.data o = some p) (hx : h.find o' = some x) (hne : x.data ≠ some p) :
    (h.dataInit o' d).data o = some p := by
  rw [Heap.data_dataInit hx, Function.update_of_ne, ho]
  rintro rfl
  exact hne ((Heap.data_of_find hx).symm.trans ho)

theorem data_closeData {s : Interp} {o' q : ℕ} {x : Obj ℕ} {ok : Bool}
    (ho : s.heap.data o = some p) (hx : s.heap.find o' = some x) (hq : x.data = some q)
    (hne : ok = true → q ≠ p) : (s.closeData o' q ok).heap.data o = some p := by
  cases ok with
  | false => exact ho
  | true => exact data_dataInit_of_ne ho hx fun heq => hne rfl (Option.some.inj (hq ▸ heq))

/-- A socket which is not closed stays the data pointer of its object. -/
theorem data_step (h : polling.step s op = some s') (ho : s.interp.heap.data o = some p)
    (hop : ¬s.Closing op p) : s'.interp.heap.data o = some p := by
  cases op with
  | allocate =>
    obtain rfl := Option.some.inj h
    exact (congrFun Heap.data_allocate o).trans ho
  | init o' type opened =>
    obtain ⟨interp, hinit, rfl⟩ := Option.map_eq_some_iff.1 h
    obtain ⟨x, hx, rfl⟩ := Option.map_eq_some_iff.1 hinit
    simp only
    split
    · exact ho
    · split
      · cases opened with
        | false => exact ho
        | true => exact data_dataInit_of_ne ho hx fun heq => by simp [heq] at *
      · exact ho
  | close o' ok =>
    obtain ⟨interp, hclose, rfl⟩ := Option.map_eq_some_iff.1 h
    obtain ⟨x, hx, rfl⟩ := Option.map_eq_some_iff.1 hclose
    rcases hdata : x.data with _ | q
    · exact ho
    · refine data_closeData ho hx hdata fun hok heq => hop ⟨hok, x, hx, ?_⟩
      rw [hdata, heq, Option.mem_some_iff]
  | closeMark o' ok =>
    obtain ⟨interp, hclose, rfl⟩ := Option.map_eq_some_iff.1 h
    obtain ⟨x, hx, rfl⟩ := Option.map_eq_some_iff.1 hclose
    rcases hdata : x.data with _ | q
    · exact ho
    · refine data_closeData (s := s.interp.call [.use q]) ho hx hdata fun hok heq =>
        hop ⟨hok, x, hx, ?_⟩
      rw [hdata, heq, Option.mem_some_iff]
  | add m socket events ok =>
    obtain rfl := Option.some.inj h
    rw [pollerAdd_snd]
    split
    · rwa [afterCall_interp]
    · exact ho
  | modify m socket events ok =>
    obtain rfl := Option.some.inj h
    rw [pollerModify_snd]
    split
    · rwa [afterCall_interp]
    · exact ho
  | remove m socket ok =>
    obtain rfl := Option.some.inj h
    rwa [pollerRemove_snd, afterCall_interp]
  | wait m => exact Option.some.inj h ▸ ho

end Polling

/-! ## The invariant -/

namespace Keeping

/-- Objects and sockets are kept by what the collector sees. -/
structure Intact (s : Keeping) : Prop where
  opened : s.polling.Open
  agree : s.polling.Agree
  anchored : ∀ n, ∀ i ∈ (s.polling.pollers n).zmq.items, ∀ p, i.key = .sock p →
    s.Anchor s.links i.userData p
  live : ∀ n, ∀ r ∈ (s.polling.pollers n).sockets, .ref r ∉ s.freed
  absent : ∀ n, ¬s.Alive (.poller n) → s.polling.pollers n = {}
  pending : ∀ w ∈ s.waits, ∀ e ∈ w.pending, e.userData ∈ (s.polling.pollers w.poller).sockets
  handed : ∀ y ∈ s.handed, y.freed = false

variable {s s' : Keeping} {op : KeepOp} {n p : ℕ} {r : Ref} {i : Item} {dead marked : List PollObj}
  {ok : ℕ → Bool}

theorem Intact.mem_sockets (hs : s.Intact) (hi : i ∈ (s.polling.pollers n).zmq.items) :
    i.userData ∈ (s.polling.pollers n).sockets :=
  ((hs.agree n).mem_iff _).2 ⟨i, hi, rfl⟩

theorem Intact.kept (hs : s.Intact) : s.Kept where
  userData n _ hi := hs.live n _ (hs.mem_sockets hi)
  pending w hw e he := hs.live w.poller _ (hs.pending w hw e he)
  handed := hs.handed
  listed := hs.opened.listed
  work := hs.opened.work

/-- A poller with items is alive. -/
theorem Intact.alive (hs : s.Intact) (h : s.polling.pollers n ≠ {}) : s.Alive (.poller n) :=
  not_not.1 fun halive => h (hs.absent n halive)

/-- The objects of a poller which is not freed are marked. -/
theorem Intact.mem_marked (hs : s.Intact) (h : s.Garbage dead marked) (hn : .poller n ∉ dead)
    (hr : r ∈ (s.polling.pollers n).sockets) : .ref r ∈ marked := by
  obtain ⟨hmarks, -, hswept⟩ := h
  have halive := hs.alive fun hempty => absurd (hempty ▸ hr) List.not_mem_nil
  have hpoller : .poller n ∈ marked := by
    by_contra hunmarked
    exact hn (hswept n (halive.1 n rfl) halive hunmarked)
  refine hmarks.edges _ hpoller _ ?_
  exact List.mem_append_left _ (List.mem_map_of_mem hr)

theorem mem_sockets_iff {l : List PollObj} {o : ℕ} : o ∈ sockets l ↔ .ref (.socket o) ∈ l := by
  rw [sockets, List.mem_filterMap]
  constructor
  · rintro ⟨c, hc, ho⟩
    split at ho
    · rwa [← Option.some.inj ho]
    · exact absurd ho (by simp)
  · exact fun h => ⟨_, h, rfl⟩

/-- The collector frees no `ZMQ::Socket` of an item that stays. -/
theorem Intact.socket_notMem (hs : s.Intact) (h : s.Garbage dead marked) (hn : .poller n ∉ dead)
    (hi : i ∈ (s.polling.pollers n).zmq.items) {o : ℕ}
    (ho : i.userData = .socket o ∨ (.ref i.userData, .ref (.socket o)) ∈ s.links) :
    o ∉ sockets dead := by
  intro hmem
  have hmarked := hs.mem_marked h hn (hs.mem_sockets hi)
  refine (h.2.1 _ (mem_sockets_iff.1 hmem)).2 ?_
  rcases ho with ho | ho
  · exact ho ▸ hmarked
  · refine h.1.edges _ hmarked _ (List.mem_append_right _ ?_)
    have hlink : (.ref i.userData, .ref (.socket o)) ∈
        s.links.filter fun l => l.1 = .ref i.userData :=
      List.mem_filter.2 ⟨ho, decide_eq_true rfl⟩
    exact List.mem_map.2 ⟨_, hlink, rfl⟩

theorem pollers_collect : (s.collect dead ok).polling.pollers n =
    if .poller n ∈ dead then {} else s.polling.pollers n := rfl

theorem item_collect (hi : i ∈ ((s.collect dead ok).polling.pollers n).zmq.items) :
    .poller n ∉ dead ∧ i ∈ (s.polling.pollers n).zmq.items := by
  rw [pollers_collect] at hi
  split at hi
  · exact absurd hi List.not_mem_nil
  · exact ⟨‹_›, hi⟩

theorem Intact.collect (hs : s.Intact) (h : s.Garbage dead marked)
    (hok : ∀ p ∈ s.polling.interp.heap.ptrsOf (sockets dead), ok p = true) :
    (s.collect dead ok).Intact := by
  have htidy := hs.opened.tidy
  refine ⟨⟨htidy.collect hok, fun n p hn hp => ?_, hs.opened.work⟩, fun n => ?_,
    fun n i hi p hp => ?_, fun n r hr hfreed => ?_, fun n hn => ?_, fun w hw e he => ?_, hs.handed⟩
  · -- A closed socket was so before, or belonged to an object that is freed.
    obtain ⟨i, hi, hkey⟩ := List.mem_map.1 hn
    obtain ⟨hn, hi⟩ := item_collect hi
    obtain ⟨o, ho, href⟩ := hs.anchored n i hi p hkey
    rcases List.mem_append.1 hp with hp | hp
    · exact hs.opened.listed n p (List.mem_map.2 ⟨i, hi, hkey⟩) hp
    · obtain ⟨o', hdead, ho'⟩ := Heap.mem_ptrsOf.1 (Interp.mem_lingerClose.1 hp).1
      obtain rfl := Heap.data_inj htidy.nodup ho ho'
      exact hs.socket_notMem h hn hi href hdead
  · rw [pollers_collect]
    split
    · exact Poller.agree_iff.2 ⟨List.nodup_nil, .nil⟩
    · exact hs.agree n
  · obtain ⟨hn, hi⟩ := item_collect hi
    obtain ⟨o, ho, href⟩ := hs.anchored n i hi p hp
    refine ⟨o, ?_, href⟩
    have hmem := hs.socket_notMem h hn hi href
    exact ((congrFun Heap.data_sweep o).trans (if_neg hmem)).trans ho
  · rw [pollers_collect] at hr
    split at hr
    · exact absurd hr List.not_mem_nil
    · rcases List.mem_append.1 hfreed with hfreed | hfreed
      · exact hs.live n r hr hfreed
      · exact (h.2.1 _ hfreed).2 (hs.mem_marked h ‹_› hr)
  · rw [pollers_collect]
    split
    · rfl
    · refine hs.absent n fun halive => hn ⟨halive.1, fun hfreed => ?_⟩
      exact (List.mem_append.1 hfreed).elim halive.2 ‹_›
  · -- A poller which waits is marked.
    have hmarked : .poller w.poller ∈ marked :=
      h.1.roots _ (List.mem_append_left _ (List.mem_map_of_mem hw))
    rw [pollers_collect, if_neg fun hdead => (h.2.1 _ hdead).2 hmarked]
    exact hs.pending w hw e he

theorem Intact.poll (hs : s.Intact) {op : PollOp} {polling' : Polling}
    (hargs : ∀ r ∈ op.objects, s.Alive (.ref r)) (hpoller : ∀ n ∈ op.poller, s.Alive (.poller n))
    (h : MrubyZmq.polling.step s.polling op = some polling') (hop : s.Orderly (.poll op)) :
    Intact { s with polling := polling', roots := s.allocated op ++ s.roots } := by
  obtain ⟨hmatches, hunlisted, hspares, hanchors⟩ := hop
  have hopened := hs.opened.step h hunlisted
  have hagree := (hs.agree.step h).2 hmatches
  refine ⟨hopened, hagree, fun n i hi p hkey => ?_, fun n r hr => ?_, fun n hn => ?_,
    fun w hw e he => ?_, hs.handed⟩
  · rcases Polling.item_step h hi with ⟨j, hj, hjkey, hobject⟩ | ⟨socket, events, rfl, hk, hobject⟩
    · obtain ⟨o, ho, href⟩ := hs.anchored n j hj p (hjkey.trans hkey)
      -- The socket is registered, and hence not closed.
      have hnot : ¬s.polling.Closing op p := fun hclosing =>
        hunlisted p hclosing n (List.mem_map.2 ⟨j, hj, hjkey.trans hkey⟩)
      exact ⟨o, Polling.data_step h ho hnot, hobject ▸ href⟩
    · rw [hkey] at hk
      obtain ⟨o, ho, href⟩ := hanchors rfl p hk
      exact ⟨o, Polling.data_step h ho id, hobject ▸ href⟩
  · rcases Polling.mem_sockets_step h hr with hr | hr
    · exact hs.live n r hr
    · exact (hargs r hr).2
  · have hne : op.poller ≠ some n := fun heq => hn (hpoller n heq)
    exact (Polling.pollers_step h hne).trans (hs.absent n hn)
  · refine Polling.mem_sockets_of_spared h (hs.pending w hw e he) ?_
    rintro socket rfl key hkey hregistered
    exact hspares rfl key hkey hregistered w hw rfl e he

theorem Intact.pollerWait (hs : s.Intact) : (s.polling.pollerWait n).Open :=
  hs.opened.step (rfl : MrubyZmq.polling.step s.polling (.wait n) = some _) fun _ h => absurd h id

theorem Intact.wait (hs : s.Intact) (ready : Option ℕ) : (s.wait n ready).Intact := by
  refine ⟨hs.pollerWait, hs.agree, hs.anchored, hs.live, hs.absent, hs.pending, fun y hy => ?_⟩
  rcases List.mem_append.1 hy with hy | hy
  · exact hs.handed y hy
  · obtain ⟨i, hi, rfl⟩ := List.mem_map.1 hy
    obtain ⟨k, -, hk⟩ := Option.bind_eq_some_iff.1 (Option.mem_toList.1 hi)
    exact decide_eq_false (hs.live n _ (hs.mem_sockets (List.mem_of_getElem? hk)))

theorem Intact.waitAll (hs : s.Intact) {ready : List Event}
    (hready : ∀ e ∈ ready, e.userData ∈ (s.polling.pollers n).objects) :
    (s.waitAll n ready).Intact := by
  refine ⟨hs.pollerWait, hs.agree, hs.anchored, hs.live, hs.absent, fun w hw e he => ?_, hs.handed⟩
  rcases List.mem_cons.1 hw with rfl | hw
  · exact (hs.agree n).waitAll hready he
  · exact hs.pending w hw e he

/-- What is yielded has not been freed: it is still in the array. -/
theorem Intact.yield (hs : s.Intact) {e : Event} {pending : List Event} {begun : Bool}
    {waits : List WaitFrame} (hwaits : s.waits = ⟨n, e :: pending, begun⟩ :: waits) :
    (s.yield n e pending waits).Intact := by
  have hpending := hs.pending
  rw [hwaits] at hpending
  obtain ⟨hw, hrest⟩ := List.forall_mem_cons.1 hpending
  obtain ⟨he, htail⟩ := List.forall_mem_cons.1 hw
  refine ⟨hs.opened, hs.agree, hs.anchored, hs.live, hs.absent,
    List.forall_mem_cons.2 ⟨htail, hrest⟩, fun y hy => ?_⟩
  rcases List.mem_append.1 hy with hy | hy
  · exact hs.handed y hy
  · rw [List.mem_singleton.1 hy]
    exact decide_eq_false (hs.live n _ he)

theorem Intact.step (hs : s.Intact) (h : keeping.step s op = some s') (hop : s.Orderly op) :
    s'.Intact := by
  cases op with
  | new =>
    obtain ⟨-, h⟩ := Option.ite_none_right_eq_some.1 h
    obtain rfl := Option.some.inj h
    refine ⟨hs.opened, hs.agree, hs.anchored, hs.live, fun n hn => ?_, hs.pending, hs.handed⟩
    exact hs.absent n fun halive => hn ⟨fun m hm => Nat.lt_succ_of_lt (halive.1 m hm), halive.2⟩
  | poll op =>
    obtain ⟨⟨-, hargs, hpoller⟩, h⟩ := Option.ite_none_right_eq_some.1 h
    obtain ⟨polling', hstep, rfl⟩ := Option.map_eq_some_iff.1 h
    exact hs.poll hargs hpoller hstep hop
  | wait n ready =>
    obtain ⟨-, h⟩ := Option.ite_none_right_eq_some.1 h
    exact Option.some.inj h ▸ hs.wait ready
  | waitAll n ready =>
    obtain ⟨⟨-, -, hready⟩, h⟩ := Option.ite_none_right_eq_some.1 h
    exact Option.some.inj h ▸ hs.waitAll hready
  | next =>
    simp only [keeping] at h
    split at h
    · exact Option.some.inj h ▸ hs.yield ‹_›
    · exact absurd h (by simp)
  | leave =>
    have hpending := hs.pending
    simp only [keeping] at h
    split at h
    · rename_i w waits hwaits
      obtain rfl := Option.some.inj h
      rw [hwaits] at hpending
      exact ⟨hs.opened, hs.agree, hs.anchored, hs.live, hs.absent,
        (List.forall_mem_cons.1 hpending).2, hs.handed⟩
    · exact absurd h (by simp)
  | refer roots links =>
    obtain ⟨-, h⟩ := Option.ite_none_right_eq_some.1 h
    obtain rfl := Option.some.inj h
    exact ⟨hs.opened, hs.agree, hop, hs.live, hs.absent, hs.pending, hs.handed⟩
  | collect dead marked ok =>
    obtain ⟨hgarbage, h⟩ := Option.ite_none_right_eq_some.1 h
    exact Option.some.inj h ▸ hs.collect hgarbage hop

theorem intact_start (env : Env) (opened : Bool) : (start env opened).Intact where
  opened := Polling.open_start env opened
  agree := Polling.agree_start env opened
  anchored _ _ hi := absurd hi List.not_mem_nil
  live _ _ hr := absurd hr List.not_mem_nil
  absent _ _ := rfl
  pending _ hw := absurd hw List.not_mem_nil
  handed _ hy := absurd hy List.not_mem_nil

/-- A `ZMQ::Socket` that is added as such needs no other reference. -/
theorem anchor_socket {links : List (PollObj × PollObj)} {socket : PollArg} {o : ℕ}
    (hfileno : socket.fileno = none) (hzmq : socket.zmqSocket = none)
    (href : socket.ref = .socket o)
    (hkey : s.polling.interp.pollerKey socket = .ok (.sock p)) : s.Anchor links socket.ref p := by
  rw [Interp.pollerKey, hfileno, hzmq, href] at hkey
  simp only [Interp.getSocket] at hkey
  rcases hdata : s.polling.interp.heap.data o with _ | q
  · rw [Heap.data] at hdata
    rw [hdata] at hkey
    exact absurd hkey (by simp [Except.map])
  · rw [Heap.data] at hdata
    rw [hdata] at hkey
    obtain rfl : q = p := Key.sock.inj (Except.ok.inj hkey)
    exact ⟨o, hdata, .inl href⟩

end Keeping

open Keeping

/-- In every run of a program whose operations are orderly, wherever the
    collector runs, what libzmq may return and `wait` may yield is not freed, and
    what libzmq works on is not closed. -/
theorem kept_of_along (env : Env) (opened : Bool) (ops : List KeepOp)
    (hops : keeping.Along Orderly (start env opened) ops) :
    keeping.Always Kept (start env opened) ops := by
  have hintact := Machine.always_of_along (fun _ _ _ hs h hop => Intact.step hs h hop)
    (intact_start env opened) hops
  exact ⟨hintact.1.kept, hintact.throughout fun _ _ _ _ _ hs' => hs'.kept⟩

/-- The program drops a socket it has added, and another one: the first is kept
    by the poller, and yielded by `wait`, although the collector has run before. -/
theorem kept_dropped :
    let socket : PollArg := { ref := .socket 0 }
    let ops : List KeepOp := [.new, .poll .allocate, .poll (.init 0 1 true), .poll .allocate,
      .poll (.add 0 socket 1 true), .refer [.poller 0] [], .waitAll 0 [⟨.socket 0, 1⟩],
      .collect [.ref (.socket 1)] [.poller 0, .ref (.socket 0)] fun _ => true, .next, .leave]
    (keeping.run (start {} true) ops).map (·.handed) = some [⟨.socket 0, false⟩] ∧
      keeping.Always Kept (start {} true) ops := by
  intro socket ops
  refine ⟨rfl, kept_of_along {} true ops ?_⟩
  refine (Machine.along_cons rfl).2 ⟨trivial, ?_⟩
  refine (Machine.along_cons rfl).2 ⟨⟨trivial, fun _ h => absurd h id, trivial, trivial⟩, ?_⟩
  refine (Machine.along_cons rfl).2 ⟨⟨trivial, fun _ h => absurd h id, trivial, trivial⟩, ?_⟩
  refine (Machine.along_cons rfl).2 ⟨⟨trivial, fun _ h => absurd h id, trivial, trivial⟩, ?_⟩
  refine (Machine.along_cons rfl).2 ⟨⟨fun _ _ _ _ _ => List.not_mem_nil,
    fun _ h => absurd h id, trivial, fun _ _ hp => anchor_socket rfl rfl rfl hp⟩, ?_⟩
  refine (Machine.along_cons rfl).2 ⟨fun n i hi p hp => ?_, ?_⟩
  · -- The only item is the one which has been added.
    rcases @Polling.item_step _ _ (.add 0 socket 1 true) n i rfl hi with ⟨j, hj, -⟩ | ⟨_, _, heq, -⟩
    · exact absurd hj List.not_mem_nil
    · obtain rfl : 0 = n := (PollOp.add.inj heq).1
      obtain rfl := List.mem_singleton.1 hi
      obtain rfl := Key.sock.inj hp
      exact ⟨0, rfl, .inl rfl⟩
  · refine (Machine.along_cons rfl).2 ⟨trivial, ?_⟩
    refine (Machine.along_cons rfl).2 ⟨fun _ _ => rfl, ?_⟩
    refine (Machine.along_cons rfl).2 ⟨trivial, ?_⟩
    exact (Machine.along_cons rfl).2 ⟨trivial, trivial⟩

end MrubyZmq
