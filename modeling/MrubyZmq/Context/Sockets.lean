import MrubyZmq.Context

/-!
# Who closes a socket

A socket of libzmq should belong to exactly one object until it is closed, be
closed once and not used afterwards, and be closed before its context is
terminated (`Sound`).

The four ways of closing a socket agree on one convention: the data pointer of
an object is a socket which has not been closed (`Tidy`). It breaks where

* a function hands libzmq a data pointer which was closed after it was fetched,
  as `LibZMQ.send` does if the conversion of the message closes the socket;
* `zmq_close` fails for the finalizer or in the walk before a context is
  terminated, which drop the data pointer anyway.

Otherwise all is well in every run (`sound_iff_along`).
-/

namespace MrubyZmq

/-- What may be done to sockets after the calls `past`. -/
def SocketAllowed (past : List Call) : Call → Prop
  | .use p | .close p _ => .close p true ∉ past
  | .ctxTerm c _ => ∀ p, .socket c (some p) ∈ past → .close p true ∈ past
  | _ => True

/-- The socket has been opened, and not yet closed. -/
def IsOpen (calls : List Call) (p : ℕ) : Prop :=
  (∃ c, .socket c (some p) ∈ calls) ∧ .close p true ∉ calls

namespace Interp

variable (s : Interp)

/-- Each open socket is the data pointer of one object, and no closed socket has
    been used, closed again, or left open in a terminated context. -/
structure Sound : Prop where
  lawful : Lawful SocketAllowed [] s.calls
  count : ∀ p, IsOpen s.calls p → s.heap.ptrs.count p = 1

/-- The data pointers are the open sockets. -/
structure Tidy : Prop where
  lawful : Lawful SocketAllowed [] s.calls
  mem_ptrs : ∀ p, p ∈ s.heap.ptrs ↔ IsOpen s.calls p
  nodup : s.heap.ptrs.Nodup
  socket_lt : ∀ c p, .socket c (some p) ∈ s.calls → p < s.nextSocket
  close_lt : ∀ p, .close p true ∈ s.calls → p < s.nextSocket

variable {s} {env : Env} {s' : Interp} {l : List Call} {o p : ℕ} {ok : ℕ → Bool} {dead : List ℕ}

theorem Tidy.sound (hs : s.Tidy) : s.Sound :=
  ⟨hs.lawful, fun p hp => List.count_eq_one_of_mem hs.nodup ((hs.mem_ptrs p).2 hp)⟩

/-! ## Calls -/

/-- The call neither opens nor closes a socket. -/
def Keeps (a : Call) : Prop := (∀ c p, a ≠ .socket c (some p)) ∧ ∀ p, a ≠ .close p true

theorem isOpen_append_keeps {calls : List Call} (hl : ∀ a ∈ l, Keeps a) :
    IsOpen (calls ++ l) p ↔ IsOpen calls p := by
  have hsocket : ∀ c, .socket c (some p) ∉ l := fun c h => (hl _ h).1 c p rfl
  have hclose : .close p true ∉ l := fun h => (hl _ h).2 p rfl
  simp [IsOpen, hsocket, hclose]

theorem isOpen_append_socket {calls : List Call} {c q : ℕ} (hq : .close q true ∉ calls) :
    IsOpen (calls ++ [.socket c (some q)]) p ↔ IsOpen calls p ∨ p = q := by
  by_cases hp : p = q
  · subst hp
    simp [IsOpen, hq]
  · simp [IsOpen, hp]

theorem mem_lingerClose {ps : List ℕ} :
    .close p true ∈ ps.flatMap (lingerClose ok) ↔ p ∈ ps ∧ ok p = true := by
  rw [List.mem_flatMap]
  constructor
  · rintro ⟨q, hq, h⟩
    rcases List.mem_cons.1 h with h | h
    · exact Call.noConfusion h
    · obtain ⟨rfl, hok⟩ := Call.close.inj (List.mem_singleton.1 h)
      exact ⟨hq, hok.symm⟩
  · rintro ⟨hp, hok⟩
    exact ⟨p, hp, by simp [lingerClose, hok]⟩

theorem lawful_lingerClose {past : List Call} {ps : List ℕ} (hps : ps.Nodup)
    (h : ∀ p ∈ ps, .close p true ∉ past) :
    Lawful SocketAllowed past (ps.flatMap (lingerClose ok)) := by
  induction ps generalizing past with
  | nil => trivial
  | cons p ps ih =>
    rw [List.flatMap_cons, lawful_append]
    obtain ⟨hp, hps⟩ := List.nodup_cons.1 hps
    have hpast := h p List.mem_cons_self
    refine ⟨⟨hpast, by simpa [SocketAllowed] using hpast, trivial⟩, ih hps fun q hq => ?_⟩
    have hne : q ≠ p := fun heq => hp (heq ▸ hq)
    simp [lingerClose, h q (List.mem_cons_of_mem p hq), hne]

theorem socket_notMem_lingerClose {ps : List ℕ} {c q : ℕ} :
    .socket c (some q) ∉ ps.flatMap (lingerClose ok) := by
  simp [List.mem_flatMap, lingerClose]

/-- Calls which neither open nor close a socket. -/
theorem Tidy.call (hs : s.Tidy) (hl : ∀ a ∈ l, Keeps a) (hlawful : Lawful SocketAllowed s.calls l) :
    (s.call l).Tidy := by
  have hsocket : ∀ c p, .socket c (some p) ∉ l := fun c p h => (hl _ h).1 c p rfl
  have hclose : ∀ p, .close p true ∉ l := fun p h => (hl _ h).2 p rfl
  refine ⟨?_, fun p => ?_, hs.nodup, fun c p h => ?_, fun p h => ?_⟩
  · rw [Interp.call, lawful_append]
    exact ⟨hs.lawful, hlawful⟩
  · rw [Interp.call, isOpen_append_keeps hl]
    exact hs.mem_ptrs p
  · exact hs.socket_lt c p ((List.mem_append.1 h).resolve_right (hsocket c p))
  · exact hs.close_lt p ((List.mem_append.1 h).resolve_right (hclose p))

theorem Tidy.congr (hs : s.Tidy) (hcalls : s'.calls = s.calls)
    (hptrs : s'.heap.ptrs = s.heap.ptrs) (hnext : s'.nextSocket = s.nextSocket) : s'.Tidy := by
  obtain ⟨hlawful, hmem, hnodup, hsocket_lt, hclose_lt⟩ := hs
  refine ⟨?_, ?_, ?_, ?_, ?_⟩ <;> simp only [hcalls, hptrs, hnext] <;> assumption

/-- Handing libzmq sockets which have not been closed. -/
theorem Tidy.uses (hs : s.Tidy) {args : List (ℕ × ℕ)} (h : ∀ a ∈ args, .close a.2 true ∉ s.calls) :
    (s.call (args.map fun a => .use a.2)).Tidy := by
  have hkeeps : ∀ a ∈ args.map fun a => Call.use a.2, Keeps a := by
    intro a ha
    obtain ⟨b, -, rfl⟩ := List.mem_map.1 ha
    simp [Keeps]
  refine hs.call hkeeps (lawful_of_forall fun k a m hl => ?_)
  have ha : a ∈ args.map fun a => Call.use a.2 := hl ▸ List.mem_append_right k List.mem_cons_self
  obtain ⟨b, hb, rfl⟩ := List.mem_map.1 ha
  intro hclose
  rcases List.mem_append.1 hclose with hclose | hclose
  · exact h b hb hclose
  · exact (hkeeps _ (hl ▸ List.mem_append_left _ hclose)).2 b.2 rfl

/-! ## Opening and closing -/

theorem Tidy.openSocket (hs : s.Tidy) {x : Obj ℕ} (hx : s.heap.find o = some x)
    (hdata : x.data = none) (opened : Bool) : (s.openSocket o opened).Tidy := by
  cases opened with
  | false => exact hs.call (by simp [Keeps]) (by simp [SocketAllowed])
  | true =>
    obtain ⟨l, m, hptrs, hset⟩ := Heap.ptrs_dataInit hx
    rw [hdata, Option.toList_none, List.append_nil] at hptrs
    have hfresh : .close s.nextSocket true ∉ s.calls := fun h => Nat.lt_irrefl _ (hs.close_lt _ h)
    have hnew : s.nextSocket ∉ l ++ m := fun h => by
      obtain ⟨c, hc⟩ := ((hs.mem_ptrs _).1 (hptrs ▸ h)).1
      exact Nat.lt_irrefl _ (hs.socket_lt c _ hc)
    have hset' : (s.openSocket o true).heap.ptrs = l ++ s.nextSocket :: m := by
      rw [Interp.openSocket, if_pos rfl, hset, List.append_assoc]
      rfl
    refine ⟨?_, fun q => ?_, ?_, fun c q hq => ?_, fun q hq => ?_⟩
    · rw [Interp.openSocket, if_pos rfl, Interp.call, lawful_append]
      exact ⟨hs.lawful, trivial, trivial⟩
    · rw [hset', Interp.openSocket, if_pos rfl, Interp.call, isOpen_append_socket hfresh,
        ← hs.mem_ptrs, hptrs]
      simp [or_left_comm, or_comm]
    · rw [hset', List.nodup_middle]
      exact List.nodup_cons.2 ⟨hnew, hptrs ▸ hs.nodup⟩
    · rcases List.mem_append.1 hq with hq | hq
      · exact Nat.lt_succ_of_lt (hs.socket_lt c q hq)
      · obtain ⟨-, hq⟩ := Call.socket.inj (List.mem_singleton.1 hq)
        exact Option.some.inj hq ▸ Nat.lt_succ_self _
    · rcases List.mem_append.1 hq with hq | hq
      · exact Nat.lt_succ_of_lt (hs.close_lt q hq)
      · exact Call.noConfusion (List.mem_singleton.1 hq)

/-- The sockets `ps` are closed and no longer the data pointer of an object. -/
theorem Tidy.closed (hs : s.Tidy) (ps : List ℕ) {heap : Heap ℕ}
    (hperm : (ps ++ heap.ptrs).Perm s.heap.ptrs) (hclose : ∀ q, .close q true ∈ l ↔ q ∈ ps)
    (hsocket : ∀ c q, .socket c (some q) ∉ l) (hlawful : Lawful SocketAllowed s.calls l) :
    ({ s.call l with heap } : Interp).Tidy := by
  have hnodup := hperm.nodup_iff.2 hs.nodup
  have hmem (q : ℕ) : q ∈ s.heap.ptrs ↔ q ∈ ps ∨ q ∈ heap.ptrs := by
    rw [← hperm.mem_iff, List.mem_append]
  refine ⟨?_, fun q => ?_, hnodup.of_append_right, fun c q h => ?_, fun q h => ?_⟩
  · rw [Interp.call, lawful_append]
    exact ⟨hs.lawful, hlawful⟩
  · -- The calls close `ps`, and open nothing.
    have hopen : IsOpen (s.calls ++ l) q ↔ IsOpen s.calls q ∧ q ∉ ps := by
      simp [IsOpen, hsocket, hclose, and_assoc]
    rw [Interp.call, hopen, ← hs.mem_ptrs q, hmem]
    constructor
    · exact fun h => ⟨Or.inr h, fun h' => List.disjoint_of_nodup_append hnodup h' h⟩
    · exact fun h => h.1.resolve_left h.2
  · exact hs.socket_lt c q ((List.mem_append.1 h).resolve_right (hsocket c q))
  · rcases List.mem_append.1 h with h | h
    · exact hs.close_lt q h
    · obtain ⟨c, hc⟩ := ((hs.mem_ptrs q).1 ((hmem q).2 (Or.inl ((hclose q).1 h)))).1
      exact hs.socket_lt c q hc

theorem Tidy.closeData (hs : s.Tidy) {x : Obj ℕ} (hx : s.heap.find o = some x)
    (hdata : x.data = some p) {ok : Bool} : (s.closeData o p ok).Tidy := by
  obtain ⟨l, m, hptrs, hset⟩ := Heap.ptrs_dataInit hx
  have hopen := ((hs.mem_ptrs p).1 (Heap.mem_ptrs_of_find hx hdata)).2
  cases ok with
  | false => exact hs.call (by simp [Keeps]) (by simpa [SocketAllowed] using hopen)
  | true =>
    refine hs.closed [p] ?_ (by simp) (by simp) (by simpa [SocketAllowed] using hopen)
    rw [hset, hptrs, hdata]
    simpa using List.perm_middle.symm

/-- The swept objects are closed, if `zmq_close` succeeds. -/
theorem Tidy.collect (hs : s.Tidy) (hok : ∀ p ∈ s.heap.ptrsOf dead, ok p = true) :
    (s.collect dead ok).Tidy := by
  have hperm := @Heap.ptrs_sweep _ s.heap dead
  have hnodup := (hperm.nodup_iff.2 hs.nodup).of_append_left
  refine hs.closed _ hperm (fun q => ?_) (fun c q => socket_notMem_lingerClose)
    (lawful_lingerClose hnodup fun q hq => ?_)
  · rw [mem_lingerClose]
    exact and_iff_left_of_imp (hok q)
  · exact ((hs.mem_ptrs q).1 (hperm.mem_iff.1 (List.mem_append_left _ hq))).2

/-- All objects are closed, if `zmq_close` succeeds. -/
theorem Tidy.closeAll (hs : s.Tidy) (hok : ∀ p ∈ s.heap.ptrs, ok p = true) :
    (s.closeAll ok).Tidy := by
  refine hs.closed s.heap.ptrs ?_ (fun q => ?_) (fun c q => socket_notMem_lingerClose)
    (lawful_lingerClose hs.nodup fun q hq => ((hs.mem_ptrs q).1 hq).2)
  · rw [Heap.ptrs_clear, List.append_nil]
  · rw [mem_lingerClose]
    exact and_iff_left_of_imp (hok q)

/-! ## Terminating the context -/

theorem Tidy.ctxShutdownCloseAndTerm (hs : s.Tidy) (via : Via) (dead : List ℕ)
    (hok : ∀ p ∈ s.heap.ptrs, ok p = true) : (s.ctxShutdownCloseAndTerm via dead ok).Tidy := by
  have hperm := @Heap.ptrs_sweep _ s.heap dead
  have hshutdown : (s.call [.ctxShutdown s.ctx]).Tidy :=
    hs.call (by simp [Keeps]) (by simp [SocketAllowed])
  have hcollect := @collect _ ok dead hshutdown fun p hp =>
    hok p (hperm.mem_iff.1 (List.mem_append_left _ hp))
  have hclose := @closeAll _ ok hcollect fun p hp =>
    hok p (hperm.mem_iff.1 (List.mem_append_right _ hp))
  refine hclose.call (by simp [Keeps]) ⟨fun p hp => ?_, trivial⟩
  -- An open socket would be the data pointer of some object.
  by_contra hopen
  have hmem := (hclose.mem_ptrs p).2 ⟨⟨_, hp⟩, hopen⟩
  rw [Interp.closeAll, Heap.ptrs_clear] at hmem
  exact List.not_mem_nil hmem

theorem close_mem_ctxShutdownCloseAndTerm {via : Via} :
    .close p true ∈ (s.ctxShutdownCloseAndTerm via dead ok).calls ↔
      .close p true ∈ s.calls ∨ p ∈ s.heap.ptrs ∧ ok p = true := by
  have hperm := @Heap.ptrs_sweep _ s.heap dead
  rw [← hperm.mem_iff, List.mem_append, or_and_right, ← mem_lingerClose, ← mem_lingerClose]
  simp [Interp.ctxShutdownCloseAndTerm, Interp.call, Interp.closeAll, Interp.collect]

theorem ptrs_ctxShutdownCloseAndTerm {via : Via} :
    (s.ctxShutdownCloseAndTerm via dead ok).heap.ptrs = [] := Heap.ptrs_clear

/-! ## Steps -/

/-- The operation closes sockets as it should: `zmq_close` succeeds where its
    failure is not noticed, and no socket is closed after being fetched. -/
def Closes (env : Env) (s : Interp) : Op → Prop
  | .collect dead ok => ∀ p ∈ s.heap.ptrsOf dead, ok p = true
  | .finish raises => raises = false → ∀ args ∈ s.underWay.head?, ∀ a ∈ args,
      .close a.2 true ∉ s.calls
  | .shutdown _ ok => ∀ p ∈ s.heap.ptrs, ok p = true
  | .setContext c _ ok _ => s.Live env c → s.foreigen = false → ∀ p ∈ s.heap.ptrs, ok p = true
  | _ => True

variable {op : Op}

theorem Tidy.allocate (hs : s.Tidy) : s.allocate.Tidy := hs.congr rfl Heap.ptrs_allocate rfl

theorem Tidy.newLogger (hs : s.Tidy) (opened : Bool) : (newLogger env s opened).Tidy := by
  rw [Interp.newLogger]
  split
  · have hopen := hs.allocate.openSocket Heap.find_allocate rfl opened
    cases opened with
    | false => exact hopen
    | true =>
      refine hopen.call (by simp [Keeps]) ⟨fun h => ?_, trivial⟩
      rcases List.mem_append.1 h with h | h
      · exact Nat.lt_irrefl _ (hs.close_lt _ h)
      · exact Call.noConfusion (List.mem_singleton.1 h)
  · exact hs

theorem Tidy.closeUnlessForeigen (hs : s.Tidy) (via : Via) (dead : List ℕ)
    (hok : s.foreigen = false → ∀ p ∈ s.heap.ptrs, ok p = true) :
    (s.closeUnlessForeigen via dead ok).Tidy := by
  rw [Interp.closeUnlessForeigen]
  split
  · exact hs
  · exact hs.ctxShutdownCloseAndTerm via dead (hok (Bool.eq_false_iff.2 ‹_›))

theorem Tidy.finish (hs : s.Tidy) {raises : Bool} (h : s.finish raises = some s')
    (hop : Closes env s (.finish raises)) : s'.Tidy := by
  rw [Interp.finish] at h
  split at h
  · exact absurd h (by simp)
  · rename_i args underWay hargs
    obtain rfl := Option.some.inj h
    cases raises with
    | true => exact hs.congr rfl rfl rfl
    | false => exact (hs.uses (hop rfl args (by rw [hargs]; rfl))).congr rfl rfl rfl

theorem Tidy.step (hs : s.Tidy) (h : (interp env).step s op = some s') (hop : Closes env s op) :
    s'.Tidy := by
  cases op with
  | allocate =>
    obtain rfl := Option.some.inj h
    exact hs.allocate
  | dup o =>
    obtain ⟨_, -, rfl⟩ := Option.map_eq_some_iff.1 h
    exact hs.allocate
  | init o type opened =>
    obtain ⟨x, hx, rfl⟩ := Option.map_eq_some_iff.1 h
    cases hdata : x.data with
    | some p => exact hs
    | none =>
      simp only [Option.isSome_none, Bool.false_eq_true, if_false]
      split
      · exact hs.openSocket hx hdata _
      · exact hs
  | close o ok =>
    obtain ⟨x, hx, rfl⟩ := Option.map_eq_some_iff.1 h
    cases hdata : x.data with
    | none => exact hs
    | some p => exact hs.closeData hx hdata
  | closeMark o ok =>
    obtain ⟨x, hx, rfl⟩ := Option.map_eq_some_iff.1 h
    cases hdata : x.data with
    | none => exact hs
    | some p =>
      have huse : (s.call [.use p]).Tidy := hs.call (by simp [Keeps])
        ⟨((hs.mem_ptrs p).1 (Heap.mem_ptrs_of_find hx hdata)).2, trivial⟩
      exact huse.closeData hx hdata
  | collect dead ok =>
    obtain ⟨-, hstep⟩ := Option.ite_none_right_eq_some.1 h
    obtain rfl := Option.some.inj hstep
    exact hs.collect hop
  | fetch os =>
    obtain rfl := Option.some.inj h
    rw [fetch]
    split
    · exact hs.congr rfl rfl rfl
    · exact hs
  | finish raises => exact hs.finish h hop
  | ctxGet =>
    obtain rfl := Option.some.inj h
    exact hs.call (by simp [Keeps]) (by simp [SocketAllowed])
  | ctxSet =>
    obtain rfl := Option.some.inj h
    exact hs.call (by simp [Keeps]) (by simp [SocketAllowed])
  | shutdown dead ok =>
    obtain ⟨-, hstep⟩ := Option.ite_none_right_eq_some.1 h
    obtain rfl := Option.some.inj hstep
    exact hs.ctxShutdownCloseAndTerm .shutdown dead hop
  | setContext c dead ok opened =>
    obtain ⟨-, hstep⟩ := Option.ite_none_right_eq_some.1 h
    obtain rfl := Option.some.inj hstep
    have hget : (s.call [.ctxGet c]).Tidy := hs.call (by simp [Keeps]) (by simp [SocketAllowed])
    rw [setContext]
    split
    · have hclose := hget.closeUnlessForeigen .setContext dead (hop ‹_›)
      refine newLogger ?_ opened
      exact hclose.congr rfl rfl rfl
    · exact hget

/-! ## Runs -/

theorem not_sound_of_lost (hopen : IsOpen s.calls p) (hp : p ∉ s.heap.ptrs) : ¬s.Sound := fun hs =>
  absurd (hs.count p hopen) (by rw [List.count_eq_zero_of_not_mem hp]; decide)

theorem Tidy.not_sound_collect (hs : s.Tidy)
    (hok : ¬∀ p ∈ s.heap.ptrsOf dead, ok p = true) : ¬(s.collect dead ok).Sound := by
  push Not at hok
  obtain ⟨p, hp, hfail⟩ := hok
  have hperm := @Heap.ptrs_sweep _ s.heap dead
  have hopen := (hs.mem_ptrs p).1 (hperm.mem_iff.1 (List.mem_append_left _ hp))
  refine @not_sound_of_lost _ p ⟨?_, ?_⟩ ?_
  · exact hopen.1.imp fun c hc => List.mem_append_left _ hc
  · intro h
    rcases List.mem_append.1 h with h | h
    · exact hopen.2 h
    · exact hfail (mem_lingerClose.1 h).2
  · exact fun h => List.disjoint_of_nodup_append (hperm.nodup_iff.2 hs.nodup) hp h

/-- A socket which is not closed before the context is terminated. -/
theorem Tidy.isOpen_ctxShutdownCloseAndTerm (hs : s.Tidy) {via : Via}
    (hok : ¬∀ p ∈ s.heap.ptrs, ok p = true) :
    ∃ p < s.nextSocket, IsOpen (s.ctxShutdownCloseAndTerm via dead ok).calls p := by
  push Not at hok
  obtain ⟨p, hp, hfail⟩ := hok
  obtain ⟨⟨c, hc⟩, hclose⟩ := (hs.mem_ptrs p).1 hp
  refine ⟨p, hs.socket_lt c p hc, ⟨c, ?_⟩, ?_⟩
  · simp [Interp.ctxShutdownCloseAndTerm, Interp.call, Interp.closeAll, Interp.collect, hc]
  · rw [close_mem_ctxShutdownCloseAndTerm]
    exact fun h => h.elim hclose fun h => hfail h.2

theorem mem_ptrs_newLogger {opened : Bool} {q : ℕ} (h : q ∈ (newLogger env s opened).heap.ptrs) :
    q ∈ s.heap.ptrs ∨ q = s.nextSocket := by
  rw [Interp.newLogger] at h
  split at h
  · cases opened with
    | false => exact Or.inl (Heap.ptrs_allocate ▸ h)
    | true => exact (Heap.mem_ptrs_dataInit h).imp_left fun h => Heap.ptrs_allocate ▸ h
  · exact Or.inl h

theorem isOpen_newLogger {opened : Bool} (hopen : IsOpen s.calls p) :
    IsOpen (newLogger env s opened).calls p := by
  obtain ⟨hsocket, hclose⟩ := hopen
  rw [Interp.newLogger]
  split
  · cases opened with
    | false => exact ⟨hsocket.imp fun c hc => List.mem_append_left _ hc,
        by simp [Interp.openSocket, Interp.call, Interp.allocate, hclose]⟩
    | true => exact ⟨hsocket.imp fun c hc => List.mem_append_left _ (List.mem_append_left _ hc),
        by simp [Interp.openSocket, Interp.call, Interp.allocate, hclose]⟩
  · exact ⟨hsocket, hclose⟩

theorem not_sound_finish {raises : Bool} (h : s.finish raises = some s')
    (hop : ¬Closes env s (.finish raises)) : ¬s'.Sound := by
  rw [Closes] at hop
  push Not at hop
  obtain ⟨rfl, args, hargs, a, ha, hclose⟩ := hop
  rintro ⟨hlawful, -⟩
  rw [Interp.finish] at h
  split at h
  · exact absurd h (by simp)
  · rename_i args' underWay hunderWay
    obtain rfl := Option.some.inj h
    obtain rfl : args' = args := by simpa [hunderWay] using hargs
    obtain ⟨k, m, rfl⟩ := List.append_of_mem ha
    rw [if_neg Bool.false_ne_true, Interp.call, List.map_append, lawful_append, lawful_append]
      at hlawful
    exact hlawful.2.2.1 (List.mem_append_left _ hclose)

theorem Tidy.not_sound (hs : s.Tidy) (h : (interp env).step s op = some s')
    (hop : ¬Closes env s op) : ¬s'.Sound := by
  cases op with
  | collect dead ok =>
    obtain ⟨-, hstep⟩ := Option.ite_none_right_eq_some.1 h
    obtain rfl := Option.some.inj hstep
    exact hs.not_sound_collect hop
  | finish raises => exact not_sound_finish h hop
  | shutdown dead ok =>
    obtain ⟨-, hstep⟩ := Option.ite_none_right_eq_some.1 h
    obtain rfl := Option.some.inj hstep
    obtain ⟨p, -, hp⟩ := hs.isOpen_ctxShutdownCloseAndTerm hop
    exact not_sound_of_lost hp (by rw [ptrs_ctxShutdownCloseAndTerm]; exact List.not_mem_nil)
  | setContext c dead ok opened =>
    obtain ⟨-, hstep⟩ := Option.ite_none_right_eq_some.1 h
    obtain rfl := Option.some.inj hstep
    simp only [Closes, Classical.not_imp] at hop
    obtain ⟨hlive, hforeigen, hok⟩ := hop
    have hget : (s.call [.ctxGet c]).Tidy := hs.call (by simp [Keeps]) (by simp [SocketAllowed])
    obtain ⟨p, hlt, hp⟩ := @isOpen_ctxShutdownCloseAndTerm _ _ dead hget .setContext hok
    rw [setContext, if_pos hlive, Interp.closeUnlessForeigen,
      if_neg (by simp [hforeigen, Interp.call])]
    -- The socket of the logger is a new one.
    refine not_sound_of_lost (isOpen_newLogger hp) fun hmem => ?_
    rcases mem_ptrs_newLogger hmem with hmem | rfl
    · rw [ptrs_ctxShutdownCloseAndTerm] at hmem
      exact List.not_mem_nil hmem
    · exact Nat.lt_irrefl _ hlt
  | allocate | dup | init | close | closeMark | fetch | ctxGet | ctxSet => exact absurd trivial hop

theorem tidy_gemInit (env : Env) (opened : Bool) : (gemInit env opened).Tidy := by
  have hempty : ({ ctx := env.own } : Interp).Tidy :=
    ⟨trivial, fun p => by simp [Heap.ptrs, IsOpen], List.nodup_nil, by simp, by simp⟩
  refine Tidy.newLogger (@Tidy.call _ (List.replicate env.options (.ctxSet env.own)) hempty
    ?_ ?_) opened
  · intro a ha
    rw [List.eq_of_mem_replicate ha]
    simp [Keeps]
  · refine lawful_of_forall fun k a m hl => ?_
    have ha : a ∈ List.replicate env.options (.ctxSet env.own) :=
      hl ▸ List.mem_append_right k List.mem_cons_self
    rw [List.eq_of_mem_replicate ha]
    trivial

/-- The end of a run. -/
theorem Tidy.sound_gemFinal (hs : s.Tidy) :
    (s.gemFinal dead ok).Sound ↔ (s.foreigen = false → ∀ p ∈ s.heap.ptrs, ok p = true) := by
  constructor
  · intro h hforeigen
    by_contra hok
    obtain ⟨p, -, hp⟩ := @isOpen_ctxShutdownCloseAndTerm _ _ dead hs .gemFinal hok
    rw [gemFinal, Interp.closeUnlessForeigen, hforeigen, if_neg Bool.false_ne_true] at h
    exact not_sound_of_lost hp (by rw [ptrs_ctxShutdownCloseAndTerm]; exact List.not_mem_nil) h
  · exact fun h => (hs.closeUnlessForeigen .gemFinal dead h).sound

end Interp

open Interp

/-- In a run, each state is sound exactly if each operation closes sockets as it
    should; and so is the end. -/
theorem sound_iff_along {env : Env} {s : Interp} {opened : Bool} {ops : List Op}
    (h : (interp env).run (gemInit env opened) ops = some s) (dead : List ℕ) (ok : ℕ → Bool) :
    (interp env).Always Sound (gemInit env opened) ops ∧ (s.gemFinal dead ok).Sound ↔
      (interp env).Along (Closes env) (gemInit env opened) ops ∧
        (s.foreigen = false → ∀ p ∈ s.heap.ptrs, ok p = true) := by
  have hiff := @Machine.always_iff_along _ _ (interp env) (gemInit env opened) ops (Closes env) Tidy
    Sound (fun _ => Tidy.sound)
    (fun s op s' hs hstep => ⟨fun hs' => not_not.1 fun hop => hs.not_sound hstep hop hs',
      fun hop => (hs.step hstep hop).sound⟩)
    (fun s op s' => Tidy.step) (tidy_gemInit env opened)
  rw [hiff]
  refine and_congr_right fun hops => Tidy.sound_gemFinal ?_
  exact (Machine.always_of_along (fun s op s' => Tidy.step) (tidy_gemInit env opened) hops).of_run h

/-- A socket is closed, opened again and swept, and another one left to the end. -/
theorem sound_reopened :
    let ops : List Op := [.allocate, .init 0 1 true, .closeMark 0 true, .init 0 1 true, .allocate,
      .init 1 2 true, .collect [0] fun _ => true]
    ∃ s, (interp {}).run (gemInit {} true) ops = some s ∧
      (interp {}).Always Sound (gemInit {} true) ops ∧ (s.gemFinal [] fun _ => true).Sound := by
  intro ops
  refine ⟨_, rfl, (@sound_iff_along {} _ true ops rfl [] fun _ => true).2 ⟨?_, fun _ _ _ => rfl⟩⟩
  iterate 6 refine (Machine.along_cons rfl).2 ⟨trivial, ?_⟩
  exact (Machine.along_cons rfl).2 ⟨fun _ _ => rfl, trivial⟩

/-- A message whose conversion closes the socket is sent to a closed socket. -/
theorem sent_after_close :
    let ops : List Op := [.allocate, .init 0 1 true, .fetch [0], .close 0 true, .finish false]
    ((interp {}).run (gemInit {} true) ops).map (·.calls) =
      some [.socket 0 (some 0), .close 0 true, .use 0] ∧
    ¬(interp {}).Always Sound (gemInit {} true) ops := by
  intro ops
  refine ⟨rfl, fun h => ?_⟩
  have hlawful := (h.of_run rfl).lawful
  exact hlawful.2.2.1 (by decide)

end MrubyZmq
