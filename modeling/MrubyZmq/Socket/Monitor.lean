import MrubyZmq.Machine
import MrubyZmq.Native
import MrubyZmq.Sockopt.Numbers
import MrubyZmq.Zap

/-!
# Monitoring a socket

A monitored socket reports what happens to it as messages of two frames: the
number of the event and its value, one after the other in the byte order of the
machine, and the endpoint. `ZMQ::Socket::Monitor#recv` takes them apart, and names
the event by the constants of `LibZMQ` which there are.

In every run, `recv` returns a report of each event asked for, in order, and the
events can be told from their reports (`reports_of_run`).
-/

namespace MrubyZmq

/-- `unpack` of a number of `k` bytes, and the rest: `nil` if there are too few,
    which are not taken then. -/
def unpack (big : Bool) (k : ℕ) (l : Bytes) : Option ℕ × Bytes :=
  if k ≤ l.length then (some (nativeNat big (l.take k)), l.drop k) else (none, l)

/-! ## The monitor -/

/-- The constants, and how the events are named by them. -/
def eventNames : List (String × String) := [
  ("EVENT_CONNECTED", "connected"),
  ("EVENT_CONNECT_DELAYED", "connect_delayed"),
  ("EVENT_CONNECT_RETRIED", "connect_retried"),
  ("EVENT_LISTENING", "listening"),
  ("EVENT_BIND_FAILED", "bind_failed"),
  ("EVENT_ACCEPTED", "accepted"),
  ("EVENT_ACCEPT_FAILED", "accept_failed"),
  ("EVENT_CLOSED", "closed"),
  ("EVENT_CLOSE_FAILED", "close_failed"),
  ("EVENT_DISCONNECTED", "disconnected"),
  ("EVENT_MONITOR_STOPPED", "monitor_stopped"),
  ("EVENT_ALL", "all"),
  ("EVENT_HANDSHAKE_FAILED_NO_DETAIL", "handshake_failed_no_detail"),
  ("EVENT_HANDSHAKE_SUCCEEDED", "handshake_succeeded"),
  ("EVENT_HANDSHAKE_FAILED_PROTOCOL", "handshake_failed_protocol"),
  ("EVENT_HANDSHAKE_FAILED_AUTH", "handshake_failed_auth")]

/-- Filling `Events`, given the constants there are. -/
def fillEvents (const : String → Option ℕ) :
    List (String × String) → (ℕ → Option String) → ℕ → Option String
  | [], events => events
  | (name, sym) :: l, events =>
    match const name with
    | some n => fillEvents const l (Function.update events n (some sym))
    | none => fillEvents const l events

/-- `ZMQ::Socket::Monitor::Events`. -/
def events (const : String → Option ℕ) : ℕ → Option String :=
  fillEvents const eventNames fun _ => none

/-- `Events[event] || event`. -/
inductive EventName
  | symbol (name : String)
  | number (n : ℕ)
  | nil
  deriving DecidableEq, Repr

/-- What `recv` returns. -/
structure Report where
  event : EventName
  value : Option ℕ
  endpoint : Bytes
  deriving DecidableEq, Repr

/-- `Events[event] || event`. -/
def eventName (const : String → Option ℕ) (event : Option ℕ) : EventName :=
  match event with
  | some n => (events const n).elim (.number n) .symbol
  | none => .nil

/-- `ZMQ::Socket::Monitor#recv`. A message of one frame is not taken apart. -/
def monitorRecv (big : Bool) (const : String → Option ℕ) : Effect Err Sock Report := do
  let received ← socketRecv 0
  let (msg, endpoint) := match received with
    | .msg data => (some data, none)
    | .array msgs => (msgs[0]?, msgs[1]?)
  let data ← Effect.ofExcept (toStr msg)
  let (event, rest) := unpack big 2 data
  let (value, _) := unpack big 4 rest
  let endpoint ← Effect.ofExcept (toStr endpoint)
  return { event := eventName const event, value, endpoint }

/-! ## What happens -/

/-- What happens to a socket. -/
structure SocketEvent where
  number : UInt16
  value : UInt32
  endpoint : Bytes
  deriving DecidableEq, Repr

namespace SocketEvent

variable (e : SocketEvent)

/-- The message about it. -/
def message (big : Bool) : List Bytes :=
  [nativeBytes big 2 e.number.toNat ++ nativeBytes big 4 e.value.toNat, e.endpoint]

/-- The report of it. -/
def report (const : String → Option ℕ) : Report where
  event := eventName const (some e.number.toNat)
  value := some e.value.toNat
  endpoint := e.endpoint

/-- It is one of the events asked for. -/
def among (events : Int32) : Bool := events &&& e.number.toUInt32.toInt32 != 0

end SocketEvent

/-- A socket which is monitored. -/
structure Monitored where
  /-- The events asked for. -/
  events : Int32
  /-- The socket of the monitor. -/
  pair : Sock := {}
  reports : List Report := []

/-- `ZMQ::Socket#monitor`. -/
def socketMonitor (events : ℤ) : Except Err Monitored := do
  let events ← libzmqSocketMonitor events
  return { events }

inductive MonitorOp
  | happens (e : SocketEvent)
  | recv

/-- A socket which is monitored, and the program calling `recv`. -/
def monitoring (big : Bool) (const : String → Option ℕ) : Machine Monitored MonitorOp where
  step s
    | .happens e =>
      some (if e.among s.events then
        { s with pair.inbox := s.pair.inbox ++ frames (e.message big) } else s)
    | .recv =>
      match monitorRecv big const s.pair with
      | (.ok r, pair) => some { s with pair, reports := s.reports ++ [r] }
      | (.error _, pair) => some { s with pair }

/-- What has happened of the events asked for. -/
def happened (events : Int32) : List MonitorOp → List SocketEvent := List.filterMap fun
  | .happens e => if e.among events then some e else none
  | .recv => none

/-! ## Reading a report -/

section

variable {big : Bool} {const : String → Option ℕ} {k n : ℕ} {rest : Bytes} {e e' : SocketEvent}

theorem unpack_nativeBytes (h : n < 256 ^ k) :
    unpack big k (nativeBytes big k n ++ rest) = (some n, rest) := by
  have hlen : (nativeBytes big k n).length = k := length_nativeBytes
  rw [unpack, if_pos (by simp [hlen]), List.take_left' hlen, List.drop_left' hlen,
    nativeNat_nativeBytes h]

/-- A message about an event is received as its report. -/
theorem monitorRecv_message {s : Sock} {inbox : List (Frame Bytes)}
    (h : s.inbox = frames (e.message big) ++ inbox) :
    monitorRecv big const s = (.ok (e.report const), { s with inbox }) := by
  have hrecv : socketRecv 0 s = (.ok (.array (e.message big)), { s with inbox }) := by
    rw [socketRecv, assertInt_of_fits fitsInt_zero, Effect.bind_ok Effect.pure_apply, recvMsgs, h,
      @recvLoop_frames (e.message big) (List.cons_ne_nil _ _)]
    rfl
  have hnumber : e.number.toNat < 256 ^ 2 := e.number.toNat_lt
  have hvalue : e.value.toNat < 256 ^ 4 := e.value.toNat_lt
  have hrest := @unpack_nativeBytes big 4 e.value.toNat [] hvalue
  rw [List.append_nil] at hrest
  rw [monitorRecv, Effect.bind_ok hrecv]
  simp only [SocketEvent.message, List.getElem?_cons_zero, List.getElem?_cons_succ, toStr,
    Effect.ofExcept_ok]
  rw [Effect.pure_bind]
  simp only [unpack_nativeBytes hnumber, hrest]
  rfl

theorem monitorRecv_empty {s : Sock} (h : s.inbox = []) :
    monitorRecv big const s = (.error (.libzmq "zmq_msg_recv"), s) := by
  have hrecv : socketRecv 0 s = (.error (.libzmq "zmq_msg_recv"), s) := by
    obtain ⟨inbox, out, faults⟩ := s
    obtain rfl : inbox = [] := h
    rw [socketRecv, assertInt_of_fits fitsInt_zero]
    rfl
  rw [monitorRecv, Effect.bind_error hrecv]

/-! ## Telling events from their reports -/

/-- A name is given to a number by some constant. -/
theorem fillEvents_eq_some {l : List (String × String)} {events : ℕ → Option String}
    {sym : String} (h : fillEvents const l events n = some sym) :
    events n = some sym ∨ ∃ name, (name, sym) ∈ l ∧ const name = some n := by
  induction l generalizing events with
  | nil => exact Or.inl h
  | cons p l ih =>
    obtain ⟨name, sym'⟩ := p
    rw [fillEvents] at h
    cases hm : const name with
    | none =>
      rw [hm] at h
      rcases ih h with hn | ⟨name', hmem, hname'⟩
      · exact Or.inl hn
      · exact Or.inr ⟨name', List.mem_cons_of_mem _ hmem, hname'⟩
    | some m =>
      rw [hm] at h
      rcases ih h with hn | ⟨name', hmem, hname'⟩
      · by_cases hmn : n = m
        · subst hmn
          rw [Function.update_self] at hn
          obtain rfl := Option.some.inj hn
          exact Or.inr ⟨name, List.mem_cons_self, hm⟩
        · rw [Function.update_of_ne hmn] at hn
          exact Or.inl hn
      · exact Or.inr ⟨name', List.mem_cons_of_mem _ hmem, hname'⟩

theorem nodup_eventNames : (eventNames.map Prod.snd).Nodup := by decide

/-- No name is given to two numbers, whatever the constants are. -/
theorem events_inj {m : ℕ} {sym : String} (hm : events const m = some sym)
    (hn : events const n = some sym) : m = n := by
  obtain ⟨name, hmem, hname⟩ := (fillEvents_eq_some hm).resolve_left (by simp)
  obtain ⟨name', hmem', hname'⟩ := (fillEvents_eq_some hn).resolve_left (by simp)
  obtain rfl : name = name' :=
    congrArg Prod.fst (List.inj_on_of_nodup_map nodup_eventNames hmem hmem' rfl)
  exact Option.some.inj (hname.symm.trans hname')

theorem eventName_injective : Function.Injective fun n => eventName const (some n) := by
  intro m n h
  cases hm : events const m <;> cases hn : events const n <;>
    simp only [eventName, hm, hn, Option.elim, EventName.number.injEq, EventName.symbol.injEq,
      reduceCtorEq] at h
  · exact h
  · exact events_inj hm (h ▸ hn)

theorem report_injective : Function.Injective (SocketEvent.report · const) := by
  intro e e' h
  obtain ⟨number, value, endpoint⟩ := e
  obtain ⟨number', value', endpoint'⟩ := e'
  obtain ⟨hnumber, hvalue, rfl⟩ := Report.mk.inj h
  obtain rfl := UInt16.toNat_inj.1 (eventName_injective hnumber)
  obtain rfl := UInt32.toNat_inj.1 (Option.some.inj hvalue)
  rfl

/-! ## Runs -/

variable {s s' : Monitored} {queued : List SocketEvent} {ops : List MonitorOp}

/-- The reports of the events which have happened have been returned, or are to
    be received. -/
theorem reports_run (hs : s.pair.inbox = queued.flatMap fun e => frames (e.message big))
    (h : (monitoring big const).run s ops = some s') :
    ∃ queued' : List SocketEvent,
      s'.pair.inbox = (queued'.flatMap fun e => frames (e.message big)) ∧
      s'.reports ++ queued'.map (·.report const) =
        s.reports ++ (queued ++ happened s.events ops).map (·.report const) := by
  induction ops generalizing s queued with
  | nil =>
    obtain rfl := Option.some.inj h
    exact ⟨queued, hs, by simp [happened]⟩
  | cons op ops ih =>
    obtain ⟨s₁, hstep, hrun⟩ := Option.bind_eq_some_iff.1 h
    cases op with
    | happens e =>
      obtain rfl := Option.some.inj hstep
      cases he : e.among s.events
      · rw [he, if_neg Bool.false_ne_true] at hrun
        simpa [happened, he] using ih hs hrun
      · rw [he, if_pos rfl] at hrun
        simpa [happened, he] using @ih _ (queued ++ [e]) (by simp [hs]) hrun
    | recv =>
      cases queued with
      | nil =>
        simp only [monitoring, monitorRecv_empty hs] at hstep
        obtain rfl := Option.some.inj hstep
        exact ih hs hrun
      | cons e queued =>
        simp only [monitoring, monitorRecv_message hs] at hstep
        obtain rfl := Option.some.inj hstep
        simpa [happened] using @ih _ queued rfl hrun

/-- In every run, `recv` has returned the reports of the events asked for, in
    order and up to some event, the events are the only ones with these reports,
    and `recv` returns the report of the next event, if there is one. -/
theorem reports_of_run {events : ℤ} (h₀ : socketMonitor events = .ok s)
    (h : (monitoring big const).run s ops = some s') :
    s'.reports = ((happened s.events ops).take s'.reports.length).map (·.report const) ∧
    (∀ l, l.map (SocketEvent.report · const) = s'.reports →
      l = (happened s.events ops).take s'.reports.length) ∧
    (monitorRecv big const s'.pair).1 = match (happened s.events ops)[s'.reports.length]? with
      | some e => .ok (e.report const)
      | none => .error (.libzmq "zmq_msg_recv") := by
  have hs : s.pair.inbox = [] ∧ s.reports = [] := by
    rw [socketMonitor, libzmqSocketMonitor, intArg] at h₀
    split at h₀
    · obtain rfl := Except.ok.inj h₀
      exact ⟨rfl, rfl⟩
    · exact absurd h₀ (by simp [bind, Except.bind])
  obtain ⟨queued, hinbox, hall⟩ := @reports_run _ _ s s' [] ops hs.1 h
  rw [hs.2, List.nil_append, List.nil_append] at hall
  -- The events whose reports have been returned come first.
  have hreports : s'.reports =
      ((happened s.events ops).take s'.reports.length).map (·.report const) := by
    rw [List.map_take, ← hall, List.take_left]
  refine ⟨hreports, fun l hl => ?_, ?_⟩
  · exact report_injective.list_map (hl.trans hreports)
  · have hnext : ((happened s.events ops).map (·.report const))[s'.reports.length]? =
        (queued.map (·.report const)).head? := by
      rw [← hall, List.getElem?_append_right le_rfl, Nat.sub_self, List.head?_eq_getElem?]
    rw [List.getElem?_map] at hnext
    cases queued with
    | nil =>
      rw [monitorRecv_empty hinbox]
      rw [List.map_nil, List.head?_nil, Option.map_eq_none_iff] at hnext
      rw [hnext]
    | cons e queued =>
      rw [monitorRecv_message hinbox]
      obtain ⟨e', he', hee'⟩ := Option.map_eq_some_iff.1 hnext
      rw [he']
      exact congrArg Except.ok hee'.symm

end

/-- The constants, if `EVENT_ACCEPTED` is the only one. -/
def onlyAccepted (name : String) : Option ℕ := if name = "EVENT_ACCEPTED" then some 32 else none

/-- A connection, which is accepted and closed. -/
def connection : List SocketEvent := [⟨32, 258, [1]⟩, ⟨128, 0, []⟩]

/-- The monitor of the connection, after the first report. -/
def monitored : Monitored where
  events := 160
  pair := { inbox := (connection.drop 1).flatMap fun e => frames (e.message false) }
  reports := [⟨.symbol "accepted", some 258, [1]⟩]

/-- Between the two events, one happens which is not asked for. -/
theorem reports_of_run_connection :
    let ops : List MonitorOp := (connection.take 1).map .happens ++
      [.happens ⟨1, 0, []⟩, .recv] ++ (connection.drop 1).map .happens
    (monitoring false onlyAccepted).run { events := 160 } ops = some monitored ∧
      (∀ l, l.map (SocketEvent.report · onlyAccepted) = monitored.reports →
        l = connection.take 1) ∧
      (monitorRecv false onlyAccepted monitored.pair).1 = .ok ⟨.number 128, some 0, []⟩ := by
  intro ops
  have hrun : (monitoring false onlyAccepted).run { events := 160 } ops = some monitored := rfl
  obtain ⟨-, honly, hnext⟩ :=
    @reports_of_run false onlyAccepted { events := 160 } monitored ops 160 rfl hrun
  exact ⟨hrun, honly, hnext⟩

end MrubyZmq
