import MrubyZmq.Poller
import MrubyZmq.Socket
import MrubyZmq.Sockopt

/-!
# Integers on their way to libzmq

An Integer of 64 bits given to one of the bindings is handed on to libzmq as an
`int`, a `short` or a `uint32_t`, or through a Float as an `int64_t`
(`Place.received`). Some of the functions raise if it does not fit, the others
cast it.

At each place where an Integer is given, either an exception is raised or libzmq
receives this integer, exactly if it fits wherever it is cast, and has no more
than 53 significant bits where it goes through a Float (`unchanged_iff`).
-/

namespace MrubyZmq

/-- The class given to `LibZMQ.getsockopt`. -/
inductive OptionType
  | boolean
  | integer
  | float
  | string
  | other
  deriving DecidableEq, Repr

/-- `LibZMQ.getsockopt`: the name `mrb_zmq_getsockopt` calls `zmq_getsockopt` with. -/
def libzmqGetsockopt (optionName : ℤ) (optionType : OptionType) (stringReturnLen : ℤ) :
    Except Err Int32 :=
  if stringReturnLen ≤ 0 then
    .error (.argumentError "string_return_len must be greater than 0")
  else if optionName = FD then .ok (.ofInt optionName)
  else if optionType = .other then
    .error (.typeError "Expected True-/FalseClass|Integer|Float|String")
  else .ok (.ofInt optionName)

/-- `LibZMQ.ctx_get`: what `mrb_zmq_ctx_get` calls `zmq_ctx_get` with. -/
def libzmqCtxGet (optionName : ℤ) : Int32 := .ofInt optionName

/-- `LibZMQ.ctx_set`: what `mrb_zmq_ctx_set` calls `zmq_ctx_set` with. -/
def libzmqCtxSet (optionName optionValue : ℤ) : Int32 × Int32 :=
  (.ofInt optionName, .ofInt optionValue)

/-- `LibZMQ.msg_set_routing_id`: what `mrb_zmq_msg_set_routing_id` calls
    `zmq_msg_set_routing_id` with. -/
def libzmqMsgSetRoutingId (routingId : ℤ) : UInt32 := .ofInt routingId

/-- `LibZMQ.send`: what `mrb_zmq_send` calls `zmq_send` with. -/
def libzmqSendArgs (message : Value) (flags : ℤ) : Except Err (Bytes × Int32) := do
  let flags ← intArg flags
  let message ← message.toStr
  return (message, flags)

/-- `LibZMQ.msg_send`: the flags `mrb_zmq_msg_send` calls `zmq_msg_send` with. -/
def libzmqMsgSendArgs (flags : ℤ) : Except Err Int32 := intArg flags

/-- `ZMQ::Socket#recv`: the flags `mrb_zmq_socket_recv` calls `zmq_msg_recv` with. -/
def socketRecvArgs (flags : ℤ) : Except Err Int32 := intArg flags

/-- `LibZMQ.socket_monitor`: the events `mrb_zmq_socket_monitor` calls
    `zmq_socket_monitor` with. -/
def libzmqSocketMonitor (events : ℤ) : Except Err Int32 := intArg events

/-- `ZMQ::Poller#add` and `#modify`: what is given to libzmq with the key of the
    socket, or the exception raised while looking for it. -/
def pollerArgs (key : Except Err Key) (events : ℤ) : Except Err (Key × Int16) := do
  let events ← shortArg events
  let key ← key
  return (key, events)

/-- `ZMQ::Socket.new`: what `mrb_zmq_socket` calls `zmq_socket` with, for an
    object which has a data pointer or not. -/
def socketArgs (initialized : Bool) (type : ℤ) : Except Err Int32 :=
  if initialized then .error (.runtimeError "ZMQ::Socket instance already initialized")
  else intArg type

/-- The integer libzmq is given as the value of an option, if it is one. -/
def Optval.number : Optval → Option ℤ
  | .int number => some number.toInt
  | .int64 number => number.map (·.toInt)
  | _ => none

/-- An exception, or just the integer `n`. -/
def Intact (n : ℤ) (r : Except Err (Option ℤ)) : Prop := r = .ok (some n) ∨ ∃ e, r = .error e

/-! ## The places of integers -/

/-- Where an Integer is given, with the other arguments. -/
inductive Place
  | setsockoptName (optionValue : OptionValue)
  | setsockoptValue (optionName : ℤ)
  | getsockoptName (optionType : OptionType) (stringReturnLen : ℤ)
  | ctxGetName
  | ctxSetName (optionValue : ℤ)
  | ctxSetValue (optionName : ℤ)
  | msgSetRoutingId
  | sendFlags (message : Value)
  | msgSendFlags
  | recvFlags
  | socketMonitorEvents
  | pollerAddEvents (key : Except Err Key)
  | pollerModifyEvents (key : Except Err Key)
  | socketType (initialized : Bool)
  | affinity
  | maxmsgsize

namespace Place

/-- What libzmq receives for the integer `n`, or the exception raised instead. -/
def received (n : ℤ) : Place → Except Err (Option ℤ)
  | setsockoptName value => (libzmqSetsockopt n value).map fun a => some a.1.toInt
  | setsockoptValue name => (libzmqSetsockopt name (.integer n)).map fun a => a.2.number
  | getsockoptName type len => (libzmqGetsockopt n type len).map fun a => some a.toInt
  | ctxGetName => .ok (some (libzmqCtxGet n).toInt)
  | ctxSetName value => .ok (some (libzmqCtxSet n value).1.toInt)
  | ctxSetValue name => .ok (some (libzmqCtxSet name n).2.toInt)
  | msgSetRoutingId => .ok (some (libzmqMsgSetRoutingId n).toNat)
  | sendFlags message => (libzmqSendArgs message n).map fun a => some a.2.toInt
  | msgSendFlags => (libzmqMsgSendArgs n).map fun a => some a.toInt
  | recvFlags => (socketRecvArgs n).map fun a => some a.toInt
  | socketMonitorEvents => (libzmqSocketMonitor n).map fun a => some a.toInt
  | pollerAddEvents key => (pollerArgs key n).map fun a => some a.2.toInt
  | pollerModifyEvents key => (pollerArgs key n).map fun a => some a.2.toInt
  | socketType initialized => (socketArgs initialized n).map fun a => some a.toInt
  | affinity => (setAffinity (.int n)).map fun a => a.2.number
  | maxmsgsize => (setMaxmsgsize (.int n)).map fun a => a.2.number

/-- An exception is raised, or libzmq receives the integer that is given. -/
def Unchanged (p : Place) (n : ℤ) : Prop := Intact n (p.received n)

/-- The integer is one of the type it is cast to, if it gets there. -/
def Fits (n : ℤ) : Place → Prop
  | setsockoptValue name => FitsInt name → FitsInt n
  | getsockoptName type len => 0 < len → type ≠ .other → FitsInt n
  | ctxGetName | ctxSetName _ | ctxSetValue _ => FitsInt n
  | msgSetRoutingId => 0 ≤ n ∧ n < 2 ^ 32
  | affinity | maxmsgsize => Exact 53 n
  | _ => True

end Place

variable {n name : ℤ} {value : OptionValue} {r : Option ℤ} {e : Err}

@[simp] theorem intact_error : Intact n (.error e) := .inr ⟨e, rfl⟩

@[simp] theorem intact_ok_iff : Intact n (.ok r) ↔ r = some n := by
  constructor
  · rintro (h | ⟨e, h⟩)
    · exact Except.ok.inj h
    · exact absurd h (by simp)
  · intro h
    exact .inl (congrArg _ h)

/-! ## Arguments which are checked -/

theorem intact_intArg : Intact n ((intArg n).map fun a => some a.toInt) := by
  by_cases h : FitsInt n
  · rw [intArg_of_fits h]
    exact intact_ok_iff.2 (congrArg some (toInt_ofInt32_iff.2 h))
  · rw [intArg, if_neg h]
    exact intact_error

theorem intact_libzmqSetsockopt :
    Intact n ((libzmqSetsockopt n value).map fun a => some a.1.toInt) := by
  by_cases h : FitsInt n
  · rw [libzmqSetsockopt, intArg_of_fits h]
    have hn := congrArg some (toInt_ofInt32_iff.2 h)
    cases value <;> first | exact intact_ok_iff.2 hn | exact intact_error
  · rw [libzmqSetsockopt, intArg, if_neg h]
    exact intact_error

theorem intact_libzmqSendArgs {message : Value} :
    Intact n ((libzmqSendArgs message n).map fun a => some a.2.toInt) := by
  by_cases h : FitsInt n
  · rw [libzmqSendArgs, intArg_of_fits h]
    rcases message.toStr with e | data
    · exact intact_error
    · exact intact_ok_iff.2 (congrArg some (toInt_ofInt32_iff.2 h))
  · rw [libzmqSendArgs, intArg, if_neg h]
    exact intact_error

theorem intact_pollerArgs {key : Except Err Key} :
    Intact n ((pollerArgs key n).map fun a => some a.2.toInt) := by
  by_cases h : FitsShort n
  · rw [pollerArgs, shortArg_of_fits h]
    rcases key with e | key
    · exact intact_error
    · exact intact_ok_iff.2 (congrArg some (toInt_ofInt16_iff.2 h))
  · rw [pollerArgs, shortArg, if_neg h]
    exact intact_error

theorem intact_socketArgs {initialized : Bool} :
    Intact n ((socketArgs initialized n).map fun a => some a.toInt) := by
  cases initialized with
  | true => exact intact_error
  | false => exact intact_intArg

/-! ## Arguments which are cast -/

theorem toInt_libzmqCtxGet_iff : some (libzmqCtxGet n).toInt = some n ↔ FitsInt n := by
  rw [Option.some.injEq]
  exact toInt_ofInt32_iff

/-- The integer given as the value of an option is not checked as its name is. -/
theorem intact_value_iff : Intact n ((libzmqSetsockopt name (.integer n)).map fun a => a.2.number) ↔
    (FitsInt name → FitsInt n) := by
  by_cases h : FitsInt name
  · rw [libzmqSetsockopt, intArg_of_fits h]
    refine intact_ok_iff.trans (toInt_libzmqCtxGet_iff.trans ?_)
    exact ⟨fun hn _ => hn, fun hn => hn h⟩
  · rw [libzmqSetsockopt, intArg, if_neg h]
    exact iff_of_true intact_error fun hname => absurd hname h

theorem fitsInt_FD : FitsInt FD := by decide

theorem intact_libzmqGetsockopt_iff {type : OptionType} {len : ℤ} :
    Intact n ((libzmqGetsockopt n type len).map fun a => some a.toInt) ↔
      (0 < len → type ≠ .other → FitsInt n) := by
  rw [libzmqGetsockopt]
  split
  · exact iff_of_true intact_error fun hlen => absurd hlen (Int.not_lt.2 ‹_›)
  · split
    · -- The name `FD` is asked for before the class is looked at.
      have hfits : FitsInt n := ‹n = FD› ▸ fitsInt_FD
      exact iff_of_true (intact_ok_iff.2 (toInt_libzmqCtxGet_iff.2 hfits)) fun _ _ => hfits
    · split
      · exact iff_of_true intact_error fun _ htype => absurd ‹_› htype
      · have hlen : 0 < len := Int.not_le.1 ‹_›
        refine intact_ok_iff.trans (toInt_libzmqCtxGet_iff.trans ?_)
        exact ⟨fun h _ _ => h, fun h => h hlen ‹_›⟩

theorem toNat_libzmqMsgSetRoutingId_iff :
    (some ((libzmqMsgSetRoutingId n).toNat : ℤ)) = some n ↔ 0 ≤ n ∧ n < 2 ^ 32 := by
  have hmod : ((libzmqMsgSetRoutingId n).toNat : ℤ) = n % 2 ^ 32 := by
    rw [libzmqMsgSetRoutingId, UInt32.ofInt, UInt32.toNat_ofNat']
    omega
  rw [Option.some.injEq, hmod]
  omega

/-! ## Arguments which are converted to a Float -/

/-- An integer of 64 bits is left as it is by way of a `double` exactly if this
    is the same integer. -/
theorem toInt64_roundInt_iff (n : Int64) :
    (toInt64 (roundInt 53 n.toInt)).map (·.toInt) = some n.toInt ↔ Exact 53 n.toInt := by
  rw [← roundInt_eq_iff]
  constructor
  · intro h
    obtain ⟨m, hm, hn⟩ := Option.map_eq_some_iff.1 h
    obtain ⟨⟨hlo, hhi⟩, hm⟩ := Option.ite_none_right_eq_some.1 hm
    calc roundInt 53 n.toInt
        = (Int64.ofInt (roundInt 53 n.toInt)).toInt := (Int64.toInt_ofInt_of_le hlo hhi).symm
      _ = m.toInt := congrArg _ (Option.some.inj hm)
      _ = n.toInt := hn
  · intro h
    rw [h, toInt64, if_pos ⟨n.le_toInt, n.toInt_lt⟩, Option.map_some, Int64.ofInt_toInt]

theorem intact_int64Setter_iff (n : Int64) (hname : FitsInt name) :
    Intact n.toInt ((int64Setter name (.int n.toInt)).map fun a => a.2.number) ↔
      Exact 53 n.toInt := by
  rw [int64Setter, OptionArg.int, Except.bind, libzmqSetsockopt, intArg_of_fits hname]
  exact intact_ok_iff.trans (toInt64_roundInt_iff n)

/-- Wherever an integer of 64 bits is given: an exception is raised, or libzmq
    receives this integer, exactly if it is not changed by a cast that nothing
    checks, or by being rounded. -/
theorem unchanged_iff (p : Place) (n : Int64) : p.Unchanged n.toInt ↔ p.Fits n.toInt := by
  cases p with
  | setsockoptName => exact iff_of_true intact_libzmqSetsockopt trivial
  | setsockoptValue => exact intact_value_iff
  | getsockoptName => exact intact_libzmqGetsockopt_iff
  | ctxGetName | ctxSetName | ctxSetValue => exact intact_ok_iff.trans toInt_libzmqCtxGet_iff
  | msgSetRoutingId => exact intact_ok_iff.trans toNat_libzmqMsgSetRoutingId_iff
  | sendFlags => exact iff_of_true intact_libzmqSendArgs trivial
  | msgSendFlags | recvFlags | socketMonitorEvents => exact iff_of_true intact_intArg trivial
  | pollerAddEvents | pollerModifyEvents => exact iff_of_true intact_pollerArgs trivial
  | socketType => exact iff_of_true intact_socketArgs trivial
  | affinity => exact intact_int64Setter_iff n (show FitsInt AFFINITY by decide)
  | maxmsgsize => exact intact_int64Setter_iff n (show FitsInt MAXMSGSIZE by decide)

/-- A linger of `2 ^ 32` becomes none at all, a message is routed to another
    client, and the highest bits of an affinity are rounded. -/
theorem option_wrapped :
    (Place.setsockoptValue LINGER).received (2 ^ 32) = .ok (some 0) ∧
    Place.msgSetRoutingId.received (2 ^ 32 + 1) = .ok (some 1) ∧
    Place.affinity.received (2 ^ 53 + 1) = .ok (some (2 ^ 53)) ∧
    ¬∀ (p : Place) (n : Int64), p.Unchanged n.toInt := by
  refine ⟨by decide, by decide, by decide +kernel, fun h => ?_⟩
  have hid := toNat_libzmqMsgSetRoutingId_iff.1 (intact_ok_iff.1 (h .msgSetRoutingId (2 ^ 32 + 1)))
  exact absurd hid.2 (by decide)

/-! ## The calls of libzmq

The functions which are modelled with their effects call libzmq with these
arguments. -/

theorem libzmqSend_eq (message : Value) (flags : ℤ) : libzmqSend message flags =
    Effect.ofExcept (libzmqSendArgs message flags) >>= fun a =>
      zmqSend "zmq_send" a.1 a.2.toInt >>= fun _ => pure a.1.length := by
  refine (assertInt_bind fun flags => Effect.ofExcept message.toStr >>= fun data =>
    zmqSend "zmq_send" data flags >>= fun _ => pure data.length).trans ?_
  funext s
  rw [libzmqSendArgs]
  rcases intArg flags with e | flags
  · rfl
  · rcases message.toStr with e | data <;> rfl

theorem socketRecv_eq (flags : ℤ) :
    socketRecv flags = Effect.ofExcept (socketRecvArgs flags) >>= fun _ => recvMsgs :=
  assertInt_bind fun _ => recvMsgs

theorem pollerAdd_eq (m : ℕ) (socket : PollArg) (events : ℤ) (ok : Bool) (s : Polling) :
    Polling.pollerAdd m socket events ok s =
      (Effect.ofExcept (pollerArgs (s.interp.pollerKey socket) events) >>= fun a =>
        Polling.zmqCall m a.1 "zmq_poller_add" (fun z => z.add a.1 socket.ref a.2.toInt ok) >>=
          fun _ => Effect.modify fun s =>
            s.set m { s.pollers m with sockets := (s.pollers m).sockets ++ [socket.ref] }) s := by
  refine (congrFun (assertShort_bind fun events => Effect.get >>= fun s =>
    Effect.ofExcept (s.interp.pollerKey socket) >>= fun key =>
      Polling.zmqCall m key "zmq_poller_add" (fun z => z.add key socket.ref events ok) >>=
        fun _ => Effect.modify fun s =>
          s.set m { s.pollers m with sockets := (s.pollers m).sockets ++ [socket.ref] })
      s).trans ?_
  rw [pollerArgs]
  rcases shortArg events with e | events
  · rfl
  · rw [Effect.ofExcept_ok, Effect.bind_ok Effect.pure_apply, Effect.bind_ok Effect.get_apply]
    rcases s.interp.pollerKey socket with e | key <;> rfl

theorem pollerModify_eq (m : ℕ) (socket : PollArg) (events : ℤ) (ok : Bool) (s : Polling) :
    Polling.pollerModify m socket events ok s =
      (Effect.ofExcept (pollerArgs (s.interp.pollerKey socket) events) >>= fun a =>
        Polling.zmqCall m a.1 "zmq_poller_modify" fun z => z.modify a.1 a.2.toInt ok) s := by
  refine (congrFun (assertShort_bind fun events => Effect.get >>= fun s =>
    Effect.ofExcept (s.interp.pollerKey socket) >>= fun key =>
      Polling.zmqCall m key "zmq_poller_modify" fun z => z.modify key events ok) s).trans ?_
  rw [pollerArgs]
  rcases shortArg events with e | events
  · rfl
  · rw [Effect.ofExcept_ok, Effect.bind_ok Effect.pure_apply, Effect.bind_ok Effect.get_apply]
    rcases s.interp.pollerKey socket with e | key <;> rfl

end MrubyZmq
