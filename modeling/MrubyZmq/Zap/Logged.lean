import MrubyZmq.Logger
import MrubyZmq.Simulation
import MrubyZmq.Zap.Server

/-!
# A Zap and the logger

What `handle_zap` rescues is given to `ZMQ.logger.crash` first, and the program
logs what it wants to between the requests (`server`). The Zap alone, for which
what `crash` does is given with each call, does what it does in this system:
each run of the system is one of the Zap (`simulates_zap`).

With a logger that works, every exception raised by a request is logged exactly
once, as is every value which the program logs and which converts to a string, in
order, on the console and to the subscribers. The Zap does just what it does
without any logging, and so the requesters are told the rulings on their requests
(`served`).
-/

namespace MrubyZmq

/-! ## The system -/

/-- A Zap, and `ZMQ.logger`. -/
structure Server where
  zap : Zap := {}
  logger : Logger := {}

/-- A request is handled, given what is seen of the exceptions it may raise, or
    the program logs a value. -/
inductive ServerOp
  | handle (request : List Bytes) (two_le : 2 ≤ request.length) (authenticate : Authenticate)
      (describe : Err → Raised) (now : Bytes)
  | log (level : Bytes) (message : Value) (now : Bytes)

namespace Server

/-- A call on the Zap. -/
def onZap {α : Type} (x : Effect Err Zap α) : Effect Err Server α := fun s =>
  ((x s.zap).1, { s with zap := (x s.zap).2 })

/-- A call on the logger. -/
def onLogger {α : Type} (x : Effect Err Logger α) : Effect Err Server α := fun s =>
  ((x s.logger).1, { s with logger := (x s.logger).2 })

/-- `ZMQ::Zap#handle_zap`; the rest of its `rescue` is that of a logger which
    does not raise. -/
def handleZap (authenticate : Authenticate) (describe : Err → Raised) (now : Bytes) :
    Effect Err Server Unit := do
  onZap (Effect.modify fun z => { z with msgs := [], statuses := [] })
  Effect.rescue (onZap (do Zap.recv; Zap.answer authenticate)) fun e => do
    let _ ← onLogger (Logger.crash (describe e) now)
    onZap (Zap.rescued (fun _ => .ok ()) e)

end Server

/-- A Zap serving requests, in a program that logs. -/
def server : Machine Server ServerOp where
  step s
    | .handle request _ authenticate describe now =>
      some (Server.handleZap authenticate describe now { s with zap := s.zap.arrive request }).2
    | .log level message now => some (Server.onLogger (Logger.log level message now) s).2

/-! ## Refining the Zap -/

namespace Server

variable {s s' : Server} {z z' : Zap} {authenticate : Authenticate} {describe : Err → Raised}
  {now : Bytes} {e : Err} {op : ServerOp} {ops : List ServerOp}

/-- What `crash` does in the state. -/
def crash (s : Server) (describe : Err → Raised) (now : Bytes) (e : Err) : Except Err Unit :=
  (Logger.crash (describe e) now s.logger).1.map fun _ => ()

/-- The `begin` of `handle_zap`. -/
def begun (authenticate : Authenticate) : Effect Err Zap Unit := do
  Zap.recv
  Zap.answer authenticate

/-- A Zap, in a call that begins. -/
def cleared (z : Zap) : Zap := { z with msgs := [], statuses := [] }

theorem handleZap_eq : handleZap authenticate describe now s =
    Effect.rescue (onZap (begun authenticate)) (fun e => do
      let _ ← onLogger (Logger.crash (describe e) now)
      onZap (Zap.rescued (fun _ => .ok ()) e)) { s with zap := cleared s.zap } := rfl

theorem onZap_begun {r : Except Err Unit} (h : begun authenticate (cleared s.zap) = (r, z')) :
    onZap (begun authenticate) { s with zap := cleared s.zap } = (r, { s with zap := z' }) :=
  congrArg (fun p => (p.1, { s with zap := p.2 })) h

theorem handleZap_of_ok (h : begun authenticate (cleared s.zap) = (.ok (), z')) :
    (handleZap authenticate describe now s).2 = { s with zap := z' } := by
  rw [handleZap_eq, Effect.rescue_ok (onZap_begun h)]

/-- What is raised is logged, also if the `rescue` fails then. -/
theorem handleZap_of_error (h : begun authenticate (cleared s.zap) = (.error e, z')) :
    (handleZap authenticate describe now s).2 =
      { zap := (Zap.rescued (s.crash describe now) e z').2
        logger := (Logger.crash (describe e) now s.logger).2 } := by
  rw [handleZap_eq, Effect.rescue_error (onZap_begun h)]
  rcases hlog : Logger.crash (describe e) now s.logger with ⟨e' | msg, g⟩
  · have hcrash : s.crash describe now e = .error e' := by rw [crash, hlog]; rfl
    have honLogger : onLogger (Logger.crash (describe e) now) { s with zap := z' } =
        (.error e', { zap := z', logger := g }) := by rw [onLogger, hlog]
    rw [Effect.bind_error honLogger, Zap.rescued_error hcrash]
  · have hcrash : s.crash describe now e = .ok () := by rw [crash, hlog]; rfl
    have honLogger : onLogger (Logger.crash (describe e) now) { s with zap := z' } =
        (.ok msg, { zap := z', logger := g }) := by rw [onLogger, hlog]
    rw [Effect.bind_ok honLogger, onZap, Zap.rescued, Zap.rescued, hcrash]

theorem handleZap_zap : (handleZap authenticate describe now s).2.zap =
    (Zap.handleZap authenticate (s.crash describe now) s.zap).2 := by
  have heq : Zap.handleZap authenticate (s.crash describe now) s.zap =
    Effect.rescue (begun authenticate) (Zap.rescued (s.crash describe now)) (cleared s.zap) := rfl
  rw [heq]
  rcases h : begun authenticate (cleared s.zap) with ⟨e | _, z'⟩
  · rw [handleZap_of_error h, Effect.rescue_error h]
  · rw [handleZap_of_ok h, Effect.rescue_ok h]

/-- The calls of the Zap which an operation makes. -/
def calls (s : Server) : ServerOp → List Zap.Call
  | .handle request two_le authenticate describe now =>
    [⟨request, two_le, authenticate, s.crash describe now⟩]
  | .log .. => []

/-- Along every run of the system, the Zap does what it does alone. -/
theorem simulates_zap :
    Machine.Simulates server Zap.zap (fun s z => s.zap = z) (fun _ _ => True) calls where
  step := by
    rintro s z op s' rfl - h
    cases op with
    | handle request two_le authenticate describe now =>
      obtain rfl := Option.some.inj h
      exact ⟨_, rfl, handleZap_zap⟩
    | log level message now =>
      obtain rfl := Option.some.inj h
      exact ⟨_, rfl, rfl⟩

end Server

/-! ## What is raised -/

namespace Zap

variable {z z' : Zap} {a b v r : Bytes} {l request : List Bytes} {authenticate : Authenticate}
  {crash : Err → Except Err Unit} {e : Err}

/-- What answering the request raises, if anything: deciding on it, or sending
    the reply. -/
def answered (authenticate : Authenticate) : List Bytes → Except Err Unit
  | _ :: _ :: version :: _ :: rest => do
    let reply ← judge authenticate version rest
    let _ ← reply.user.toStr
    let _ ← metadataFrame reply.metadata
  | [_, _, version] =>
    if version = version1 then .error (.noMethodError "to_str")
    else .error (.typeError "wrong argument type")
  | _ => .error (.noMethodError "to_str")

/-- Nothing is to be received, and no call of libzmq fails. -/
structure Listening (z : Zap) : Prop where
  inbox : z.router.inbox = []
  faults : z.router.faults = []

theorem listening_replied {w : List (Frame Bytes)} {msgs : List Bytes} {code : ℕ}
    (hz : Listening z) : Listening (z.replied w msgs code) := ⟨hz.inbox, hz.faults⟩

/-- What sending a reply raises. -/
theorem sendReply_raises {code : ℕ} {reason : Bytes} {user metadata : Value} {version : Arg}
    {v' : Bytes} (hz : Listening z) (hm : z.msgs = a :: b :: v :: r :: l)
    (hv : version = .msg 2 ∧ v' = v ∨ version = .value (.str v')) :
    ∃ z', sendReply (.msg 0) (.msg 1) version (.msg 3) code reason user metadata z =
        (do
          let _ ← user.toStr
          let _ ← metadataFrame metadata, z') ∧ Listening z' := by
  obtain ⟨v'', hreply⟩ := sendReply_apply code reason user metadata hz.faults hm hv
  rw [hreply]
  cases hu : user.toStr with
  | error e =>
    exact ⟨_, Effect.bind_error (send_error (by exact hz.faults) fitsInt_SNDMORE hu),
      listening_replied hz⟩
  | ok u =>
    rw [Effect.bind_ok (send_ok (by exact hz.faults) fitsInt_SNDMORE hu), replied_wrote,
      sendMetadata_apply (by exact hz.faults)]
    cases metadataFrame metadata with
    | error e => exact ⟨_, rfl, listening_replied hz⟩
    | ok m => exact ⟨_, rfl, by rw [replied_wrote]; exact listening_replied hz⟩

theorem answer_raises (hz : Listening z) (hm : 2 ≤ z.msgs.length) :
    ∃ z', answer authenticate z = (answered authenticate z.msgs, z') ∧ Listening z' := by
  match hmsgs : z.msgs with
  | [] | [_] => exact absurd hm (by simp [hmsgs])
  | [_, _] => exact ⟨z, answer_two (by simp [hmsgs]), hz⟩
  | [_, _, v] =>
    rw [answer_three hmsgs, answered]
    split
    · exact ⟨z, rfl, hz⟩
    · exact ⟨_, sendReply_nil hz.faults hmsgs, hz.inbox, hz.faults⟩
  | _ :: _ :: v :: _ :: l =>
    rw [answer_eq hmsgs, answered]
    cases hjudge : judge authenticate v l with
    | error e => exact ⟨z, rfl, hz⟩
    | ok reply =>
      obtain ⟨v', hv⟩ := judge_version hjudge
      exact sendReply_raises hz hmsgs hv

theorem rescued_listening (hz : Listening z) : Listening (rescued crash e z).2 := by
  match hmsgs : z.msgs with
  | [] | [_] | [_, _] | [_, _, _] => rwa [rescued_short_snd (by simp [hmsgs])]
  | _ :: _ :: _ :: _ :: _ =>
    obtain ⟨w, hw, -⟩ := @rescued_router _ _ _ _ _ _ crash e hz.faults hmsgs
    exact ⟨by rw [hw]; exact hz.inbox, by rw [hw]; exact hz.faults⟩

end Zap

/-! ## What is logged -/

/-- What an operation logs. -/
def ServerOp.record : ServerOp → Option Record
  | .handle request _ authenticate describe now =>
    match Zap.answered authenticate request with
    | .error e => some ⟨ascii ['E'], now, Logger.formatException (describe e)⟩
    | .ok _ => none
  | .log level message now =>
    match message.toStr with
    | .ok text => some ⟨level, now, text⟩
    | .error _ => none

/-- The calls of the Zap which an operation makes, with a logger that does not
    raise. -/
def ServerOp.calls : ServerOp → List Zap.Call
  | .handle request two_le authenticate _ _ => [⟨request, two_le, authenticate, fun _ => .ok ()⟩]
  | .log .. => []

namespace Server

variable {s s' : Server} {op : ServerOp} {ops : List ServerOp}

theorem begun_raises {z : Zap} {request : List Bytes} {authenticate : Authenticate}
    (hz : z.Listening) (hreq : 2 ≤ request.length) :
    ∃ z', begun authenticate (cleared (z.arrive request)) =
      (Zap.answered authenticate request, z') ∧ z'.Listening := by
  have hrecv := @Zap.recv_eq (cleared (z.arrive request)) request []
    (by simp [cleared, Zap.arrive, hz.inbox]) (List.ne_nil_of_length_pos (by omega))
  have hz' : ({ cleared (z.arrive request) with
    router.inbox := [], msgs := request } : Zap).Listening := ⟨rfl, hz.faults⟩
  rw [begun, Effect.bind_ok hrecv]
  exact Zap.answer_raises hz' hreq

/-- An operation logs its record, if it has one, once. -/
theorem step_logged (hz : s.zap.Listening) (hg : s.logger.Working)
    (h : server.step s op = some s') :
    s'.zap.Listening ∧ s'.logger = op.record.toList.foldl Logger.logged s.logger := by
  cases op with
  | handle request two_le authenticate describe now =>
    obtain rfl := Option.some.inj h
    obtain ⟨z', hbegun, hz'⟩ := @begun_raises _ _ authenticate hz two_le
    rw [ServerOp.record]
    cases hanswered : Zap.answered authenticate request with
    | error e =>
      rw [hanswered] at hbegun
      obtain ⟨msg, hcrash⟩ := @Logger.crash_apply s.logger now (describe e) hg
      rw [handleZap_of_error (s := { s with zap := s.zap.arrive request }) hbegun]
      exact ⟨Zap.rescued_listening hz', congrArg Prod.snd hcrash⟩
    | ok =>
      rw [hanswered] at hbegun
      rw [handleZap_of_ok (s := { s with zap := s.zap.arrive request }) hbegun]
      exact ⟨hz', rfl⟩
  | log level message now =>
    obtain rfl := Option.some.inj h
    refine ⟨hz, ?_⟩
    rw [onLogger, Logger.log_apply hg, ServerOp.record]
    cases message.toStr <;> rfl

/-- The operations of a run log their records, in order. -/
theorem run_logged (hz : s.zap.Listening) (hg : s.logger.Working)
    (h : server.run s ops = some s') :
    s'.logger = (ops.filterMap ServerOp.record).foldl Logger.logged s.logger := by
  induction ops generalizing s with
  | nil => exact congrArg _ (Option.some.inj h).symm
  | cons op ops ih =>
    obtain ⟨s₁, hstep, hrun⟩ := Option.bind_eq_some_iff.1 h
    obtain ⟨hz₁, hlogger⟩ := step_logged hz hg hstep
    have hcons : (op :: ops).filterMap ServerOp.record =
        op.record.toList ++ ops.filterMap ServerOp.record := by
      cases hop : op.record <;> simp [hop]
    rw [hcons, List.foldl_append, ← hlogger]
    exact ih hz₁ (hlogger ▸ Logger.working_foldl_logged hg) hrun

/-! ## What the requesters are told -/

/-- A logger which works does not raise what it has logged. -/
theorem crash_working {describe : Err → Raised} {now : Bytes} (hg : s.logger.Working) :
    s.crash describe now = fun _ => .ok () := by
  funext e
  obtain ⟨msg, hcrash⟩ := @Logger.crash_apply s.logger now (describe e) hg
  rw [crash, hcrash]
  rfl

/-- The Zap is called as if the logger did not raise. -/
theorem image_calls (hz : s.zap.Listening) (hg : s.logger.Working)
    (h : server.run s ops = some s') :
    server.image calls s ops = ops.flatMap ServerOp.calls := by
  induction ops generalizing s with
  | nil => rfl
  | cons op ops ih =>
    obtain ⟨s₁, hstep, hrun⟩ := Option.bind_eq_some_iff.1 h
    obtain ⟨hz₁, hlogger⟩ := step_logged hz hg hstep
    have hcalls : calls s op = op.calls := by
      cases op with
      | handle request two_le authenticate describe now => rw [calls, crash_working hg]; rfl
      | log level message now => rfl
    rw [Machine.image, hstep, Option.map_some, Option.getD_some, hcalls, List.flatMap_cons,
      ih hz₁ (hlogger ▸ Logger.working_foldl_logged hg) hrun]

/-- With a logger which works, the Zap does what it does without any logging. -/
theorem run_zap (hz : s.zap.Listening) (hg : s.logger.Working)
    (h : server.run s ops = some s') :
    Zap.zap.run s.zap (ops.flatMap ServerOp.calls) = some s'.zap := by
  obtain ⟨z', hzap, rfl⟩ := simulates_zap.run rfl (Machine.along_of_forall fun _ _ => trivial) h
  rwa [image_calls hz hg h] at hzap

/-- In every run, the console shows the records of the exceptions raised and of
    the values logged, in order, and the subscribers read them, if there is an
    endpoint. The Zap does what it does without any logging; and if the requests
    can be answered, what the Router has sent is read as the rulings on them
    exactly if the metadata has short values. -/
theorem served {endpoint ident : Option Bytes}
    (h : server.run { logger := .new endpoint ident } ops = some s) :
    s.logger.console = (ops.filterMap ServerOp.record).flatMap (Record.line ident) ∧
    (∀ e ∈ endpoint, ∃ pub ∈ s.logger.pub, pub.out.AtBoundary ∧
      readAll (Logger.readRecord ident) pub.out.flushed =
        some (ops.filterMap ServerOp.record)) ∧
    Zap.zap.run {} (ops.flatMap ServerOp.calls) = some s.zap ∧
    ((∀ c ∈ ops.flatMap ServerOp.calls, c.Answerable) → s.zap.router.out.AtBoundary ∧
      (readAll readTold s.zap.router.out.flushed =
          some ((ops.flatMap ServerOp.calls).filterMap Zap.Call.told) ↔
        ∀ t ∈ (ops.flatMap ServerOp.calls).filterMap Zap.Call.told, t.Short)) := by
  have hz : ({} : Zap).Listening := ⟨rfl, rfl⟩
  have hg : (Logger.new endpoint ident).Working := Logger.working_new
  have hlogger := run_logged hz hg h
  have hzap := run_zap hz hg h
  refine ⟨?_, ?_, hzap, fun hc => ?_⟩
  · rw [hlogger, Logger.console_foldl_logged]
    rfl
  · rintro e rfl
    have hpub := @Logger.pub_foldl_logged _ (ops.filterMap ServerOp.record) _ hg rfl
    rw [← hlogger] at hpub
    exact ⟨_, hpub, rfl, Logger.readAll_records⟩
  · obtain ⟨hidle, hkeys, hout⟩ := Zap.run_told Zap.idle_empty hc hzap
    rw [hout]
    exact ⟨hidle.atBoundary, Zap.readAll_tellAll_iff hkeys⟩

/-- A request which fails is logged before the value that the program logs then,
    and its requester is told. -/
theorem served_failed :
    let raised : Raised := { className := [78], message := [109], backtrace := some [[102], [103]] }
    let failed : Record := ⟨[69], [49], [78, 58, 32, 109, 10, 9, 102, 10, 9, 103]⟩
    let ops : List ServerOp := [.handle [[3], [], Zap.version1, [8]] (by decide)
      (fun _ _ _ _ _ => .ok (.value .nil)) (fun _ => raised) [49], .log [73] (.str [97]) [50]]
    ∃ s, server.run { logger := .new (some [101]) none } ops = some s ∧
      (∃ pub ∈ s.logger.pub, pub.out.AtBoundary ∧
        readAll (Logger.readRecord none) pub.out.flushed = some [failed, ⟨[73], [50], [97]⟩]) ∧
      readAll readTold s.zap.router.out.flushed = some [⟨[3], [], [8], .failed⟩] := by
  intro raised failed ops
  obtain ⟨-, hpub, -, htold⟩ := @served _ ops (some [101]) none rfl
  have hc : ∀ c ∈ ops.flatMap ServerOp.calls, c.Answerable :=
    List.forall_mem_singleton.2 fun _ => rfl
  refine ⟨_, rfl, hpub [101] rfl, (htold hc).2.2 ?_⟩
  exact List.forall_mem_singleton.2 fun _ hp => absurd hp List.not_mem_nil

end Server

end MrubyZmq
