import MrubyZmq.Machine
import MrubyZmq.Zap.Reply

/-!
# One reply to each request

A call of `handle_zap` should write nothing, if the request is too short to be
replied to, or exactly one reply to it (`Framed`). The calls of a run do so
exactly if all of them can be answered (`run_framed_iff`). A call cannot in
these cases:

* the request consists of three frames, with a version other than `1.0`: the
  reply fails for want of the request id, with three frames written;
* the user to be sent does not convert to a string, or the metadata cannot be
  encoded: the reply fails with six or seven frames written, and the `rescue`
  writes another reply after them;
* the `rescue` is needed, and the logger raises.

The frames of the failed reply stay pending, and are sent with the next one.
-/

namespace MrubyZmq

namespace Zap

variable {z z' : Zap} {a b v r : Bytes} {l : List Bytes} {code : ℕ} {reason : Bytes}
  {user metadata : Value} {authenticate : Authenticate} {crash : Err → Except Err Unit} {e : Err}
  {reply : Reply}

/-! ## Calls -/

/-- A request arrives at the Router. -/
def arrive (z : Zap) (request : List Bytes) : Zap :=
  { z with router.inbox := z.router.inbox ++ frames request }

/-- The request is received. -/
def received (z : Zap) (request : List Bytes) : Zap :=
  { z with router.inbox := [], msgs := request, statuses := [] }

theorem handleZap_eq {request : List Bytes} (hin : z.router.inbox = []) (hreq : request ≠ []) :
    handleZap authenticate crash (z.arrive request) =
      Effect.rescue (answer authenticate) (rescued crash) (z.received request) := by
  have hrecv := @recv_eq { z.arrive request with msgs := [], statuses := [] } request []
    (by simp [arrive, hin]) hreq
  rw [handleZap, Effect.bind_ok Effect.modify_apply, Effect.rescue, Effect.rescue,
    Effect.bind_ok hrecv]
  rfl

/-- A request, and what the authenticator and the logger make of it. -/
structure Call where
  request : List Bytes
  two_le : 2 ≤ request.length
  authenticate : Authenticate
  crash : Err → Except Err Unit

/-- Requests arriving at the Router, each handled before the next one. -/
def zap : Machine Zap Call where
  step z c := some (handleZap c.authenticate c.crash (z.arrive c.request)).2

/-- A reply of eight frames to the request. -/
def IsReply (request : List Bytes) (w : List (Frame Bytes)) : Prop :=
  ∃ socketIdentity delimiter version requestId statusCode reason user metadata,
    w = frames [socketIdentity, delimiter, version, requestId, statusCode, reason, user, metadata] ∧
    request[0]? = some socketIdentity ∧ request[1]? = some delimiter ∧
    request[3]? = some requestId

/-- A call leaves the Router between messages, and has written nothing, or one
    reply to its request; a request of at least four frames is replied to. -/
def Framed (z : Zap) (c : Call) (z' : Zap) : Prop :=
  z'.router.out.AtBoundary ∧ ∃ w, z'.router.out.written = z.router.out.written ++ w ∧
    (w = [] ∧ c.request.length < 4 ∨ IsReply c.request w)

/-- What the authenticator returns or raises can be replied. -/
def Replied (authenticate : Authenticate) (crash : Err → Except Err Unit) : List Bytes → Prop
  | domain :: address :: identity :: mechanism :: credentials =>
    match authenticate domain address identity mechanism credentials with
    | .ok ret => ret.user.truthy →
        (∃ u, ret.user.toStr = .ok u) ∧ ∀ pairs, ret.metadata.each = some pairs → Encodable pairs
    | .error e => crash e = .ok ()
  | _ => crash (.noMethodError "to_str") = .ok ()

/-- The call can be answered. -/
def Call.Answerable (c : Call) : Prop :=
  match c.request with
  | [_, _, version] => version = version1
  | _ :: _ :: version :: _ :: rest => version = version1 → Replied c.authenticate c.crash rest
  | _ => True

/-- Between two calls. -/
structure Idle (z : Zap) : Prop where
  inbox : z.router.inbox = []
  faults : z.router.faults = []
  atBoundary : z.router.out.AtBoundary

theorem idle_empty : Idle {} := ⟨rfl, rfl, rfl⟩

variable {c : Call}

theorem framed_of_reply {w : List (Frame Bytes)}
    (h : z'.router.out = w.foldl Pipe.write z.router.out) (hw : IsReply c.request w) :
    Framed z c z' := by
  obtain ⟨_, _, _, _, _, _, _, _, rfl, -⟩ := id hw
  refine ⟨?_, _, by rw [h, Pipe.written_foldl_write], Or.inr hw⟩
  rw [h, Pipe.foldl_write_frames _ (List.cons_ne_nil _ _)]
  rfl

theorem not_framed_of_open {l : List Bytes} (hl : l ≠ [])
    (h : z'.router.out = (openFrames l).foldl Pipe.write z.router.out) : ¬Framed z c z' := by
  rintro ⟨hb, -⟩
  rw [h, Pipe.foldl_write_openFrames, Pipe.AtBoundary] at hb
  simp [openFrames, hl] at hb

theorem not_framed_of_open_append {l : List Bytes} {w : List (Frame Bytes)} (hl : l ≠ [])
    (h : z'.router.out = (openFrames l ++ w).foldl Pipe.write z.router.out) (hw : w.length = 8) :
    ¬Framed z c z' := by
  rintro ⟨-, w', hw', hreply⟩
  rw [h, Pipe.written_foldl_write] at hw'
  obtain rfl := List.append_cancel_left hw'
  rcases hreply with ⟨hnil, -⟩ | ⟨_, _, _, _, _, _, _, _, hlen, -⟩
  · simp [openFrames, hl] at hnil
  · have := congrArg List.length hlen
    simp [openFrames, hw] at this
    exact hl this

/-! ## One call -/

/-- The condition on which what `handle_zap` decides gets replied. -/
def Sendable (crash : Err → Except Err Unit) : Except Err Reply → Prop
  | .ok reply => (∃ u, reply.user.toStr = .ok u) ∧ ∃ m, metadataFrame reply.metadata = .ok m
  | .error e => crash e = .ok ()

/-- Frames which are not one reply: nothing, or an unfinished reply, maybe with
    another one after it. -/
def Garbled (w : List (Frame Bytes)) : Prop :=
  w = [] ∨ ∃ l w', l ≠ [] ∧ w = openFrames l ++ w' ∧ (w' = [] ∨ w'.length = 8)

/-- The `rescue` writes a whole reply, if the logger does not raise. -/
theorem rescued_router (hz : z.router.faults = []) (hm : z.msgs = a :: b :: v :: r :: l) :
    ∃ w, (rescued crash e z).2.router = (z.wrote w).router ∧
      (crash e = .ok () ∧ w = frames [a, b, v, r, ascii (Nat.toDigits 10 300),
        ascii "Temporary Error".toList, [], []] ∨ crash e ≠ .ok () ∧ w = []) := by
  cases hcrash : crash e with
  | error e' => exact ⟨[], by rw [rescued_error hcrash]; rfl, Or.inr ⟨by simp, rfl⟩⟩
  | ok =>
    rw [rescued_long hcrash hm]
    obtain ⟨msgs, h⟩ := @sendReply_complete z a b v r l 300 (ascii "Temporary Error".toList)
      .nil .nil (.msg 2) v [] [] hz hm (Or.inl ⟨rfl, rfl⟩) rfl rfl
    exact ⟨_, by rw [h]; rfl, Or.inl ⟨rfl, rfl⟩⟩

/-- What a call on a request of at least four frames writes. -/
theorem handleZap_long (hz : Idle z) (hreq : c.request = a :: b :: v :: r :: l) :
    ∃ w, (handleZap c.authenticate c.crash (z.arrive c.request)).2.router =
        { inbox := [], out := w.foldl Pipe.write z.router.out, faults := [] } ∧
      (Sendable c.crash (judge c.authenticate v l) ∧ IsReply c.request w ∨
        ¬Sendable c.crash (judge c.authenticate v l) ∧ Garbled w) := by
  have hfaults : (z.received c.request).router.faults = [] := hz.faults
  have hmsgs : (z.received c.request).msgs = a :: b :: v :: r :: l := hreq
  have hwrote (w : List (Frame Bytes)) : ((z.received c.request).wrote w).router =
      { inbox := [], out := w.foldl Pipe.write z.router.out, faults := [] } := by
    rw [← hz.faults]
    rfl
  have hisReply {v' s t u m : Bytes} : IsReply c.request (frames [a, b, v', r, s, t, u, m]) :=
    ⟨a, b, v', r, s, t, u, m, rfl, by simp [hreq]⟩
  rw [handleZap_eq hz.inbox (by simp [hreq])]
  have hanswer := @answer_eq _ _ _ _ _ _ c.authenticate hmsgs
  cases hjudge : judge c.authenticate v l with
  | error e =>
    -- Nothing has been written before the `rescue` replies.
    rw [hjudge] at hanswer
    rw [Effect.rescue_error hanswer]
    obtain ⟨w, hw, ⟨hok, rfl⟩ | ⟨herr, rfl⟩⟩ := @rescued_router _ _ _ _ _ _ c.crash e hfaults hmsgs
    · exact ⟨_, hw.trans (hwrote _), Or.inl ⟨hok, hisReply⟩⟩
    · exact ⟨_, hw.trans (hwrote _), Or.inr ⟨herr, Or.inl rfl⟩⟩
  | ok reply =>
    obtain ⟨v', hv⟩ := judge_version hjudge
    rw [hjudge] at hanswer
    by_cases hsend : Sendable c.crash (.ok reply)
    · obtain ⟨⟨u, hu⟩, m, hm⟩ := id hsend
      obtain ⟨msgs, hreply⟩ := sendReply_complete hfaults hmsgs hv hu hm
      rw [Effect.rescue_ok (hanswer.trans hreply)]
      exact ⟨_, hwrote _, Or.inl ⟨hsend, hisReply⟩⟩
    · obtain ⟨e, v'', l', hl', hreply⟩ := sendReply_incomplete hfaults hmsgs hv hsend
      rw [Effect.rescue_error (hanswer.trans hreply)]
      -- The frames of the failed reply are pending when the `rescue` replies.
      obtain ⟨w, hw, hw'⟩ := @rescued_router ((z.received c.request).replied (openFrames l')
        ([] :: [] :: v'' :: [] :: l) reply.statusCode) _ _ _ _ _ c.crash e hfaults rfl
      refine ⟨openFrames l' ++ w, ?_, Or.inr ⟨hsend, Or.inr ⟨l', w, hl', rfl, ?_⟩⟩⟩
      · rw [replied_wrote] at hw
        exact hw.trans (hwrote _)
      · rcases hw' with ⟨-, rfl⟩ | ⟨-, rfl⟩
        · exact Or.inr rfl
        · exact Or.inl rfl

theorem rescued_short_snd (hm : z.msgs.length ≤ 3) : (rescued crash e z).2 = z := by
  cases hcrash : crash e with
  | error e' => rw [rescued_error hcrash]
  | ok => rw [rescued_short hcrash hm]

/-- A reply without a request id fails after three frames. -/
theorem sendReply_nil {v' : Bytes} {w : Value} (hz : z.router.faults = [])
    (hm : z.msgs = [a, b, v]) :
    sendReply (.msg 0) (.msg 1) (.value (.str v')) (.value w) code reason user metadata z =
      (.error (.typeError "wrong argument type"),
        { z.wrote (openFrames [a, b, v']) with msgs := [[], [], v] }) := by
  obtain ⟨⟨inbox, out, faults⟩, msgs, statuses⟩ := z
  obtain rfl : faults = [] := hz
  obtain rfl : msgs = _ := hm
  simp [sendReply, sendVersion, Effect.bind_apply, libzmqMsgSend_apply, libzmqMsgSend_value,
    send_apply, wrote, fitsInt_SNDMORE, Value.str, openFrames]

/-- What a call on a request of three frames writes. -/
theorem handleZap_three (hz : Idle z) (hreq : c.request = [a, b, v]) :
    (handleZap c.authenticate c.crash (z.arrive c.request)).2.router =
      { inbox := [], faults := []
        out := (if v = version1 then [] else openFrames [a, b, version1]).foldl Pipe.write
          z.router.out } := by
  have hmsgs : (z.received c.request).msgs = [a, b, v] := hreq
  have hanswer := @answer_three _ _ _ _ c.authenticate hmsgs
  rw [handleZap_eq hz.inbox (by simp [hreq]), ← hz.faults]
  by_cases hv : v = version1
  · rw [if_pos hv] at hanswer ⊢
    rw [Effect.rescue_error hanswer, rescued_short_snd (by simp [hmsgs])]
    rfl
  · rw [if_neg hv] at hanswer ⊢
    rw [Effect.rescue_error (hanswer.trans (sendReply_nil hz.faults hmsgs)),
      rescued_short_snd (by simp)]
    rfl

/-- A call on a request of two frames writes nothing. -/
theorem handleZap_two (hz : Idle z) (hreq : c.request = [a, b]) :
    (handleZap c.authenticate c.crash (z.arrive c.request)).2.router =
      { inbox := [], faults := [], out := z.router.out } := by
  rw [handleZap_eq hz.inbox (by simp [hreq]),
    Effect.rescue_error (answer_two (by simp [received, hreq])),
    rescued_short_snd (by simp [received, hreq]), ← hz.faults]
  rfl

theorem sendable_judge_iff {rest : List Bytes} :
    Sendable crash (judge authenticate version1 rest) ↔ Replied authenticate crash rest := by
  match rest with
  | [] | [_] | [_, _] | [_, _, _] => rfl
  | domain :: address :: identity :: mechanism :: cs =>
    simp only [judge, if_true, Replied, List.getElem?_cons_zero, List.getElem?_cons_succ,
      List.drop_succ_cons, List.drop_zero, toStr, bind, Except.bind]
    cases authenticate domain address identity mechanism cs with
    | error e => rfl
    | ok ret =>
      cases ht : ret.user.truthy
      · simp [Sendable, pure, Except.pure, Value.nil, metadataFrame, ht]
      · simp [Sendable, pure, Except.pure, ht, metadataFrame_eq_ok]

theorem sendable_judge_of_ne (h : v ≠ version1) :
    Sendable crash (judge authenticate v l) := by
  rw [judge, if_neg h]
  exact ⟨⟨[], rfl⟩, [], rfl⟩

theorem not_framed_of_garbled {w : List (Frame Bytes)} (hc : 4 ≤ c.request.length)
    (h : z'.router.out = w.foldl Pipe.write z.router.out) (hw : Garbled w) : ¬Framed z c z' := by
  rcases hw with rfl | ⟨l, w', hl, rfl, rfl | hw'⟩
  · rintro ⟨-, w, hw, hreply⟩
    obtain rfl : w = [] := by simpa [h, Pipe.written] using hw
    rcases hreply with ⟨-, hlt⟩ | ⟨_, _, _, _, _, _, _, _, hnil, -⟩
    · exact absurd hlt (Nat.not_lt.2 hc)
    · exact absurd (congrArg List.length hnil) (by simp)
  · exact not_framed_of_open hl (by rw [h, List.append_nil])
  · exact not_framed_of_open_append hl h hw'

theorem framed_of_nothing (hz : Idle z) (hc : c.request.length < 4)
    (h : z'.router.out = z.router.out) : Framed z c z' :=
  ⟨h ▸ hz.atBoundary, [], by rw [h, List.append_nil], Or.inl ⟨rfl, hc⟩⟩

/-- One call, on a Router between messages. -/
theorem framed_iff_answerable (hz : Idle z) (h : zap.step z c = some z') :
    (Framed z c z' ↔ c.Answerable) ∧ z'.router.inbox = [] ∧ z'.router.faults = [] := by
  have hz' := Option.some.inj h
  rw [Call.Answerable]
  match hreq : c.request with
  | [] | [_] => exact absurd c.two_le (by simp [hreq])
  | [a, b] =>
    have hrouter := handleZap_two hz hreq
    rw [hz'] at hrouter
    refine ⟨iff_of_true (framed_of_nothing hz (by simp [hreq]) ?_) trivial, ?_, ?_⟩ <;> rw [hrouter]
  | [a, b, v] =>
    -- Another version is answered, but there is no request id to reply with.
    have hrouter := handleZap_three hz hreq
    rw [hz'] at hrouter
    refine ⟨?_, by rw [hrouter], by rw [hrouter]⟩
    by_cases hv : v = version1
    · rw [if_pos hv] at hrouter
      exact iff_of_true (framed_of_nothing hz (by simp [hreq]) (by rw [hrouter]; rfl)) hv
    · rw [if_neg hv] at hrouter
      exact iff_of_false (not_framed_of_open (List.cons_ne_nil _ _) (by rw [hrouter])) hv
  | a :: b :: v :: r :: l =>
    obtain ⟨w, hrouter, hw⟩ := handleZap_long hz hreq
    rw [hz'] at hrouter
    have hsend : Sendable c.crash (judge c.authenticate v l) ↔
        (v = version1 → Replied c.authenticate c.crash l) := by
      by_cases hv : v = version1
      · rw [hv, sendable_judge_iff]
        exact ⟨fun h _ => h, fun h => h rfl⟩
      · exact iff_of_true (sendable_judge_of_ne hv) fun h => absurd h hv
    refine ⟨Iff.trans ?_ hsend, by rw [hrouter], by rw [hrouter]⟩
    rcases hw with ⟨hok, hreply⟩ | ⟨hbad, hgarbled⟩
    · exact iff_of_true (framed_of_reply (by rw [hrouter]) hreply) hok
    · refine iff_of_false (not_framed_of_garbled ?_ (by rw [hrouter]) hgarbled) hbad
      rw [hreq]
      exact Nat.le_add_left 4 l.length

/-- In every run of calls, each one writes nothing or one reply to its request,
    exactly if all of them can be answered. -/
theorem throughout_framed_iff {calls : List Call} (hz : Idle z) :
    zap.Throughout Framed z calls ↔ ∀ c ∈ calls, c.Answerable := by
  induction calls generalizing z with
  | nil => simp [Machine.Throughout]
  | cons c calls ih =>
    have hstep : zap.step z c = some _ := rfl
    obtain ⟨hiff, hinbox, hfaults⟩ := framed_iff_answerable hz hstep
    rw [Machine.throughout_cons hstep, hiff, List.forall_mem_cons]
    exact and_congr_right fun hc => ih ⟨hinbox, hfaults, (hiff.2 hc).1⟩

theorem run_framed_iff (calls : List Call) :
    zap.Throughout Framed {} calls ↔ ∀ c ∈ calls, c.Answerable :=
  throughout_framed_iff idle_empty

/-- A request of three frames, of another version. -/
def threeFrames : Call where
  request := [[1], [], [50]]
  two_le := by decide
  authenticate _ _ _ _ _ := .ok (.value .nil)
  crash _ := .ok ()

/-- A request which is accepted, with metadata to be sent. -/
def accepted (metadata : Value) : Call where
  request := [[2], [], version1, [7], [], [], [], Authenticator.NULL]
  two_le := by decide
  authenticate _ _ _ _ _ := .ok (.array [.str [97], metadata])
  crash _ := .ok ()

/-- Metadata with a key of 256 bytes. -/
def longKey : Value where
  toStr := .ok []
  each := some { pairs := [(.ok (List.replicate 256 107), .ok [])] }

/-- The reply to a request of three frames is glued to the next one, and goes
    to the peer of the first; and a key of 256 bytes has two replies glued. -/
theorem replies_glued :
    (zap.run {} [threeFrames, accepted .nil]).map (·.router.out) =
      some { flushed := openFrames [[1], [], version1] ++
        frames [[2], [], version1, [7], ascii ['2', '0', '0'], ascii ['O', 'K'], [97], []] } ∧
    ¬zap.Throughout Framed {} [threeFrames, accepted .nil] ∧
    ¬zap.Throughout Framed {} [accepted longKey] := by
  refine ⟨rfl, fun h => ?_, fun h => ?_⟩
  · have hthree : threeFrames.Answerable := (throughout_framed_iff idle_empty).1 h _ (by simp)
    exact absurd (List.cons.inj hthree).1 (by decide)
  · have hlong : (accepted longKey).Answerable :=
      (throughout_framed_iff idle_empty).1 h _ (by simp)
    obtain ⟨hpairs, -⟩ := (hlong rfl rfl).2 _ rfl
    obtain ⟨key, value, heq, hkey⟩ := hpairs _ List.mem_cons_self
    rw [← Except.ok.inj (Prod.ext_iff.1 heq).1] at hkey
    rw [List.length_replicate] at hkey
    exact absurd hkey (by decide)

end Zap

end MrubyZmq
