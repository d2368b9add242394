import MrubyZmq.Zap

/-!
# The replies of a Zap

What `handle_zap` does, in two parts: what it calls `send_reply` with, if
anything (`judge`), and which frames a call of `send_reply` gets to write.

The first six frames always get written. A reply is complete unless the user
does not convert to a string or the metadata cannot be encoded (`Encodable`):
then it fails with six or seven frames pending.
-/

namespace MrubyZmq

namespace Zap

variable {z : Zap} {flags : ℤ} {a b v r : Bytes} {l : List Bytes} {code : ℕ} {reason : Bytes}
  {user metadata : Value}

/-- What the call writes. -/
def wrote (z : Zap) (l : List (Frame Bytes)) : Zap :=
  { z with router.out := l.foldl Pipe.write z.router.out }

/-- What `send_reply` writes up to some frame after the status code, having sent
    the `Msg`s. -/
def replied (z : Zap) (l : List (Frame Bytes)) (msgs : List Bytes) (code : ℕ) : Zap :=
  { z.wrote l with msgs, statuses := z.statuses ++ [code] }

theorem replied_wrote {l m : List (Frame Bytes)} {msgs : List Bytes} {code : ℕ} :
    (z.replied l msgs code).wrote m = z.replied (l ++ m) msgs code := by
  simp [replied, wrote]

theorem send_apply {message : Value} (hz : z.router.faults = []) (hf : FitsInt flags) :
    send message flags z = match message.toStr with
      | .ok data => (.ok (), z.wrote [⟨data, sndmore flags⟩])
      | .error e => (.error e, z) := by
  rw [send, Effect.bind_apply, onRouter, libzmqSend_apply hz hf]
  cases h : message.toStr <;> rfl

theorem send_ok {message : Value} {data : Bytes} (hz : z.router.faults = []) (hf : FitsInt flags)
    (h : message.toStr = .ok data) :
    send message flags z = (.ok (), z.wrote [⟨data, sndmore flags⟩]) := by
  rw [send_apply hz hf, h]

theorem send_error {message : Value} {e : Err} (hz : z.router.faults = []) (hf : FitsInt flags)
    (h : message.toStr = .error e) : send message flags z = (.error e, z) := by
  rw [send_apply hz hf, h]

theorem libzmqMsgSend_apply {i : ℕ} (hz : z.router.faults = []) (hf : FitsInt flags) :
    libzmqMsgSend (.msg i) flags z =
      (.ok (), { z.wrote [⟨z.msgs.getD i [], sndmore flags⟩] with msgs := z.msgs.set i [] }) := by
  obtain ⟨⟨inbox, out, faults⟩, msgs, statuses⟩ := z
  obtain rfl : faults = [] := hz
  rw [libzmqMsgSend, assertInt_of_fits hf]
  rfl

theorem libzmqMsgSend_value {v : Value} : libzmqMsgSend (.value v) flags =
    Effect.raise (.typeError "wrong argument type") := rfl

theorem sendStatus_apply {n : ℕ} (hz : z.router.faults = []) :
    sendStatus n z = (.ok (), { z.wrote [⟨ascii (Nat.toDigits 10 n), true⟩] with
      statuses := z.statuses ++ [n] }) := by
  rw [sendStatus, Effect.bind_apply, send_apply hz fitsInt_SNDMORE]
  rfl

/-- The last frame of a reply. -/
def metadataFrame (metadata : Value) : Except Err Bytes :=
  match metadata.each with
  | some pairs => encodeMeta pairs
  | none => .ok []

theorem sendMetadata_apply (hz : z.router.faults = []) :
    sendMetadata metadata z = match metadataFrame metadata with
      | .ok data => (.ok (), z.wrote [⟨data, false⟩])
      | .error e => (.error e, z) := by
  rw [sendMetadata, metadataFrame]
  cases metadata.each with
  | none => exact send_apply hz fitsInt_zero
  | some pairs =>
    cases h : encodeMeta pairs with
    | error e => simp only [h, Effect.ofExcept_error, Effect.bind_apply, Effect.raise_apply]
    | ok m =>
      simp only [h, Effect.ofExcept_ok, Effect.bind_apply, Effect.pure_apply]
      exact send_apply hz fitsInt_zero

/-- The first six frames of a reply always get written. -/
theorem sendReply_apply (code : ℕ) (reason : Bytes) (user metadata : Value) {version : Arg}
    {v' : Bytes} (hz : z.router.faults = []) (hm : z.msgs = a :: b :: v :: r :: l)
    (hv : version = .msg 2 ∧ v' = v ∨ version = .value (.str v')) :
    ∃ v'', sendReply (.msg 0) (.msg 1) version (.msg 3) code reason user metadata z =
      (do send user SNDMORE; sendMetadata metadata)
        (z.replied (openFrames [a, b, v', r, ascii (Nat.toDigits 10 code), reason])
          ([] :: [] :: v'' :: [] :: l) code) := by
  obtain ⟨⟨inbox, out, faults⟩, msgs, statuses⟩ := z
  obtain rfl : faults = [] := hz
  obtain rfl : msgs = _ := hm
  rcases hv with ⟨rfl, rfl⟩ | rfl
  · refine ⟨[], ?_⟩
    simp [sendReply, sendVersion, Effect.bind_apply, libzmqMsgSend_apply, sendStatus_apply,
      send_apply, replied, wrote, fitsInt_SNDMORE, Value.str, openFrames]
  · refine ⟨v, ?_⟩
    simp [sendReply, sendVersion, Effect.bind_apply, libzmqMsgSend_apply, sendStatus_apply,
      send_apply, replied, wrote, fitsInt_SNDMORE, Value.str, openFrames]

/-! ## Metadata -/

/-- The metadata which can be encoded. -/
def Encodable (metadata : Each) : Prop :=
  (∀ p ∈ metadata.pairs, ∃ key value, p = (.ok key, .ok value) ∧ key.length ≤ 255) ∧
    metadata.done = .ok ()

theorem encodePairs_eq_ok {pairs : List (Except Err Bytes × Except Err Bytes)} {encoded : Bytes} :
    (∃ m, encodePairs pairs encoded = .ok m) ↔
      ∀ p ∈ pairs, ∃ key value, p = (.ok key, .ok value) ∧ key.length ≤ 255 := by
  induction pairs generalizing encoded with
  | nil => simp [encodePairs]
  | cons p l ih =>
    obtain ⟨key | key, value | value⟩ := p
    · simp [encodePairs, bind, Except.bind]
    · simp [encodePairs, bind, Except.bind]
    · simp [encodePairs, bind, Except.bind]
    · by_cases hkey : key.length > 255
      · have hlong : ¬key.length ≤ 255 := Nat.not_le.2 hkey
        simp [encodePairs, bind, Except.bind, hkey, hlong, throw, throwThe, MonadExceptOf.throw]
      · have hshort : key.length ≤ 255 := Nat.not_lt.1 hkey
        have hl := @ih (encoded ++ (packC key.length ++ key ++ packN value.length ++ value))
        rw [encodePairs, List.forall_mem_cons, ← hl]
        simp [bind, Except.bind, hkey, hshort]

theorem metadataFrame_eq_ok :
    (∃ m, metadataFrame metadata = .ok m) ↔
      ∀ pairs, metadata.each = some pairs → Encodable pairs := by
  rw [metadataFrame]
  cases metadata.each with
  | none => simp
  | some pairs =>
    simp only [Option.some.injEq, forall_eq', Encodable, ← @encodePairs_eq_ok pairs.pairs []]
    cases h : encodePairs pairs.pairs [] with
    | error e => simp [encodeMeta, h, bind, Except.bind]
    | ok m =>
      cases h' : pairs.done <;> simp [encodeMeta, h, h', bind, Except.bind, pure, Except.pure]

/-! ## Whole replies -/

theorem sendReply_complete {version : Arg} {v' u m : Bytes} (hz : z.router.faults = [])
    (hm : z.msgs = a :: b :: v :: r :: l)
    (hv : version = .msg 2 ∧ v' = v ∨ version = .value (.str v'))
    (hu : user.toStr = .ok u) (hmeta : metadataFrame metadata = .ok m) :
    ∃ msgs, sendReply (.msg 0) (.msg 1) version (.msg 3) code reason user metadata z =
      (.ok (), z.replied (frames [a, b, v', r, ascii (Nat.toDigits 10 code), reason, u, m]) msgs
        code) := by
  obtain ⟨v'', h⟩ := sendReply_apply code reason user metadata hz hm hv
  refine ⟨[] :: [] :: v'' :: [] :: l, h.trans ?_⟩
  refine (Effect.bind_ok (send_ok (by exact hz) fitsInt_SNDMORE hu)).trans ?_
  refine (sendMetadata_apply (by exact hz)).trans ?_
  rw [hmeta, replied_wrote]
  exact congrArg (Prod.mk _) replied_wrote

/-- A reply which fails leaves frames pending. -/
theorem sendReply_incomplete {version : Arg} {v' : Bytes} (hz : z.router.faults = [])
    (hm : z.msgs = a :: b :: v :: r :: l)
    (hv : version = .msg 2 ∧ v' = v ∨ version = .value (.str v'))
    (h : ¬((∃ u, user.toStr = .ok u) ∧ ∃ m, metadataFrame metadata = .ok m)) :
    ∃ e v'' written, written ≠ [] ∧
      sendReply (.msg 0) (.msg 1) version (.msg 3) code reason user metadata z =
        (.error e, z.replied (openFrames written) ([] :: [] :: v'' :: [] :: l) code) := by
  obtain ⟨v'', hreply⟩ := sendReply_apply code reason user metadata hz hm hv
  cases hu : user.toStr with
  | error e =>
    refine ⟨e, v'', [a, b, v', r, ascii (Nat.toDigits 10 code), reason], List.cons_ne_nil _ _, ?_⟩
    exact hreply.trans (Effect.bind_error (send_error (by exact hz) fitsInt_SNDMORE hu))
  | ok u =>
    cases hmeta : metadataFrame metadata with
    | ok m => exact absurd ⟨⟨u, hu⟩, m, hmeta⟩ h
    | error e =>
      refine ⟨e, v'', [a, b, v', r, ascii (Nat.toDigits 10 code), reason, u], List.cons_ne_nil _ _,
        hreply.trans ?_⟩
      refine (Effect.bind_ok (send_ok (by exact hz) fitsInt_SNDMORE hu)).trans ?_
      refine (sendMetadata_apply (by exact hz)).trans ?_
      rw [hmeta, replied_wrote]
      rfl

/-! ## Decisions -/

/-- What `handle_zap` calls `send_reply` with. -/
structure Reply where
  version : Arg := .msg 2
  statusCode : ℕ
  reason : Bytes
  user : Value := .nil
  metadata : Value := .nil

/-- What `handle_zap` makes of the version and the frames after the request id. -/
def judge (authenticate : Authenticate) (version : Bytes) (rest : List Bytes) :
    Except Err Reply :=
  if version = version1 then do
    let domain ← toStr rest[0]?
    let address ← toStr rest[1]?
    let identity ← toStr rest[2]?
    let mechanism ← toStr rest[3]?
    let ret ← authenticate domain address identity mechanism (rest.drop 4)
    if ret.user.truthy then
      return { statusCode := 200, reason := ascii ['O', 'K'], user := ret.user,
               metadata := ret.metadata }
    else
      return { statusCode := 400, reason := ascii "Invalid credentials".toList }
  else
    return { version := .value (.str version1), statusCode := 500,
             reason := ascii "Version number not valid".toList }

variable {authenticate : Authenticate} {crash : Err → Except Err Unit} {e : Err} {reply : Reply}

theorem var_apply {i : ℕ} :
    var i z = (.ok (if i < z.msgs.length then .msg i else .value .nil), z) := rfl

theorem var_msg {i : ℕ} (hm : z.msgs = a :: b :: v :: r :: l) (hi : i < 4) :
    var i z = (.ok (.msg i), z) := by
  rw [var, if_pos (by simp [hm]; omega)]

theorem varToStr_apply {i : ℕ} : varToStr i z = (toStr z.msgs[i]?, z) := rfl

/-- Handling a request without a version. -/
theorem answer_two (h : z.msgs[2]? = none) :
    answer authenticate z = (.error (.noMethodError "to_str"), z) := by
  rw [answer, Effect.bind_ok var_apply, Effect.bind_ok var_apply, Effect.bind_ok var_apply,
    Effect.bind_ok var_apply, Effect.bind_error]
  rw [varToStr_apply, h]
  rfl

/-- Handling a request without a request id. -/
theorem answer_three (hm : z.msgs = [a, b, v]) :
    answer authenticate z =
      if v = version1 then (.error (.noMethodError "to_str"), z)
      else sendReply (.msg 0) (.msg 1) (.value (.str version1)) (.value .nil) 500
        (ascii "Version number not valid".toList) .nil .nil z := by
  have hstr {i : ℕ} : varToStr i z = (toStr ([a, b, v] : List Bytes)[i]?, z) := by
    rw [varToStr, hm]
  have hvar {i : ℕ} : var i z = (.ok (if i < 3 then .msg i else .value .nil), z) := by
    rw [var, hm]
    rfl
  rw [answer, Effect.bind_ok hvar, Effect.bind_ok hvar, Effect.bind_ok hvar, Effect.bind_ok hvar,
    Effect.bind_ok hstr]
  split
  · exact Effect.bind_error hstr
  · rfl

/-- Handling a request with at least four frames. -/
theorem answer_eq (hm : z.msgs = a :: b :: v :: r :: l) :
    answer authenticate z = match judge authenticate v l with
      | .ok reply => sendReply (.msg 0) (.msg 1) reply.version (.msg 3) reply.statusCode
          reply.reason reply.user reply.metadata z
      | .error e => (.error e, z) := by
  have hvar {i : ℕ} : i < 4 → var i z = (.ok (.msg i), z) := var_msg hm
  have hstr {i : ℕ} : varToStr (i + 2) z = (toStr (v :: r :: l)[i]?, z) := by rw [varToStr, hm]; rfl
  have hcred : credentials z = (.ok (l.drop 4), z) := by rw [credentials, hm]; rfl
  rw [answer, Effect.bind_ok (hvar (by decide)), Effect.bind_ok (hvar (by decide)),
    Effect.bind_ok (hvar (by decide)), Effect.bind_ok (hvar (by decide)), Effect.bind_ok hstr,
    judge]
  by_cases hv : v = version1
  · rw [if_pos hv, if_pos hv]
    -- The first of the four variables without a frame raises.
    match l with
    | [] => exact Effect.bind_error hstr
    | [_] => exact (Effect.bind_ok hstr).trans (Effect.bind_error hstr)
    | [_, _] =>
      exact (Effect.bind_ok hstr).trans ((Effect.bind_ok hstr).trans (Effect.bind_error hstr))
    | [_, _, _] =>
      rw [Effect.bind_ok hstr, Effect.bind_ok hstr, Effect.bind_ok hstr, Effect.bind_error hstr]
      rfl
    | domain :: address :: identity :: mechanism :: cs =>
      rw [Effect.bind_ok hstr, Effect.bind_ok hstr, Effect.bind_ok hstr, Effect.bind_ok hstr,
        Effect.bind_ok hcred]
      simp only [List.getElem?_cons_zero, List.getElem?_cons_succ, List.drop_succ_cons,
        List.drop_zero, toStr, bind, Except.bind]
      cases authenticate domain address identity mechanism cs with
      | error e => rfl
      | ok ret =>
        simp only [Effect.ofExcept_ok, Effect.pure_apply]
        cases ht : ret.user.truthy
        · rw [if_neg Bool.false_ne_true, if_neg Bool.false_ne_true]
          rfl
        · rw [if_pos rfl, if_pos rfl]
          rfl
  · rw [if_neg hv, if_neg hv]
    rfl

theorem judge_version (h : judge authenticate v l = .ok reply) :
    ∃ v', reply.version = .msg 2 ∧ v' = v ∨ reply.version = .value (.str v') := by
  rw [judge] at h
  split at h
  · match l with
    | [] | [_] | [_, _] | [_, _, _] => simp [toStr, bind, Except.bind] at h
    | domain :: address :: identity :: mechanism :: cs =>
      simp only [List.getElem?_cons_zero, List.getElem?_cons_succ, List.drop_succ_cons,
        List.drop_zero, toStr, bind, Except.bind] at h
      split at h
      · simp at h
      · split at h <;> exact ⟨v, Or.inl ⟨by rw [← Except.ok.inj h], rfl⟩⟩
  · exact ⟨version1, Or.inr (by rw [← Except.ok.inj h])⟩

/-! ## The parts of a call -/

theorem rescued_error {e' : Err} (h : crash e = .error e') :
    rescued crash e z = (.error e', z) := by
  rw [rescued, h]
  rfl

theorem rescued_short (h : crash e = .ok ()) (hm : z.msgs.length ≤ 3) :
    rescued crash e z = (.ok (), z) := by
  have hvar : var 3 z = (.ok (.value .nil), z) := by rw [var, if_neg (Nat.not_lt.2 hm)]
  rw [rescued, h]
  refine (Effect.bind_ok Effect.pure_apply).trans ?_
  rw [Effect.bind_ok var_apply, Effect.bind_ok var_apply, Effect.bind_ok var_apply,
    Effect.bind_ok hvar]
  simp [Arg.truthy, Value.nil]

theorem rescued_long (h : crash e = .ok ()) (hm : z.msgs = a :: b :: v :: r :: l) :
    rescued crash e z = sendReply (.msg 0) (.msg 1) (.msg 2) (.msg 3) 300
      (ascii "Temporary Error".toList) .nil .nil z := by
  have hvar {i : ℕ} : i < 4 → var i z = (.ok (.msg i), z) := var_msg hm
  rw [rescued, h]
  refine (Effect.bind_ok Effect.pure_apply).trans ?_
  rw [Effect.bind_ok (hvar (by decide)), Effect.bind_ok (hvar (by decide)),
    Effect.bind_ok (hvar (by decide)), Effect.bind_ok (hvar (by decide))]
  rfl

theorem recv_eq {request : List Bytes} {rest : List (Frame Bytes)}
    (hin : z.router.inbox = frames request ++ rest) (hreq : request ≠ []) :
    recv z = (.ok (), { z with router.inbox := rest, msgs := request }) := by
  have hrecv : onRouter (socketRecv 0) z =
      (.ok (.ofMessage request), { z with router.inbox := rest }) := by
    simp [onRouter, socketRecv, assertInt_of_fits fitsInt_zero, recvMsgs, hin,
      recvLoop_frames hreq, Effect.bind_apply]
  rw [recv, Effect.bind_ok hrecv]
  match request, hreq with
  | [a], _ => rfl
  | a :: b :: l, _ => rfl

end Zap

end MrubyZmq
