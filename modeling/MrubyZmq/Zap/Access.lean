import MrubyZmq.Zap.Reply

/-!
# Who gets in

The status 200 should only be written for a request which the authenticator
has accepted, by the callback of its mechanism and given all the credentials
of that mechanism (`Grants`).

This holds of all requests but those for the mechanism PLAIN with one
credential (`SelfPassword`): `authenticate` takes the username and the password
from the first and the last credential, so that the callback gets the one
credential as both (`fails_closed_iff`).
-/

namespace MrubyZmq

/-- A truthy user is returned. -/
def Accepts (ret : Except Err Ret) : Prop := ∃ r, ret = .ok r ∧ r.user.truthy = true

namespace Authenticator

variable (a : Authenticator)

/-- The request is of version 1.0, carries what its mechanism needs, and is
    accepted by the callback of its mechanism. -/
def Grants : List Bytes → Prop
  | _ :: _ :: version :: _ :: domain :: address :: identity :: mechanism :: credentials =>
    version = Zap.version1 ∧
    (mechanism = NULL ∧ Accepts (a.null domain address identity) ∨
      mechanism = PLAIN ∧ (∃ username rest password, credentials = username :: rest ∧
        rest.getLast? = some password ∧
        Accepts (a.plain domain address identity username password)) ∨
      mechanism = CURVE ∧ ∃ publicKey rest, credentials = publicKey :: rest ∧
        Accepts (a.curve domain address identity publicKey))
  | _ => False

/-- A request for PLAIN with one credential, which the callback accepts as both
    the username and the password. -/
def SelfPassword (request : List Bytes) : Prop :=
  ∃ socketIdentity delimiter requestId domain address identity username,
    request = [socketIdentity, delimiter, Zap.version1, requestId, domain, address, identity,
      PLAIN, username] ∧
    Accepts (a.plain domain address identity username username)

/-- Two credentials or more are told apart. -/
theorem accepts_plain_iff {domain address identity : Bytes} {credentials : List Bytes} :
    Accepts (a.authenticate domain address identity PLAIN credentials) ↔
      (∃ username rest password, credentials = username :: rest ∧ rest.getLast? = some password ∧
        Accepts (a.plain domain address identity username password)) ∨
      ∃ username, credentials = [username] ∧
        Accepts (a.plain domain address identity username username) := by
  have heq : a.authenticate domain address identity PLAIN credentials = (do
      let username ← toStr credentials.head?
      let password ← toStr credentials.getLast?
      a.plain domain address identity username password) := rfl
  rw [heq]
  match credentials with
  | [] => simp [toStr, bind, Except.bind, Accepts]
  | [username] => simp [toStr, bind, Except.bind]
  | username :: second :: rest =>
    obtain ⟨password, hlast⟩ : ∃ password, (second :: rest).getLast? = some password :=
      ⟨_, List.getLast?_eq_some_getLast (List.cons_ne_nil second rest)⟩
    simp [toStr, bind, Except.bind, List.getLast?_cons_cons, hlast]

theorem accepts_curve_iff {domain address identity : Bytes} {credentials : List Bytes} :
    Accepts (a.authenticate domain address identity CURVE credentials) ↔
      ∃ publicKey rest, credentials = publicKey :: rest ∧
        Accepts (a.curve domain address identity publicKey) := by
  have heq : a.authenticate domain address identity CURVE credentials = (do
      let publicKey ← toStr credentials.head?
      a.curve domain address identity publicKey) := rfl
  rw [heq]
  cases credentials with
  | nil => simp [toStr, bind, Except.bind, Accepts]
  | cons publicKey rest => simp [toStr, bind, Except.bind]

theorem not_selfPassword_of_grants {request : List Bytes} (h : a.Grants request) :
    ¬a.SelfPassword request := by
  rintro ⟨_, _, _, _, _, _, username, rfl, -⟩
  obtain ⟨-, ⟨hN, -⟩ | ⟨-, _, rest, password, hcred, hlast, -⟩ | ⟨hC, -⟩⟩ := h
  · exact absurd hN (by decide)
  · rw [← (List.cons.inj hcred).2] at hlast
    exact absurd hlast (by simp)
  · exact absurd hC (by decide)

/-- What `authenticate` accepts, of a request of version 1.0. -/
theorem accepts_iff {socketIdentity delimiter requestId domain address identity mechanism : Bytes}
    {credentials : List Bytes} :
    Accepts (a.authenticate domain address identity mechanism credentials) ↔
      a.Grants (socketIdentity :: delimiter :: Zap.version1 :: requestId :: domain :: address ::
        identity :: mechanism :: credentials) ∨
      a.SelfPassword (socketIdentity :: delimiter :: Zap.version1 :: requestId :: domain ::
        address :: identity :: mechanism :: credentials) := by
  have hNP : NULL ≠ PLAIN := by decide
  have hNC : NULL ≠ CURVE := by decide
  have hPC : PLAIN ≠ CURVE := by decide
  rcases eq_or_ne mechanism NULL with rfl | hN
  · simp [authenticate, Grants, SelfPassword, hNP, hNC]
  rcases eq_or_ne mechanism PLAIN with rfl | hP
  · rw [accepts_plain_iff]
    simp [Grants, SelfPassword, hNP.symm, hPC]
  rcases eq_or_ne mechanism CURVE with rfl | hC
  · rw [accepts_curve_iff]
    simp [Grants, SelfPassword, hNC.symm, hPC.symm]
  · simp [authenticate, Grants, SelfPassword, hN, hP, hC, Accepts]

end Authenticator

namespace Zap

/-- The call writes no status code but `code`. -/
def Adds (code : ℕ) (z z' : Zap) : Prop :=
  ∃ n, z'.statuses = z.statuses ++ List.replicate n code

variable {code : ℕ}

instance : Std.Refl (Adds code) := ⟨fun _ => ⟨0, (List.append_nil _).symm⟩⟩

instance : IsTrans Zap (Adds code) where
  trans z z' z'' := by
    rintro ⟨n, hn⟩ ⟨m, hm⟩
    exact ⟨n + m, by rw [hm, hn, List.append_assoc, List.replicate_append_replicate]⟩

theorem Adds.mem {z z' : Zap} {n : ℕ} (h : Adds code z z') (hn : n ∈ z.statuses) :
    n ∈ z'.statuses := by
  obtain ⟨k, hk⟩ := h
  exact hk ▸ List.mem_append_left _ hn

theorem Adds.of_mem {z z' : Zap} {n : ℕ} (h : Adds code z z') (hn : n ∈ z'.statuses) :
    n ∈ z.statuses ∨ n = code := by
  obtain ⟨k, hk⟩ := h
  rw [hk] at hn
  exact (List.mem_append.1 hn).imp_right List.eq_of_mem_replicate

variable {flags : ℤ} {msg version : Arg} {message metadata user : Value}

theorem onRouter_adds {α : Type} {x : Effect Err Sock α} :
    Effect.Within (Adds code) (onRouter x) :=
  fun _ => ⟨0, (List.append_nil _).symm⟩

theorem send_adds : Effect.Within (Adds code) (send message flags) :=
  onRouter_adds.bind fun _ => Effect.Within.pure

theorem libzmqMsgSend_adds : Effect.Within (Adds code) (libzmqMsgSend msg flags) := by
  cases msg with
  | value v => exact Effect.Within.raise
  | msg i =>
    refine Effect.Within.bind ?_ fun _ z => ⟨0, ?_⟩
    · rw [assertInt, assertIntFit]
      split
      · exact Effect.Within.pure
      · exact Effect.Within.raise
    · rw [sendMsg]
      split <;> exact (List.append_nil _).symm

theorem sendVersion_adds : Effect.Within (Adds code) (sendVersion version) := by
  cases version with
  | msg i => exact libzmqMsgSend_adds
  | value v => exact send_adds

theorem sendMetadata_adds : Effect.Within (Adds code) (sendMetadata metadata) := by
  rw [sendMetadata]
  split
  · exact Effect.Within.ofExcept.bind fun _ => send_adds
  · exact send_adds

theorem sendStatus_adds : Effect.Within (Adds code) (sendStatus code) :=
  send_adds.bind fun _ _ => ⟨1, rfl⟩

/-- A reply writes its own status code. -/
theorem sendReply_adds {socketIdentity delimiter requestId : Arg} {reason : Bytes} :
    Effect.Within (Adds code)
      (sendReply socketIdentity delimiter version requestId code reason user metadata) :=
  libzmqMsgSend_adds.bind fun _ => libzmqMsgSend_adds.bind fun _ => sendVersion_adds.bind fun _ =>
    libzmqMsgSend_adds.bind fun _ => sendStatus_adds.bind fun _ => send_adds.bind fun _ =>
    send_adds.bind fun _ => sendMetadata_adds

/-! ## The status 200 -/

variable {z : Zap} {a : Authenticator} {authenticate : Authenticate} {v r : Bytes}
  {request l : List Bytes} {crash : Err → Except Err Unit} {e : Err} {reply : Reply}

theorem rescued_adds : Effect.Within (Adds 300) (rescued crash e) := by
  refine Effect.Within.ofExcept.bind fun _ => Effect.Within.bind ?_ fun _ => Effect.Within.bind ?_
    fun _ => Effect.Within.bind ?_ fun _ => Effect.Within.bind ?_ fun _ => ?_
  any_goals exact fun _ => Std.Refl.refl _
  split
  · exact sendReply_adds
  · exact Effect.Within.pure

/-- The status 200 is decided on exactly where the authenticator accepts. -/
theorem judge_200 :
    (∃ reply, judge authenticate v l = .ok reply ∧ reply.statusCode = 200) ↔
      ∃ domain address identity mechanism credentials, v = version1 ∧
        l = domain :: address :: identity :: mechanism :: credentials ∧
        Accepts (authenticate domain address identity mechanism credentials) := by
  by_cases hv : v = version1
  · match l with
    | [] | [_] | [_, _] | [_, _, _] => simp [judge, hv, toStr, bind, Except.bind]
    | domain :: address :: identity :: mechanism :: cs =>
      simp only [judge, hv, if_true, List.getElem?_cons_zero, List.getElem?_cons_succ,
        List.drop_succ_cons, List.drop_zero, toStr, bind, Except.bind]
      cases h : authenticate domain address identity mechanism cs with
      | error e => simp [Accepts, h]
      | ok ret => cases hu : ret.user.truthy <;> simp [Accepts, h, hu, pure, Except.pure]
  · simp [judge, hv, pure, Except.pure]

/-- The status 200 is only written after being decided on. -/
theorem answer_200 (h : 200 ∈ (answer authenticate z).2.statuses) (hz : 200 ∉ z.statuses) :
    ∃ b d v r l, z.msgs = b :: d :: v :: r :: l ∧
      ∃ reply, judge authenticate v l = .ok reply ∧ reply.statusCode = 200 := by
  rcases hm : z.msgs with _ | ⟨b, _ | ⟨d, _ | ⟨v, _ | ⟨r, l⟩⟩⟩⟩
  · rw [answer_two (by simp [hm])] at h
    exact absurd h hz
  · rw [answer_two (by simp [hm])] at h
    exact absurd h hz
  · rw [answer_two (by simp [hm])] at h
    exact absurd h hz
  · rw [answer_three hm] at h
    split at h
    · exact absurd h hz
    · exact absurd ((sendReply_adds z).of_mem h) (by simp [hz])
  · rw [answer_eq hm] at h
    cases hjudge : judge authenticate v l with
    | error e =>
      rw [hjudge] at h
      exact absurd h hz
    | ok reply =>
      rw [hjudge] at h
      have hcode := ((sendReply_adds z).of_mem h).resolve_left hz
      exact ⟨b, d, v, r, l, rfl, reply, hjudge, hcode.symm⟩

/-- What is accepted is replied with the status 200, if no call of libzmq fails. -/
theorem mem_answer_200 {b d : Bytes} (hz : z.router.faults = [])
    (hm : z.msgs = b :: d :: v :: r :: l) (hjudge : judge authenticate v l = .ok reply)
    (hreply : reply.statusCode = 200) : 200 ∈ (answer authenticate z).2.statuses := by
  obtain ⟨v', hv⟩ := judge_version hjudge
  obtain ⟨v'', hsend⟩ := sendReply_apply reply.statusCode reply.reason reply.user reply.metadata
    hz hm hv
  have hanswer := @answer_eq _ _ _ _ _ _ authenticate hm
  rw [hjudge] at hanswer
  rw [hanswer.trans hsend]
  have hadds : Effect.Within (Adds 200) (do send reply.user SNDMORE; sendMetadata reply.metadata) :=
    send_adds.bind fun _ => sendMetadata_adds
  exact (hadds _).mem (by simp [replied, hreply])

/-- The `rescue` does not write the status 200. -/
theorem rescue_200 : 200 ∈ (Effect.rescue (answer authenticate) (rescued crash) z).2.statuses ↔
    200 ∈ (answer authenticate z).2.statuses := by
  rcases h : answer authenticate z with ⟨e | _, z'⟩
  · rw [Effect.rescue_error h]
    exact ⟨fun h => ((rescued_adds z').of_mem h).resolve_right (by decide), (rescued_adds z').mem⟩
  · rw [Effect.rescue_ok h]

variable {rest : List (Frame Bytes)}

theorem handleZap_200 (hin : z.router.inbox = frames request ++ rest) (hreq : request ≠ []) :
    200 ∈ (handleZap authenticate crash z).2.statuses ↔ 200 ∈ (answer authenticate
      { z with router.inbox := rest, msgs := request, statuses := [] }).2.statuses := by
  have hrecv := @recv_eq { z with msgs := [], statuses := [] } request rest hin hreq
  rw [← @rescue_200 _ _ crash, handleZap, Effect.bind_ok Effect.modify_apply, Effect.rescue,
    Effect.rescue, Effect.bind_ok hrecv]

/-- The status 200 is written only for requests which the authenticator grants,
    whatever the state of the Router, exactly if it accepts no request for PLAIN
    with one credential. -/
theorem fails_closed_iff (a : Authenticator) (request : List Bytes) :
    (∀ z rest crash, request ≠ [] → z.router.inbox = frames request ++ rest →
      200 ∈ (handleZap a.authenticate crash z).2.statuses → a.Grants request) ↔
    ¬a.SelfPassword request := by
  constructor
  · intro hgrants hself
    -- The request is handled by an idle Router.
    obtain ⟨b, d, r, domain, address, identity, username, hreq, haccepts⟩ := id hself
    have hplain := a.accepts_plain_iff.2 (Or.inr ⟨username, rfl, haccepts⟩)
    obtain ⟨reply, hjudge, hreply⟩ :=
      judge_200.2 ⟨domain, address, identity, _, _, rfl, rfl, hplain⟩
    have hin : ({ inbox := frames request } : Sock).inbox = frames request ++ [] :=
      (List.append_nil _).symm
    have hne : request ≠ [] := hreq ▸ List.cons_ne_nil _ _
    refine a.not_selfPassword_of_grants (hgrants { router.inbox := frames request } []
      (fun _ => .ok ()) hne hin ?_) hself
    exact (handleZap_200 hin hne).2 (mem_answer_200 rfl hreq hjudge hreply)
  · intro hself z rest crash hreq hin h
    obtain ⟨b, d, v, r, l, hm, hjudge⟩ :=
      answer_200 ((handleZap_200 hin hreq).1 h) (List.not_mem_nil)
    obtain ⟨domain, address, identity, mechanism, cs, rfl, rfl, haccepts⟩ := judge_200.1 hjudge
    obtain rfl : request = _ := hm
    exact (a.accepts_iff.1 haccepts).resolve_right hself

/-- An authenticator which takes any user whose password is its name. -/
def sameName : Authenticator where
  plain _ _ _ username password := .ok (.value { truthy := username = password, toStr := .ok [] })

/-- A request which carries no password. -/
def noPassword : List Bytes := [[1], [], version1, [7], [], [], [], Authenticator.PLAIN, [97]]

/-- The username of a request without password is taken for the password. -/
theorem noPassword_accepted :
    ¬∀ (a : Authenticator) (request : List Bytes) z crash, z.router.inbox = frames request →
      200 ∈ (handleZap a.authenticate crash z).2.statuses → a.Grants request := by
  intro h
  have h200 : (handleZap sameName.authenticate (fun _ => .ok ())
      { router.inbox := frames noPassword }).2.statuses = [200] := rfl
  have hgrants := h sameName noPassword { router.inbox := frames noPassword } (fun _ => .ok ()) rfl
    (h200 ▸ List.mem_singleton_self 200)
  exact sameName.not_selfPassword_of_grants hgrants ⟨_, _, _, _, _, _, _, rfl, _, rfl, rfl⟩

end Zap

end MrubyZmq
