import MrubyZmq.Zap.Framing
import MrubyZmq.Zap.Metadata

/-!
# What the requesters are told

A Zap serves its requesters over the Router: a request asks whether a peer may
connect, and the reply tells it (`Ruling`). What it should tell is said without
frames: the authenticator's decision on what the request asks (`rule`).

In every run of calls which can be answered, the frames sent on the Router are
read, message by message, as the rulings on the requests, in the order of the
requests and each told to the peer that made the request, exactly if the values
of the metadata are shorter than `2 ^ 32` bytes (`told_iff_short`). The reader
(`readTold`) takes a reply to be of version 1.0, one of the four status codes
and, where access is granted, with properties by the grammar of ZMTP.
-/

namespace MrubyZmq

/-! ## Rulings -/

/-- What a peer is told about its request. -/
inductive Ruling
  /-- The peer may connect, as this user. -/
  | granted (user : Bytes) (metadata : List (Bytes × Bytes))
  | refused
  /-- The authenticator raised, or could not be asked. -/
  | failed
  /-- The request is not of version 1.0. -/
  | unsupported
  deriving DecidableEq, Repr

/-- A ruling on the request of a peer. -/
structure Told where
  peer : Bytes
  /-- The frame between the peer and the request. -/
  delimiter : Bytes
  requestId : Bytes
  ruling : Ruling
  deriving DecidableEq, Repr

namespace Value

variable (v : Value)

/-- The string it converts to. -/
def string : Bytes := v.toStr.toOption.getD []

/-- The pairs of strings it iterates over. -/
def strings : List (Bytes × Bytes) :=
  match v.each with
  | some pairs => pairs.pairs.map fun p => (p.1.toOption.getD [], p.2.toOption.getD [])
  | none => []

end Value

/-- The ruling on a request of this version, with these frames after its id. -/
def rule (authenticate : Authenticate) (version : Bytes) (rest : List Bytes) : Ruling :=
  if version = Zap.version1 then
    match rest with
    | domain :: address :: identity :: mechanism :: credentials =>
      match authenticate domain address identity mechanism credentials with
      | .ok ret =>
        if ret.user.truthy then .granted ret.user.string ret.metadata.strings else .refused
      | .error _ => .failed
    | _ => .failed
  else .unsupported

/-- What is to be told about the request, if it can be replied to. -/
def Zap.Call.told (c : Zap.Call) : Option Told :=
  match c.request with
  | peer :: delimiter :: version :: requestId :: rest =>
    some ⟨peer, delimiter, requestId, rule c.authenticate version rest⟩
  | _ => none

/-! ## How they are told -/

namespace Ruling

variable (r : Ruling)

def status : Bytes :=
  match r with
  | granted .. => ascii ['2', '0', '0']
  | refused => ascii ['4', '0', '0']
  | failed => ascii ['3', '0', '0']
  | unsupported => ascii ['5', '0', '0']

def reason : Bytes :=
  match r with
  | granted .. => ascii ['O', 'K']
  | refused => ascii "Invalid credentials".toList
  | failed => ascii "Temporary Error".toList
  | unsupported => ascii "Version number not valid".toList

def user : Bytes :=
  match r with
  | granted user _ => user
  | _ => []

def metadata : List (Bytes × Bytes) :=
  match r with
  | granted _ metadata => metadata
  | _ => []

/-- The ruling of a reply with these frames. -/
def read (status user metadata : Bytes) : Option Ruling :=
  if status = ascii ['2', '0', '0'] then (Zap.properties metadata).map (granted user)
  else if status = ascii ['4', '0', '0'] then some refused
  else if status = ascii ['3', '0', '0'] then some failed
  else if status = ascii ['5', '0', '0'] then some unsupported
  else none

end Ruling

namespace Told

variable (t : Told)

/-- The values of the metadata have their lengths in four bytes. -/
def Short : Prop := Zap.ShortValues t.ruling.metadata

/-- The reply which tells it. -/
def reply : List Bytes :=
  [t.peer, t.delimiter, Zap.version1, t.requestId, t.ruling.status, t.ruling.reason, t.ruling.user,
    t.ruling.metadata.flatMap Zap.encodePair]

end Told

/-- Receiving a reply, and reading it. -/
def readTold (inbox : List (Frame Bytes)) : Option (Told × List (Frame Bytes)) :=
  match recvLoop inbox none with
  | (.ok (.array [peer, delimiter, version, requestId, status, _, user, metadata]), rest) =>
    if version = Zap.version1 then
      (Ruling.read status user metadata).map fun r => (⟨peer, delimiter, requestId, r⟩, rest)
    else none
  | _ => none

namespace Zap

variable {z z' : Zap} {c : Call} {calls : List Call} {t : Told} {a b v r : Bytes}
  {l : List Bytes} {reply : Reply} {authenticate : Authenticate} {rest : List (Frame Bytes)}
  {crash : Err → Except Err Unit} {metadata : Value} {m : Bytes} {e : Err}

theorem short_of_properties {l : List (Bytes × Bytes)} (h : properties m = some l) :
    ShortValues l :=
  forall_of_readAll (fun _ _ _ => readProperty_lt) h

/-- Metadata that is read has short values. -/
theorem short_of_read {status user : Bytes} {r : Ruling} (h : Ruling.read status user m = some r) :
    ShortValues r.metadata := by
  have hnil : ShortValues [] := fun _ hp => absurd hp List.not_mem_nil
  rw [Ruling.read] at h
  split at h
  · obtain ⟨l, hl, rfl⟩ := Option.map_eq_some_iff.1 h
    exact short_of_properties hl
  · split at h
    · exact Option.some.inj h ▸ hnil
    · split at h
      · exact Option.some.inj h ▸ hnil
      · obtain ⟨-, h⟩ := Option.ite_none_right_eq_some.1 h
        exact Option.some.inj h ▸ hnil

theorem short_of_readTold {inbox : List (Frame Bytes)} (h : readTold inbox = some (t, rest)) :
    t.Short := by
  rw [readTold] at h
  split at h
  · obtain ⟨-, h⟩ := Option.ite_none_right_eq_some.1 h
    obtain ⟨r, hr, heq⟩ := Option.map_eq_some_iff.1 h
    obtain ⟨rfl, -⟩ := Prod.mk.inj heq
    exact short_of_read hr
  · exact absurd h (by simp)

theorem read_status {r : Ruling} (hkeys : ShortKeys r.metadata) (hvalues : ShortValues r.metadata) :
    Ruling.read r.status r.user (r.metadata.flatMap encodePair) = some r := by
  cases r with
  | granted user l =>
    have hread := (properties_flatMap_iff hkeys).2 hvalues
    exact (if_pos rfl).trans (Option.map_eq_some_iff.2 ⟨l, hread, rfl⟩)
  | refused => rfl
  | failed => rfl
  | unsupported => rfl

/-- A reply is read as what it tells, whatever follows on it. -/
theorem readTold_reply (hkeys : ShortKeys t.ruling.metadata) (hvalues : t.Short) :
    readTold (frames t.reply ++ rest) = some (t, rest) := by
  rw [readTold, @recvLoop_frames t.reply (List.cons_ne_nil _ _) rest]
  simp only [Received.ofMessage, Told.reply, if_true, read_status hkeys hvalues, Option.map_some]

/-! ## One call -/

theorem metadataFrame_strings (h : metadataFrame metadata = .ok m) :
    m = metadata.strings.flatMap encodePair ∧ ShortKeys metadata.strings := by
  have hencodable := metadataFrame_eq_ok.1 ⟨m, h⟩
  rw [metadataFrame] at h
  rw [Value.strings]
  cases heach : metadata.each with
  | none =>
    rw [heach] at h
    exact ⟨(Except.ok.inj h).symm, fun _ hp => absurd hp List.not_mem_nil⟩
  | some pairs =>
    obtain ⟨hpairs, hdone⟩ := hencodable pairs heach
    simp only [heach] at h ⊢
    generalize hl : (pairs.pairs.map fun p => (p.1.toOption.getD [], p.2.toOption.getD [])) = l
    -- All the pairs are strings: the iteration is that over these strings.
    have heq : (Each.strings l).pairs = pairs.pairs := by
      rw [Each.strings, ← hl, List.map_map]
      refine List.map_congr_left (fun p hp => ?_) |>.trans (List.map_id _)
      obtain ⟨key, value, rfl, -⟩ := hpairs p hp
      rfl
    have hkeys : ShortKeys l := by
      rw [← hl]
      refine List.forall_mem_map.2 fun p hp => ?_
      obtain ⟨key, value, rfl, hkey⟩ := hpairs p hp
      exact hkey
    rw [encodeMeta, ← heq, encodePairs_strings hkeys, hdone] at h
    exact ⟨(Except.ok.inj h).symm, hkeys⟩

/-- The reply tells the ruling, given the version of the request. -/
structure Reply.Tells (reply : Reply) (v : Bytes) (r : Ruling) : Prop where
  version : reply.version = .msg 2 ∧ version1 = v ∨ reply.version = .value (.str version1)
  status : ascii (Nat.toDigits 10 reply.statusCode) = r.status
  reason : reply.reason = r.reason
  user : reply.user.toStr = .ok r.user
  metadata : metadataFrame reply.metadata = .ok (r.metadata.flatMap encodePair)
  shortKeys : ShortKeys r.metadata

theorem shortKeys_nil : ShortKeys [] := fun _ hp => absurd hp List.not_mem_nil

/-- What is decided tells the ruling, if it can be sent. -/
theorem tells_of_judge (h : judge authenticate v l = .ok reply)
    (hs : Sendable crash (.ok reply)) : reply.Tells v (rule authenticate v l) := by
  obtain ⟨⟨u, hu⟩, m, hm⟩ := hs
  rw [judge] at h
  rw [rule.eq_def]
  by_cases hv : v = version1
  · rw [if_pos hv] at h ⊢
    rcases l with _ | ⟨domain, _ | ⟨address, _ | ⟨identity, _ | ⟨mechanism, cs⟩⟩⟩⟩
    iterate 4 exact absurd h (by simp [toStr, bind, Except.bind])
    simp only [List.getElem?_cons_zero, List.getElem?_cons_succ, List.drop_succ_cons,
      List.drop_zero, toStr, bind, Except.bind] at h
    cases hret : authenticate domain address identity mechanism cs with
    | error e => exact absurd h (by simp [hret])
    | ok ret =>
      simp only [hret] at h ⊢
      cases ht : ret.user.truthy
      · rw [ht, if_neg Bool.false_ne_true] at h
        rw [if_neg Bool.false_ne_true]
        obtain rfl := Except.ok.inj h
        exact ⟨Or.inl ⟨rfl, hv.symm⟩, rfl, rfl, rfl, rfl, shortKeys_nil⟩
      · rw [ht, if_pos rfl] at h
        rw [if_pos rfl]
        obtain rfl := Except.ok.inj h
        obtain ⟨rfl, hkeys⟩ := metadataFrame_strings hm
        have hstatus : ascii (Nat.toDigits 10 200) = ascii ['2', '0', '0'] := rfl
        have hstring : ret.user.toStr = .ok ret.user.string := by
          rw [Value.string, show ret.user.toStr = .ok u from hu]
          rfl
        exact ⟨Or.inl ⟨rfl, hv.symm⟩, hstatus, rfl, hstring, hm, hkeys⟩
  · rw [if_neg hv] at h ⊢
    obtain rfl := Except.ok.inj h
    exact ⟨Or.inr rfl, rfl, rfl, rfl, rfl, shortKeys_nil⟩

/-- Where nothing is decided, the ruling says so. -/
theorem rule_of_judge_error (h : judge authenticate v l = .error e) :
    rule authenticate v l = .failed ∧ v = version1 := by
  rw [judge] at h
  rw [rule.eq_def]
  by_cases hv : v = version1
  · rw [if_pos hv] at h ⊢
    refine ⟨?_, hv⟩
    rcases l with _ | ⟨domain, _ | ⟨address, _ | ⟨identity, _ | ⟨mechanism, cs⟩⟩⟩⟩
    iterate 4 exact rfl
    simp only [List.getElem?_cons_zero, List.getElem?_cons_succ, List.drop_succ_cons,
      List.drop_zero, toStr, bind, Except.bind] at h
    cases hret : authenticate domain address identity mechanism cs with
    | error e => simp only [hret]
    | ok ret =>
      simp only [hret] at h
      split at h <;> exact absurd h (by simp [pure, Except.pure])
  · rw [if_neg hv] at h
    exact absurd h (by simp [pure, Except.pure])

theorem sendable_of_answerable (hreq : c.request = a :: b :: v :: r :: l) (hc : c.Answerable) :
    Sendable c.crash (judge c.authenticate v l) := by
  rw [Call.Answerable, hreq] at hc
  by_cases hv : v = version1
  · rw [hv, sendable_judge_iff]
    exact hc hv
  · exact sendable_judge_of_ne hv

/-- A call which can be answered tells the ruling on its request. -/
theorem handleZap_told (hz : Idle z) (hc : c.Answerable) (ht : c.told = some t) :
    ShortKeys t.ruling.metadata ∧
      (handleZap c.authenticate c.crash (z.arrive c.request)).2.router =
        { inbox := [], out := (frames t.reply).foldl Pipe.write z.router.out, faults := [] } := by
  rw [Call.told] at ht
  split at ht
  · rename_i a b v r l hreq
    obtain rfl := Option.some.inj ht
    have hfaults : (z.received c.request).router.faults = [] := hz.faults
    have hmsgs : (z.received c.request).msgs = a :: b :: v :: r :: l := hreq
    have hanswer := @answer_eq _ _ _ _ _ _ c.authenticate hmsgs
    have hsend := sendable_of_answerable hreq hc
    rw [handleZap_eq hz.inbox (by simp [hreq])]
    cases hjudge : judge c.authenticate v l with
    | error e =>
      rw [hjudge] at hanswer hsend
      obtain ⟨hrule, rfl⟩ := rule_of_judge_error hjudge
      obtain ⟨msgs, hreply⟩ := @sendReply_complete (z.received c.request) a b version1 r l 300
        (ascii "Temporary Error".toList) .nil .nil (.msg 2) version1 [] [] hfaults hmsgs
        (Or.inl ⟨rfl, rfl⟩) rfl rfl
      rw [hrule, Effect.rescue_error hanswer, rescued_long hsend hmsgs, hreply]
      refine ⟨shortKeys_nil, ?_⟩
      rw [← hz.faults]
      rfl
    | ok reply =>
      rw [hjudge] at hanswer hsend
      obtain ⟨hversion, hstatus, hreason, huser, hmeta, hkeys⟩ := tells_of_judge hjudge hsend
      obtain ⟨msgs, hreply⟩ := sendReply_complete hfaults hmsgs hversion huser hmeta
      rw [Effect.rescue_ok (hanswer.trans hreply), hstatus, hreason]
      refine ⟨hkeys, ?_⟩
      rw [← hz.faults]
      rfl
  · exact absurd ht (by simp)

/-! ## Runs -/

/-- A call which cannot be replied to writes nothing. -/
theorem handleZap_untold (hz : Idle z) (hc : c.Answerable) (ht : c.told = none) :
    (handleZap c.authenticate c.crash (z.arrive c.request)).2.router =
      { inbox := [], out := z.router.out, faults := [] } := by
  match hreq : c.request with
  | [] | [_] => exact absurd c.two_le (by simp [hreq])
  | [_, _] => exact hreq ▸ handleZap_two hz hreq
  | [_, _, v] =>
    have hv : v = version1 := by rwa [Call.Answerable, hreq] at hc
    have hrouter := handleZap_three hz hreq
    rw [if_pos hv, hreq] at hrouter
    exact hrouter
  | _ :: _ :: _ :: _ :: _ => exact absurd ht (by simp [Call.told, hreq])

/-- The replies which tell the rulings. -/
def tellAll (l : List Told) : List (Frame Bytes) := l.flatMap fun t => frames t.reply

/-- A call tells the ruling on its request, if it can be replied to. -/
theorem step_told (hz : Idle z) (hc : c.Answerable) (h : zap.step z c = some z') :
    Idle z' ∧ (∀ t ∈ c.told, ShortKeys t.ruling.metadata) ∧
      z'.router.out.flushed = z.router.out.flushed ++ tellAll c.told.toList := by
  have hz' := Option.some.inj h
  cases ht : c.told with
  | none =>
    have hrouter := handleZap_untold hz hc ht
    rw [hz'] at hrouter
    refine ⟨⟨by rw [hrouter], by rw [hrouter], by rw [hrouter]; exact hz.atBoundary⟩, by simp, ?_⟩
    rw [hrouter]
    exact (List.append_nil _).symm
  | some t =>
    obtain ⟨hkeys, hrouter⟩ := handleZap_told hz hc ht
    rw [hz', @Pipe.foldl_write_frames _ _ t.reply (List.cons_ne_nil _ _), hz.atBoundary] at hrouter
    refine ⟨⟨by rw [hrouter], by rw [hrouter], by rw [hrouter]; rfl⟩, by simpa using hkeys, ?_⟩
    rw [hrouter]
    simp [tellAll]

/-- The calls of a run tell the rulings on their requests, in order. -/
theorem run_told (hz : Idle z) (hc : ∀ c ∈ calls, c.Answerable) (h : zap.run z calls = some z') :
    Idle z' ∧ (∀ t ∈ calls.filterMap Call.told, ShortKeys t.ruling.metadata) ∧
      z'.router.out.flushed = z.router.out.flushed ++ tellAll (calls.filterMap Call.told) := by
  induction calls generalizing z with
  | nil =>
    obtain rfl := Option.some.inj h
    exact ⟨hz, by simp, by simp [tellAll]⟩
  | cons c calls ih =>
    obtain ⟨z₁, hstep, hrun⟩ := Option.bind_eq_some_iff.1 h
    obtain ⟨hc, hcalls⟩ := List.forall_mem_cons.1 hc
    obtain ⟨hz₁, hkeys, hout⟩ := step_told hz hc hstep
    obtain ⟨hz', hkeys', hout'⟩ := ih hz₁ hcalls hrun
    have hcons : (c :: calls).filterMap Call.told = c.told.toList ++ calls.filterMap Call.told := by
      cases ht : c.told <;> simp [ht]
    rw [hcons]
    refine ⟨hz', ?_, ?_⟩
    · intro t ht
      rcases List.mem_append.1 ht with ht | ht
      · exact hkeys t (by simpa using ht)
      · exact hkeys' t ht
    · rw [hout', hout, tellAll, tellAll, tellAll, List.flatMap_append, List.append_assoc]

/-- The replies are read as what they tell exactly if the metadata has short
    values. -/
theorem readAll_tellAll_iff {l : List Told} (h : ∀ t ∈ l, ShortKeys t.ruling.metadata) :
    readAll readTold (tellAll l) = some l ↔ ∀ t ∈ l, t.Short := by
  constructor
  · exact forall_of_readAll fun _ _ _ => short_of_readTold
  · intro hshort
    refine readAll_flatMap (fun t _ => ?_) fun t ht rest => readTold_reply (h t ht) (hshort t ht)
    exact List.ne_nil_of_length_pos (by simp [Told.reply])

/-- In every run of calls which can be answered, the Router is left between
    messages, and what it has sent is read as the rulings on the requests, told
    to the peers that made them and in the order of the requests, exactly if
    the metadata that is granted has values shorter than `2 ^ 32` bytes. -/
theorem told_iff_short (hc : ∀ c ∈ calls, c.Answerable) (h : zap.run {} calls = some z) :
    z.router.out.AtBoundary ∧
      (readAll readTold z.router.out.flushed = some (calls.filterMap Call.told) ↔
        ∀ t ∈ calls.filterMap Call.told, t.Short) := by
  obtain ⟨hz, hkeys, hout⟩ := run_told idle_empty hc h
  rw [hout]
  exact ⟨hz.atBoundary, readAll_tellAll_iff hkeys⟩

/-- A request which asks nothing. -/
def asksNothing : Call where
  request := [[3], [], version1, [8]]
  two_le := by decide
  authenticate _ _ _ _ _ := .ok (.value .nil)
  crash _ := .ok ()

/-- One peer is granted access, with a property, and the other one is told that
    its request failed. -/
theorem told_iff_short_two :
    let property : Value := { toStr := .ok [], each := some (.strings [([107], [1, 2])]) }
    let calls := [accepted property, asksNothing]
    (∀ c ∈ calls, c.Answerable) ∧ ∃ z, zap.run {} calls = some z ∧
      readAll readTold z.router.out.flushed =
        some [⟨[2], [], [7], .granted [97] [([107], [1, 2])]⟩, ⟨[3], [], [8], .failed⟩] := by
  intro property calls
  have hencodable : Encodable (.strings [([107], [1, 2])]) :=
    ⟨List.forall_mem_singleton.2 ⟨[107], [1, 2], rfl, by decide⟩, rfl⟩
  have hc : ∀ c ∈ calls, c.Answerable := by
    refine List.forall_mem_cons.2 ⟨fun _ _ => ⟨⟨_, rfl⟩, fun pairs heq => ?_⟩,
      List.forall_mem_singleton.2 fun _ => rfl⟩
    exact Option.some.inj heq ▸ hencodable
  refine ⟨hc, _, rfl, ((told_iff_short hc rfl).2.2 ?_)⟩
  refine List.forall_mem_cons.2 ⟨List.forall_mem_singleton.2 (by decide), ?_⟩
  exact List.forall_mem_singleton.2 fun _ hp => absurd hp List.not_mem_nil

end Zap

end MrubyZmq
