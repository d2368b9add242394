import MrubyZmq.Simulation
import MrubyZmq.Zap.Server

/-!
# The peers of a Zap

Several peers ask over the Router of a Zap. The Router puts the identity of the
peer in front of a request it receives; of a message sent on it, the first frame
is such an identity, and that peer is sent the other frames. Requests and
replies may be under way for any time.

If the calls of `handle_zap` can be answered, each peer is told the rulings on
its own requests, in the order in which it made them, and nothing else, however
the requests of the peers and the replies interleave (`answered_of_along`).
-/

namespace MrubyZmq

/-- A request, as a peer sends it. -/
structure Request where
  message : List Bytes
  ne_nil : message ≠ []

/-- A Zap with its peers, which are known by their identities. -/
structure Peers where
  zap : Zap := {}
  /-- The requests which the Router has not received. -/
  asking : Bytes → List Request := fun _ => []
  /-- What the peers have been sent. -/
  inbox : Bytes → List (Frame Bytes) := fun _ => []

inductive PeerOp
  | ask (peer : Bytes) (request : Request)
  /-- The next request of a peer is handled. -/
  | handle (peer : Bytes) (authenticate : Authenticate) (crash : Err → Except Err Unit)
  /-- The Router delivers the next message that has been sent on it. -/
  | deliver

namespace Peers

variable (s : Peers)

def ask (peer : Bytes) (request : Request) : Peers :=
  { s with asking := Function.update s.asking peer (s.asking peer ++ [request]) }

def handle (peer : Bytes) (authenticate : Authenticate) (crash : Err → Except Err Unit) :
    Option Peers :=
  match s.asking peer with
  | [] => none
  | request :: asking =>
    some { s with
      zap := (Zap.handleZap authenticate crash (s.zap.arrive (peer :: request.message))).2
      asking := Function.update s.asking peer asking }

/-- What has been sent on the Router, and has not been delivered. -/
def sent : List (Frame Bytes) := s.zap.router.out.flushed

def setSent (sent : List (Frame Bytes)) : Peers :=
  { s with zap.router.out.flushed := sent }

def deliver : Option Peers :=
  match recvLoop s.sent none with
  | (.ok (.array (peer :: message)), rest) =>
    some { s.setSent rest with
      inbox := Function.update s.inbox peer (s.inbox peer ++ frames message) }
  | (.ok (.msg _), rest) => some (s.setSent rest)
  | _ => none

end Peers

/-- The peers and the Zap, in any order. -/
def peers : Machine Peers PeerOp where
  step s
    | .ask peer request => some (s.ask peer request)
    | .handle peer authenticate crash => s.handle peer authenticate crash
    | .deliver => s.deliver

/-! ## What should be told -/

/-- The call of `handle_zap` by which a request is handled. -/
def Request.call (request : Request) (peer : Bytes) (authenticate : Authenticate)
    (crash : Err → Except Err Unit) : Zap.Call where
  request := peer :: request.message
  two_le := Nat.succ_le_succ (List.length_pos_of_ne_nil request.ne_nil)
  authenticate
  crash

/-- The requests that have been made, and the calls of `handle_zap`. -/
structure Minutes where
  asked : Bytes → List Request := fun _ => []
  calls : List Zap.Call := []

/-- The requests of a peer that have been handled. -/
def Minutes.handled (m : Minutes) (peer : Bytes) : List (List Bytes) :=
  (m.calls.filter (·.request.head? = some peer)).map (·.request.tail)

/-- The rulings on the requests of a peer. -/
def Minutes.rulings (m : Minutes) (peer : Bytes) : List Told :=
  (m.calls.filterMap Zap.Call.told).filter (·.peer = peer)

/-- A peer receives a reply, and reads it. -/
def readAnswer (peer : Bytes) (inbox : List (Frame Bytes)) : Option (Told × List (Frame Bytes)) :=
  match recvLoop inbox none with
  | (.ok (.array [delimiter, version, requestId, status, _, user, metadata]), rest) =>
    if version = Zap.version1 then
      (Ruling.read status user metadata).map fun r => (⟨peer, delimiter, requestId, r⟩, rest)
    else none
  | _ => none

namespace Peers

/-- The minutes of all that happens. -/
def note (s : Peers) : PeerOp → Minutes → Minutes
  | .ask peer request, m =>
    { m with asked := Function.update m.asked peer (m.asked peer ++ [request]) }
  | .handle peer authenticate crash, m =>
    { m with calls := m.calls ++
      (s.asking peer).head?.toList.map fun request => request.call peer authenticate crash }
  | .deliver, m => m

/-- A request is handled only if it can be answered, with values of the metadata
    that are short. -/
def Careful (s : Peers) : PeerOp → Prop
  | .handle peer authenticate crash => ∀ request ∈ (s.asking peer).head?,
    (request.call peer authenticate crash).Answerable ∧
      ∀ t ∈ (request.call peer authenticate crash).told, t.Short
  | .ask .. | .deliver => True

/-- The requests of a peer are those handled, in order, and those it is still
    asking. The rulings on them are those it has been told, and some which it is
    told once all is delivered; and what has been sent can be delivered. -/
structure Answered (x : Peers × Minutes) : Prop where
  asked : ∀ peer, (x.2.asked peer).map (·.message) =
    x.2.handled peer ++ (x.1.asking peer).map (·.message)
  told : ∀ peer, ∃ told waiting, x.2.rulings peer = told ++ waiting ∧
    readAll (readAnswer peer) (x.1.inbox peer) = some told ∧ (x.1.sent = [] → waiting = [])
  deliver : x.1.sent ≠ [] → x.1.deliver.isSome

/-- The rulings `told` have been delivered, those `waiting` have not. -/
structure Serving (x : Peers × Minutes) (told : Bytes → List Told) (waiting : List Told) :
    Prop where
  idle : Zap.Idle x.1.zap
  asked : ∀ peer, (x.2.asked peer).map (·.message) =
    x.2.handled peer ++ (x.1.asking peer).map (·.message)
  rulings : ∀ peer, x.2.rulings peer = told peer ++ waiting.filter (·.peer = peer)
  short : ∀ t ∈ x.2.calls.filterMap Zap.Call.told, Zap.ShortKeys t.ruling.metadata ∧ t.Short
  sent : x.1.sent = Zap.tellAll waiting
  inbox : ∀ peer, x.1.inbox peer = (told peer).flatMap fun t => frames t.reply.tail

end Peers

/-! ## Replies -/

variable {t : Told} {rest : List (Frame Bytes)} {m : Minutes} {c : Zap.Call} {peer : Bytes}

/-- The peer of a reply reads what it tells, whatever follows on it. -/
theorem readAnswer_reply (hkeys : Zap.ShortKeys t.ruling.metadata) (hvalues : t.Short) :
    readAnswer t.peer (frames t.reply.tail ++ rest) = some (t, rest) := by
  rw [readAnswer, @recvLoop_frames t.reply.tail (List.cons_ne_nil _ _) rest]
  simp only [Received.ofMessage, Told.reply, List.tail_cons, if_true,
    Zap.read_status hkeys hvalues, Option.map_some]

theorem tellAll_eq_nil {l : List Told} (h : Zap.tellAll l = []) : l = [] := by
  cases l with
  | nil => rfl
  | cons t l => exact absurd h (by simp [Zap.tellAll, Told.reply, frames])

namespace Minutes

theorem handled_concat : handled { m with calls := m.calls ++ [c] } peer =
    m.handled peer ++ if c.request.head? = some peer then [c.request.tail] else [] := by
  rw [handled, List.filter_append, List.map_append]
  by_cases h : c.request.head? = some peer <;> simp [h, handled]

theorem rulings_concat : rulings { m with calls := m.calls ++ [c] } peer =
    m.rulings peer ++ c.told.toList.filter (·.peer = peer) := by
  rw [rulings, List.filterMap_append, List.filter_append]
  cases ht : c.told <;> simp [ht, rulings]

end Minutes

namespace Peers

variable {x : Peers × Minutes} {s' : Peers} {told : Bytes → List Told} {waiting : List Told}
  {authenticate : Authenticate} {crash : Err → Except Err Unit} {request : Request}

/-! ## What a step does -/

theorem Serving.ask (h : Serving x told waiting) :
    Serving (x.1.ask peer request, x.1.note (.ask peer request) x.2) told waiting := by
  refine ⟨h.idle, fun p => ?_, h.rulings, h.short, h.sent, h.inbox⟩
  by_cases hp : p = peer
  · subst hp
    simp only [Peers.ask, note, Function.update_self, List.map_append]
    rw [h.asked p, List.append_assoc]
    rfl
  · simp only [Peers.ask, note, Function.update_of_ne hp]
    exact h.asked p

/-- The ruling on a request is waiting to be delivered. -/
theorem Serving.handle (h : Serving x told waiting)
    (hstep : x.1.handle peer authenticate crash = some s')
    (hcareful : x.1.Careful (.handle peer authenticate crash)) :
    ∃ waiting', Serving (s', x.1.note (.handle peer authenticate crash) x.2) told waiting' := by
  rw [Peers.handle] at hstep
  split at hstep
  · exact absurd hstep (by simp)
  rename_i request asking hasking
  obtain rfl := Option.some.inj hstep
  have hhead : (x.1.asking peer).head? = some request := by rw [hasking]; rfl
  obtain ⟨hanswerable, hshort⟩ := hcareful request hhead
  have hcall : Zap.zap.step x.1.zap (request.call peer authenticate crash) =
      some (Zap.handleZap authenticate crash (x.1.zap.arrive (peer :: request.message))).2 := rfl
  obtain ⟨hidle, hkeys, hsent⟩ := Zap.step_told h.idle hanswerable hcall
  have hnote : x.1.note (.handle peer authenticate crash) x.2 =
      { x.2 with calls := x.2.calls ++ [request.call peer authenticate crash] } := by
    rw [note, hhead]
    rfl
  rw [hnote]
  -- A request of less than three frames is handled, but there is no ruling on it.
  refine ⟨waiting ++ (request.call peer authenticate crash).told.toList, hidle, fun p => ?_,
    fun p => ?_, fun t ht => ?_, hsent.trans ?_, h.inbox⟩
  · rw [Minutes.handled_concat]
    by_cases hp : p = peer
    · -- The request handled is the first one this peer was asking.
      subst hp
      simp only [Function.update_self]
      rw [h.asked p, hasking]
      simp [Request.call]
    · have hne : ¬(request.call peer authenticate crash).request.head? = some p := fun heq =>
        hp (Option.some.inj heq).symm
      simp only [Function.update_of_ne hp, if_neg hne, List.append_nil]
      exact h.asked p
  · rw [Minutes.rulings_concat, h.rulings p, List.filter_append, List.append_assoc]
  · rw [List.filterMap_append] at ht
    rcases List.mem_append.1 ht with ht | ht
    · exact h.short t ht
    · have ht : t ∈ (request.call peer authenticate crash).told := by simpa using ht
      exact ⟨hkeys t ht, hshort t ht⟩
  · rw [show x.1.zap.router.out.flushed = _ from h.sent, Zap.tellAll, Zap.tellAll, Zap.tellAll,
      List.flatMap_append]

/-- The first ruling which is waiting is told to its peer. -/
theorem Serving.deliver (h : Serving x told waiting) (hstep : x.1.deliver = some s') :
    ∃ told' waiting', Serving (s', x.1.note .deliver x.2) told' waiting' := by
  rw [Peers.deliver, h.sent] at hstep
  cases waiting with
  | nil => exact absurd hstep (by simp [Zap.tellAll, recvLoop])
  | cons t waiting =>
    rw [Zap.tellAll, List.flatMap_cons, @recvLoop_frames t.reply (List.cons_ne_nil _ _)] at hstep
    obtain rfl := Option.some.inj hstep
    -- The next message is the reply for the first ruling, with its peer in front.
    refine ⟨Function.update told t.peer (told t.peer ++ [t]), waiting,
      ⟨h.idle.inbox, h.idle.faults, h.idle.atBoundary⟩, h.asked, fun p => ?_, h.short, rfl,
      fun p => ?_⟩
    · by_cases hp : p = t.peer
      · subst hp
        rw [Function.update_self, List.append_assoc]
        exact (h.rulings t.peer).trans (by simp)
      · rw [Function.update_of_ne hp]
        exact (h.rulings p).trans (by simp [Ne.symm hp])
    · by_cases hp : p = t.peer
      · subst hp
        simp only [Function.update_self, List.flatMap_append]
        rw [h.inbox t.peer]
        simp [Told.reply]
      · simp only [Function.update_of_ne hp]
        exact h.inbox p

theorem Serving.step {op : PeerOp} (h : Serving x told waiting)
    (hstep : peers.step x.1 op = some s') (hop : x.1.Careful op) :
    ∃ told' waiting', Serving (s', x.1.note op x.2) told' waiting' := by
  cases op with
  | ask peer request => exact Option.some.inj hstep ▸ ⟨told, waiting, h.ask⟩
  | handle peer authenticate crash => exact ⟨told, h.handle hstep hop⟩
  | deliver => exact h.deliver hstep

theorem serving_empty : Serving ({}, {}) (fun _ => []) [] where
  idle := Zap.idle_empty
  asked _ := rfl
  rulings _ := rfl
  short _ h := absurd h List.not_mem_nil
  sent := rfl
  inbox _ := rfl

/-- The peers read the rulings which have been delivered. -/
theorem Serving.answered (h : Serving x told waiting) : Answered x := by
  refine ⟨h.asked, fun peer => ⟨told peer, waiting.filter (·.peer = peer), h.rulings peer, ?_,
    fun hsent => ?_⟩, fun hsent => ?_⟩
  · rw [h.inbox peer]
    have hmem : ∀ t ∈ told peer, t ∈ x.2.rulings peer := fun t ht =>
      h.rulings peer ▸ List.mem_append_left _ ht
    refine readAll_flatMap (fun t _ => ?_) fun t ht rest => ?_
    · exact List.ne_nil_of_length_pos (by simp [Told.reply])
    · obtain ⟨hcalls, hpeer⟩ := List.mem_filter.1 (hmem t ht)
      obtain rfl : t.peer = peer := of_decide_eq_true hpeer
      obtain ⟨hkeys, hvalues⟩ := h.short t hcalls
      exact readAnswer_reply hkeys hvalues
  · rw [tellAll_eq_nil (h.sent.symm.trans hsent), List.filter_nil]
  · cases waiting with
    | nil => exact absurd h.sent hsent
    | cons t waiting =>
      rw [Peers.deliver, h.sent, Zap.tellAll, List.flatMap_cons,
        @recvLoop_frames t.reply (List.cons_ne_nil _ _)]
      rfl

end Peers

open Peers

/-- In every run in which requests are handled that can be answered, every peer
    is told the rulings on its own requests, in order, and nothing else. -/
theorem answered_of_along {ops : List PeerOp} (h : peers.Along Careful {} ops) :
    (peers.observed note).Always Answered ({}, {}) ops := by
  refine ⟨serving_empty.answered, (Machine.along_observed h).imp
    (I := fun x => ∃ told waiting, Serving x told waiting) ⟨_, _, serving_empty⟩ ?_⟩
  rintro x op ⟨s', m'⟩ ⟨told, waiting, hx⟩ hstep hop
  obtain ⟨hstep, rfl⟩ := Machine.step_observed hstep
  obtain ⟨told', waiting', hx'⟩ := hx.step hstep hop
  exact ⟨⟨told', waiting', hx'⟩, hx'.answered⟩

/-- An authenticator which knows one user only. -/
def oneUser : Authenticate := fun _ _ identity _ _ =>
  .ok (.value (if identity = [1] then .str [97] else .nil))

/-- Two peers ask, and the one that has asked last is told first. -/
theorem answered_of_along_two :
    let request (id identity : Bytes) : Request :=
      ⟨[[], Zap.version1, id, [], [], identity, [], []], List.cons_ne_nil _ _⟩
    let ops : List PeerOp := [.ask [1] (request [7] [1]), .ask [2] (request [8] [2]),
      .handle [2] oneUser fun _ => .ok (), .handle [1] oneUser fun _ => .ok (), .deliver]
    (peers.observed note).Always Answered ({}, {}) ops ∧
    (peers.run {} ops).map (fun s =>
      (readAll (readAnswer [1]) (s.inbox [1]), readAll (readAnswer [2]) (s.inbox [2]))) =
        some (some [], some [⟨[2], [], [8], .refused⟩]) := by
  intro request ops
  have hgranted : Zap.Replied oneUser (fun _ => .ok ()) [[], [], [1], [], []] := fun _ =>
    ⟨⟨[97], rfl⟩, fun _ heach => absurd heach (by simp [Ret.metadata, Value.nil])⟩
  have hrefused : Zap.Replied oneUser (fun _ => .ok ()) [[], [], [2], [], []] := fun htruthy =>
    absurd htruthy Bool.false_ne_true
  refine ⟨answered_of_along ?_, rfl⟩
  intro s₁ h₁
  obtain rfl := Option.some.inj h₁
  refine ⟨trivial, fun s₂ h₂ => ⟨trivial, ?_⟩⟩
  obtain rfl := Option.some.inj h₂
  intro s₃ h₃
  obtain rfl := Option.some.inj h₃
  refine ⟨fun r hr => ?_, fun s₄ h₄ => ⟨fun r hr => ?_, fun _ _ => ⟨trivial, trivial⟩⟩⟩
  · obtain rfl := Option.some.inj hr
    refine ⟨fun _ => hrefused, fun t ht => ?_⟩
    obtain rfl := Option.some.inj ht
    exact fun _ hp => absurd hp List.not_mem_nil
  · obtain rfl := Option.some.inj h₄
    obtain rfl := Option.some.inj hr
    refine ⟨fun _ => hgranted, fun t ht => ?_⟩
    obtain rfl := Option.some.inj ht
    exact fun _ hp => absurd hp List.not_mem_nil

end MrubyZmq
