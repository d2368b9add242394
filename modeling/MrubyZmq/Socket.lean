import Mathlib.Data.Int.Bitwise
import MrubyZmq.Multipart
import MrubyZmq.Ruby

/-!
# Sending and receiving

`LibZMQ.send`, `ZMQ::Socket#send` and `ZMQ::Socket#recv` on the state of a
libzmq socket: the frames it can receive and the pipe it sends into. A call of
`zmq_send` or `zmq_msg_send` may fail, and then writes nothing (`Sock.faults`).

`Socket#send` of an array writes its elements as the frames of one message,
the flags of the call applying to the last one (`sendLoop_contents`), and
`Socket#recv` collects frames until one is not followed by more
(`recvLoop_frames`).
-/

namespace MrubyZmq

/-- `LibZMQ::SNDMORE`. -/
def SNDMORE : ℤ := 2

/-- The flags tell libzmq that more frames of the message follow. -/
def sndmore (flags : ℤ) : Bool := flags.testBit 1

/-- A libzmq socket. -/
structure Sock where
  /-- The frames to be received. -/
  inbox : List (Frame Bytes) := []
  out : Pipe Bytes := {}
  /-- Which of the next calls sending a frame fail. -/
  faults : List Bool := []

/-- `zmq_send` and `zmq_msg_send`. -/
def zmqSend (func : String) (data : Bytes) (flags : ℤ) : Effect Err Sock Unit := fun s =>
  if s.faults.headD false then (.error (.libzmq func), { s with faults := s.faults.tail })
  else (.ok (), { s with out := s.out.write ⟨data, sndmore flags⟩, faults := s.faults.tail })

/-- `LibZMQ.send`: `mrb_zmq_send`. -/
def libzmqSend (message : Value) (flags : ℤ) : Effect Err Sock ℕ := do
  assertInt flags
  let message ← Effect.ofExcept message.toStr
  zmqSend "zmq_send" message flags
  return message.length

/-- The argument of `ZMQ::Socket#send`. -/
inductive Data
  | array (elems : List Value)
  | other (value : Value)

/-- What the data is converted to, frame by frame. An empty array is sent as one
    empty frame: `data[0]` is `nil`. -/
def Data.contents : Data → List (Except Err Bytes)
  | array [] => [Value.nil.toStr]
  | array (v :: l) => (v :: l).map (·.toStr)
  | other v => [v.toStr]

/-- The loop of `ZMQ::Socket#send` from index `i`, when it is to go around
    another `n` times, and the call after it. -/
def sendLoop (data : List Value) (flags : ℤ) : (n i : ℕ) → Effect Err Sock ℕ
  | 0, i => libzmqSend (data.getD i .nil) (Int.lor 0 flags)
  | n + 1, i => do
    let _ ← libzmqSend (data.getD i .nil) (Int.lor SNDMORE flags)
    sendLoop data flags n (i + 1)

/-- `ZMQ::Socket#send`. -/
def socketSend (data : Data) (flags : ℤ) : Effect Err Sock Unit := do
  match data with
  | .array data =>
    let _ ← sendLoop data flags ((data.length : ℤ) - 1).toNat 0
  | .other data =>
    let _ ← libzmqSend data flags

/-- What `recv` returns: a `Msg`, or an `Array` of them. -/
inductive Received
  | msg (data : Bytes)
  | array (msgs : List Bytes)
  deriving DecidableEq, Repr

/-- The loop of `mrb_zmq_socket_recv`, which takes one frame after the other
    from the inbox, with the array it has pushed the frames before to, if any.
    No frame to be received is an error (`EAGAIN`). -/
def recvLoop : List (Frame Bytes) → Option (List Bytes) →
    Except Err Received × List (Frame Bytes)
  | [], _ => (.error (.libzmq "zmq_msg_recv"), [])
  | ⟨msg, true⟩ :: inbox, data => recvLoop inbox (some (data.getD [] ++ [msg]))
  | ⟨msg, false⟩ :: inbox, some data => (.ok (.array (data ++ [msg])), inbox)
  | ⟨msg, false⟩ :: inbox, none => (.ok (.msg msg), inbox)

/-- The loop, on the inbox of the socket. -/
def recvMsgs : Effect Err Sock Received := fun s =>
  ((recvLoop s.inbox none).1, { s with inbox := (recvLoop s.inbox none).2 })

/-- `ZMQ::Socket#recv`: `mrb_zmq_socket_recv`. -/
def socketRecv (flags : ℤ) : Effect Err Sock Received := do
  assertInt flags
  recvMsgs

/-! ## Flags -/

variable {flags : ℤ}

theorem fitsInt_SNDMORE : FitsInt SNDMORE := by decide

theorem fitsInt_zero : FitsInt 0 := by decide

@[simp] theorem sndmore_zero : sndmore 0 = false := rfl

@[simp] theorem sndmore_SNDMORE : sndmore SNDMORE = true := rfl

@[simp] theorem sndmore_or_SNDMORE (flags : ℤ) : sndmore (Int.lor SNDMORE flags) = true := by
  rw [sndmore, Int.testBit_lor]
  rfl

@[simp] theorem sndmore_zero_or (flags : ℤ) : sndmore (Int.lor 0 flags) = sndmore flags := by
  rw [sndmore, Int.testBit_lor, show Int.testBit 0 1 = false from rfl, Bool.false_or, sndmore]

theorem zero_lor (flags : ℤ) : Int.lor 0 flags = flags := by
  rcases flags with n | n
  · exact congrArg Int.ofNat (Nat.zero_or n)
  · exact congrArg Int.negSucc (by simp [Nat.ldiff])

/-- `SNDMORE` makes no difference to whether flags are a C `int`. -/
theorem fitsInt_or_SNDMORE : FitsInt (Int.lor SNDMORE flags) ↔ FitsInt flags := by
  -- `a` and `b` are the lowest bits of the flags, `m` is made of the others.
  obtain ⟨a, b, m, rfl⟩ : ∃ a b m, flags = Int.bit a (Int.bit b m) :=
    ⟨_, _, _, by rw [Int.bit_decomp, Int.bit_decomp]⟩
  have hor : Int.lor SNDMORE (Int.bit a (Int.bit b m)) = Int.bit a (Int.bit true m) := by
    rw [show SNDMORE = Int.bit false (Int.bit true 0) from rfl, Int.lor_bit, Int.lor_bit,
      Bool.false_or, Bool.true_or, zero_lor]
  rw [hor, FitsInt, FitsInt]
  cases a <;> cases b <;> simp only [Int.bit_val, cond_true, cond_false] <;> omega

/-! ## Sending -/

variable {s s' : Sock}

theorem zmqSend_of_ok {func : String} {data : Bytes}
    (h : zmqSend func data flags s = (.ok (), s')) :
    s'.out = s.out.write ⟨data, sndmore flags⟩ ∧ s'.inbox = s.inbox := by
  rw [zmqSend] at h
  split at h
  · simp at h
  · obtain rfl := (Prod.ext_iff.1 h).2
    exact ⟨rfl, rfl⟩

/-- A call of `LibZMQ.send` which returns has written one frame. -/
theorem libzmqSend_of_ok {message : Value} {n : ℕ}
    (h : libzmqSend message flags s = (.ok n, s')) :
    ∃ data, message.toStr = .ok data ∧ s'.out = s.out.write ⟨data, sndmore flags⟩ ∧
      s'.inbox = s.inbox := by
  obtain ⟨_, t, hfit, h₁⟩ := Effect.bind_eq_ok h
  obtain ⟨data, t', hdata, h₂⟩ := Effect.bind_eq_ok h₁
  obtain ⟨_, t'', hsend, h₃⟩ := Effect.bind_eq_ok h₂
  obtain rfl : s = t := by
    by_cases hf : FitsInt flags
    · rw [assertInt_of_fits hf] at hfit
      exact (Prod.ext_iff.1 hfit).2
    · simp [assertInt_of_not_fits hf] at hfit
  cases hm : message.toStr with
  | error e => simp [hm] at hdata
  | ok data' =>
    rw [hm] at hdata
    obtain ⟨hd, rfl⟩ : data' = data ∧ s = t' := by simpa using hdata
    obtain rfl : t'' = s' := (Prod.ext_iff.1 h₃).2
    exact ⟨data, by rw [hd], zmqSend_of_ok hsend⟩

/-- A call of `LibZMQ.send`, when no call of libzmq fails. -/
theorem libzmqSend_apply {message : Value} (hs : s.faults = [])
    (hf : FitsInt flags) :
    libzmqSend message flags s = match message.toStr with
      | .ok data => (.ok data.length, { s with out := s.out.write ⟨data, sndmore flags⟩ })
      | .error e => (.error e, s) := by
  rw [libzmqSend, assertInt_of_fits hf]
  obtain ⟨inbox, out, faults⟩ := s
  obtain rfl : faults = [] := hs
  cases h : message.toStr <;> rfl

/-- The frames of one call sending the payloads `l` with the flags. -/
def sendFrames (l : List Bytes) (flags : ℤ) : List (Frame Bytes) :=
  if sndmore flags then openFrames l else frames l

theorem sendFrames_singleton (a : Bytes) : sendFrames [a] flags = [⟨a, sndmore flags⟩] := by
  cases h : sndmore flags <;> simp [sendFrames, h, frames, openFrames]

theorem sendFrames_cons {a : Bytes} {l : List Bytes} (hl : l ≠ []) :
    sendFrames (a :: l) flags = ⟨a, true⟩ :: sendFrames l flags := by
  obtain ⟨b, l, rfl⟩ := List.exists_cons_of_ne_nil hl
  cases h : sndmore flags <;> simp [sendFrames, h, frames, openFrames]

/-- The loop, if it gets through, writes the elements from index `i` on. -/
theorem sendLoop_contents {data : List Value} {n i k : ℕ} (hn : i + n + 1 = data.length)
    (h : sendLoop data flags n i s = (.ok k, s')) :
    ∃ l, (data.drop i).map (·.toStr) = l.map .ok ∧
      s'.out = (sendFrames l flags).foldl Pipe.write s.out ∧ s'.inbox = s.inbox := by
  have hi : i < data.length := by omega
  have hget : data.getD i .nil = data[i] := by simp [hi]
  induction n generalizing s i with
  | zero =>
    rw [sendLoop, hget] at h
    obtain ⟨a, ha, hout, hin⟩ := libzmqSend_of_ok h
    refine ⟨[a], ?_, ?_, hin⟩
    · rw [List.drop_eq_getElem_cons hi, List.drop_eq_nil_of_le (by omega), List.map_singleton, ha,
        List.map_singleton]
    · rw [sendFrames_singleton]
      simpa using hout
  | succ n ih =>
    obtain ⟨_, t, hsend, hloop⟩ := Effect.bind_eq_ok h
    rw [hget] at hsend
    obtain ⟨a, ha, hout, hin⟩ := libzmqSend_of_ok hsend
    have hi' : i + 1 < data.length := by omega
    obtain ⟨l, hl, hout', hin'⟩ := ih (by omega) hloop hi' (by simp [hi'])
    -- An element is left, as `i` is not the last index.
    have hne : l ≠ [] := by
      rintro rfl
      have hlen := congrArg List.length hl
      simp only [List.length_map, List.length_drop, List.length_nil] at hlen
      omega
    refine ⟨a :: l, ?_, ?_, hin'.trans hin⟩
    · rw [List.drop_eq_getElem_cons hi, List.map_cons, ha, hl, List.map_cons]
    · rw [sendFrames_cons hne, List.foldl_cons, hout', hout, sndmore_or_SNDMORE]

/-- A send which returns has written the frames of its contents. -/
theorem socketSend_contents {data : Data} (h : socketSend data flags s = (.ok (), s')) :
    ∃ l, data.contents = l.map .ok ∧
      s'.out = (sendFrames l flags).foldl Pipe.write s.out ∧ s'.inbox = s.inbox := by
  match data with
  | .other v =>
    obtain ⟨_, t, hsend, hpure⟩ := Effect.bind_eq_ok h
    obtain rfl : t = s' := (Prod.ext_iff.1 hpure).2
    obtain ⟨a, ha, hout, hin⟩ := libzmqSend_of_ok hsend
    refine ⟨[a], congrArg ([·]) ha, ?_, hin⟩
    rw [sendFrames_singleton]
    exact hout
  | .array [] =>
    obtain ⟨_, t, hsend, hpure⟩ := Effect.bind_eq_ok h
    obtain rfl : t = s' := (Prod.ext_iff.1 hpure).2
    obtain ⟨a, ha, hout, hin⟩ := libzmqSend_of_ok hsend
    refine ⟨[a], congrArg ([·]) ha, ?_, hin⟩
    rw [sendFrames_singleton, ← sndmore_zero_or]
    exact hout
  | .array (v :: l) =>
    obtain ⟨_, t, hloop, hpure⟩ := Effect.bind_eq_ok h
    obtain rfl : t = s' := (Prod.ext_iff.1 hpure).2
    exact sendLoop_contents (by simp) hloop

/-! ## Receiving -/

/-- What `recv` makes of a message. -/
def Received.ofMessage : List Bytes → Received
  | [a] => .msg a
  | l => .array l

theorem recvLoop_array (m data : List Bytes) (hm : m ≠ []) (rest : List (Frame Bytes)) :
    recvLoop (frames m ++ rest) (some data) = (.ok (.array (data ++ m)), rest) := by
  induction m using frames.induct generalizing data with
  | case1 => exact absurd rfl hm
  | case2 a => rfl
  | case3 a b l ih =>
    rw [frames, List.cons_append, recvLoop, ih _ (List.cons_ne_nil b l)]
    simp

/-- Receiving from an inbox with a whole message at its front takes exactly
    that message. -/
theorem recvLoop_frames {m : List Bytes} (hm : m ≠ []) (rest : List (Frame Bytes)) :
    recvLoop (frames m ++ rest) none = (.ok (.ofMessage m), rest) := by
  match m, hm with
  | [a], _ => rfl
  | a :: b :: l, _ =>
    rw [frames, List.cons_append, recvLoop, recvLoop_array _ _ (List.cons_ne_nil b l)]
    rfl

end MrubyZmq
