import MrubyZmq.Records
import MrubyZmq.Socket

/-!
# Logging

`ZMQ::Logger` prints what it logs as a line, and sends it as a message of its
own, if it has been given an endpoint: the level, the ident, if it has one, the
time and the text. What is logged is a value which `join` converts to the same
string as `send` does; an array, which `join` would flatten, is not considered.

A logger whose socket works (`Working`) raises only if the value does not
convert to a string, and then neither prints nor sends anything (`log_apply`).
What it has sent is read as the records logged (`readAll_records`).
-/

namespace MrubyZmq

/-- The elements, with the separator between them: `Array#join`. -/
def joined (separator : Bytes) : List Bytes → Bytes
  | [] => []
  | [a] => a
  | a :: b :: l => a ++ separator ++ joined separator (b :: l)

/-- What `puts` prints: a line. -/
def line (s : Bytes) : Bytes := if s.getLast? = some 10 then s else s ++ [10]

/-- What is seen of an exception: the name of its class, the string it converts
    to, and the backtrace, if it has one. -/
structure Raised where
  className : Bytes
  message : Bytes
  backtrace : Option (List Bytes) := none

/-- What is logged. -/
structure Record where
  level : Bytes
  time : Bytes
  text : Bytes
  deriving DecidableEq, Repr

/-- The strings before the text. -/
def front (ident : Option Bytes) (level now : Bytes) : List Bytes :=
  match ident with
  | some ident => [level, ident, now]
  | none => [level, now]

/-- The strings that are printed, and sent. -/
def Record.strings (ident : Option Bytes) (r : Record) : List Bytes :=
  front ident r.level r.time ++ [r.text]

/-- The line that is printed. -/
def Record.line (ident : Option Bytes) (r : Record) : Bytes :=
  MrubyZmq.line (joined (ascii [',', ' ']) (r.strings ident))

/-! ## The logger -/

/-- `ZMQ::Logger`. -/
structure Logger where
  ident : Option Bytes := none
  /-- The socket of `@pub`. -/
  pub : Option Sock := none
  /-- What has been printed. -/
  console : Bytes := []

namespace Logger

/-- `ZMQ::Logger.new`, given an endpoint or not. -/
def new (endpoint ident : Option Bytes) : Logger where
  ident := ident
  pub := endpoint.map fun _ => {}

/-- `puts`. -/
def puts (s : Bytes) : Effect Err Logger Unit :=
  Effect.modify fun g => { g with console := g.console ++ line s }

/-- `@pub.send(msg) if @pub`. -/
def publish (msg : List Value) : Effect Err Logger Unit := fun g =>
  match g.pub with
  | some pub =>
    ((socketSend (.array msg) 0 pub).1, { g with pub := some (socketSend (.array msg) 0 pub).2 })
  | none => (.ok (), g)

/-- `msg.join(", ")`, where all but the message are strings. -/
def joinMsg (front : List Bytes) (message : Value) : Except Err Bytes := do
  let message ← message.toStr
  return joined (ascii [',', ' ']) (front ++ [message])

/-- `ZMQ::Logger#log`, at a time. -/
def log (level : Bytes) (message : Value) (now : Bytes) : Effect Err Logger (List Value) := do
  let g ← Effect.get
  let msg := (front g.ident level now).map .str ++ [message]
  puts (← Effect.ofExcept (joinMsg (front g.ident level now) message))
  publish msg
  return msg

/-- `ZMQ::Logger#debug`. -/
def debug : Value → Bytes → Effect Err Logger (List Value) := log (ascii ['D'])

/-- `ZMQ::Logger#error`. -/
def error : Value → Bytes → Effect Err Logger (List Value) := log (ascii ['E'])

/-- `ZMQ::Logger#info`. -/
def info : Value → Bytes → Effect Err Logger (List Value) := log (ascii ['I'])

/-- `ZMQ::Logger#warn`. -/
def warn : Value → Bytes → Effect Err Logger (List Value) := log (ascii ['W'])

/-- `ZMQ::Logger#format_exception`. -/
def formatException (exception : Raised) : Bytes :=
  exception.className ++ ascii [':', ' '] ++ exception.message ++ ascii ['\n', '\t'] ++
    match exception.backtrace with
    | some backtrace => joined (ascii ['\n', '\t']) backtrace
    | none => ascii "EMPTY BACKTRACE\n\t".toList

/-- `ZMQ::Logger#crash`. -/
def crash (exception : Raised) : Bytes → Effect Err Logger (List Value) :=
  log (ascii ['E']) (.str (formatException exception))

end Logger

/-! ## Sending strings -/

section

variable {s : Sock} {data : List Value} {l : List Bytes} {flags : ℤ} {n i : ℕ}

theorem toStr_getD (hl : data.map (·.toStr) = l.map .ok) (hi : i < l.length) :
    (data.getD i .nil).toStr = .ok l[i] := by
  have hlen : data.length = l.length := by simpa using congrArg List.length hl
  have h := congrArg (·[i]?) hl
  simp only [List.getElem?_map, List.getElem?_eq_getElem (hlen ▸ hi),
    List.getElem?_eq_getElem hi, Option.map_some] at h
  rw [List.getD_eq_getElem?_getD, List.getElem?_eq_getElem (hlen ▸ hi)]
  exact Option.some.inj h

/-- The loop over elements that all convert, when no call of libzmq fails. -/
theorem sendLoop_apply (hs : s.faults = []) (hf : FitsInt flags)
    (hl : data.map (·.toStr) = l.map .ok) (hn : i + n + 1 = data.length) :
    ∃ k, sendLoop data flags n i s =
      (.ok k, { s with out := (sendFrames (l.drop i) flags).foldl Pipe.write s.out }) := by
  have hlen : data.length = l.length := by simpa using congrArg List.length hl
  induction n generalizing s i with
  | zero =>
    have hi : i < l.length := by omega
    have hget : (data.getD i .nil).toStr = .ok l[i] := toStr_getD hl hi
    rw [sendLoop, zero_lor, libzmqSend_apply hs hf, hget, List.drop_eq_getElem_cons hi,
      List.drop_eq_nil_of_le (by omega), sendFrames_singleton]
    exact ⟨_, rfl⟩
  | succ n ih =>
    have hi : i < l.length := by omega
    have hmore := @libzmqSend_apply (Int.lor SNDMORE flags) s (data.getD i .nil) hs
      (fitsInt_or_SNDMORE.2 hf)
    rw [toStr_getD hl hi] at hmore
    obtain ⟨k, hk⟩ := @ih { s with out := s.out.write ⟨l[i], true⟩ } (i + 1) hs (by omega)
    have hne : l.drop (i + 1) ≠ [] := List.ne_nil_of_length_pos (by simp; omega)
    refine ⟨k, ?_⟩
    rw [sendLoop, Effect.bind_ok hmore, sndmore_or_SNDMORE, hk, List.drop_eq_getElem_cons hi,
      sendFrames_cons hne, List.foldl_cons]

/-- The socket after sending a message. -/
def Sock.sent (s : Sock) (l : List Bytes) : Sock :=
  { s with out := (frames l).foldl Pipe.write s.out }

theorem Sock.sent_eq (hs : s.out.AtBoundary) (hne : l ≠ []) :
    s.sent l = { s with out := { flushed := s.out.flushed ++ frames l } } := by
  rw [Sock.sent, Pipe.foldl_write_frames _ hne, hs, List.append_nil]

/-- Sending an array of strings, when no call of libzmq fails. -/
theorem socketSend_apply (hs : s.faults = []) (hl : data.map (·.toStr) = l.map .ok)
    (hne : l ≠ []) : socketSend (.array data) 0 s = (.ok (), s.sent l) := by
  have hlen : data.length = l.length := by simpa using congrArg List.length hl
  have hpos := List.length_pos_iff.2 hne
  obtain ⟨k, hk⟩ := @sendLoop_apply s data l 0 ((data.length : ℤ) - 1).toNat 0 hs fitsInt_zero hl
    (by omega)
  exact Effect.bind_ok hk

end

/-! ## What is logged -/

namespace Logger

variable {g g' : Logger} {level time now text : Bytes} {message : Value} {r : Record}
  {ident : Option Bytes} {l : List Record} {rest : List (Frame Bytes)}

/-- The socket, if there is one, is between messages, and no call of libzmq on
    it fails. -/
def Working (g : Logger) : Prop := ∀ pub ∈ g.pub, pub.faults = [] ∧ pub.out.AtBoundary

/-- The logger after a record. -/
def logged (g : Logger) (r : Record) : Logger :=
  { g with
    pub := g.pub.map (·.sent (r.strings g.ident))
    console := g.console ++ r.line g.ident }

theorem strings_ne_nil : r.strings ident ≠ [] :=
  List.append_ne_nil_of_right_ne_nil _ (List.cons_ne_nil _ _)

theorem working_new {endpoint : Option Bytes} : (new endpoint ident).Working := by
  cases endpoint <;> simp [new, Working, Pipe.AtBoundary]

theorem working_logged (hg : g.Working) : (g.logged r).Working := by
  intro pub' hpub'
  obtain ⟨pub, hpub, rfl⟩ := Option.map_eq_some_iff.1 hpub'
  obtain ⟨hfaults, -⟩ := hg pub hpub
  refine ⟨hfaults, ?_⟩
  rw [Sock.sent, Pipe.foldl_write_frames _ strings_ne_nil]
  rfl

theorem publish_apply {msg : List Value} {l : List Bytes} (hg : g.Working)
    (hl : msg.map (·.toStr) = l.map .ok) (hne : l ≠ []) :
    publish msg g = (.ok (), { g with pub := g.pub.map (·.sent l) }) := by
  obtain ⟨ident, _ | pub, console⟩ := g
  · rfl
  · obtain ⟨hfaults, -⟩ := hg pub rfl
    simp only [publish, socketSend_apply hfaults hl hne, Option.map_some]

/-- Logging, if the socket works: a value which does not convert to a string is
    neither printed nor sent. -/
theorem log_apply (hg : g.Working) : log level message now g = match message.toStr with
    | .ok text => (.ok ((front g.ident level now).map .str ++ [message]),
        g.logged ⟨level, now, text⟩)
    | .error e => (.error e, g) := by
  rw [log, Effect.bind_ok Effect.get_apply, joinMsg]
  cases htext : message.toStr with
  | error e => rfl
  | ok text =>
    have hl : ((front g.ident level now).map Value.str ++ [message]).map (·.toStr) =
        (Record.strings g.ident ⟨level, now, text⟩).map .ok := by
      simp [Record.strings, Value.str, htext]
    have hpublish := @publish_apply
      { g with console := g.console ++ Record.line g.ident ⟨level, now, text⟩ } _ _ hg hl
      strings_ne_nil
    refine (Effect.bind_ok Effect.pure_apply).trans ((Effect.bind_ok Effect.modify_apply).trans ?_)
    exact Effect.bind_ok hpublish

/-- An exception is logged with its class, its message and its backtrace. -/
theorem crash_apply {exception : Raised} (hg : g.Working) :
    ∃ msg, crash exception now g =
      (.ok msg, g.logged ⟨ascii ['E'], now, formatException exception⟩) :=
  ⟨_, log_apply hg⟩

/-! ## Records in a row -/

theorem working_foldl_logged (hg : g.Working) : (l.foldl logged g).Working := by
  induction l generalizing g with
  | nil => exact hg
  | cons r l ih => exact ih (working_logged hg)

theorem console_foldl_logged :
    (l.foldl logged g).console = g.console ++ l.flatMap (Record.line g.ident) := by
  induction l generalizing g with
  | nil => simp
  | cons r l ih =>
    rw [List.foldl_cons, ih, List.flatMap_cons, ← List.append_assoc]
    rfl

/-- What has been sent of records in a row. -/
theorem pub_foldl_logged {pub : Sock} (hg : g.Working) (hpub : g.pub = some pub) :
    (l.foldl logged g).pub = some { pub with
      out := { flushed := pub.out.flushed ++ l.flatMap fun r => frames (r.strings g.ident) } } := by
  obtain ⟨-, hboundary⟩ := hg pub hpub
  induction l generalizing g pub with
  | nil =>
    obtain ⟨inbox, ⟨flushed, pending⟩, faults⟩ := pub
    obtain rfl : pending = [] := hboundary
    simpa using hpub
  | cons r l ih =>
    have hsent : (g.logged r).pub = some (pub.sent (r.strings g.ident)) := by
      rw [logged, hpub, Option.map_some]
    rw [Sock.sent_eq hboundary strings_ne_nil] at hsent
    rw [List.foldl_cons, ih (working_logged hg) hsent rfl, List.flatMap_cons, ← List.append_assoc]
    rfl

/-! ## Reading the records -/

/-- Receiving a record of a logger with the ident. -/
def readRecord (ident : Option Bytes) (inbox : List (Frame Bytes)) :
    Option (Record × List (Frame Bytes)) :=
  match ident, recvLoop inbox none with
  | some ident, (.ok (.array [level, ident', time, text]), rest) =>
    if ident' = ident then some (⟨level, time, text⟩, rest) else none
  | none, (.ok (.array [level, time, text]), rest) => some (⟨level, time, text⟩, rest)
  | _, _ => none

theorem readRecord_frames :
    readRecord ident (frames (r.strings ident) ++ rest) = some (r, rest) := by
  rw [readRecord.eq_def, recvLoop_frames strings_ne_nil]
  cases ident with
  | none => rfl
  | some ident => exact if_pos rfl

/-- What is sent of records in a row is read as these records. -/
theorem readAll_records :
    readAll (readRecord ident) (l.flatMap fun r => frames (r.strings ident)) = some l :=
  readAll_flatMap
    (fun _ _ => List.ne_nil_of_length_pos
      ((length_frames _).symm ▸ List.length_pos_iff.2 strings_ne_nil))
    fun _ _ _ => readRecord_frames

end Logger

end MrubyZmq
