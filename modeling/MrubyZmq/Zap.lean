import MrubyZmq.Socket

/-!
# Handling ZAP requests

`ZMQ::Zap#handle_zap` receives a request on a Router, has the authenticator
decide on it and writes the reply frame by frame (`sendReply`). The `Msg`s of
the request which the reply starts with are sent as they are, and sending a
`Msg` empties it: a second reply to the same request sends empty frames.

The authenticator is a function of the strings it is given, which may raise:
the one of `ZMQ::Zap::Authenticator` (`Authenticator.authenticate`) dispatches
on the mechanism.
-/

namespace MrubyZmq

/-! ## Authenticators -/

/-- What an authenticator returns: an array, or another value. -/
inductive Ret
  | array (l : List Value)
  | value (v : Value)

/-- The user, by `user, metadata = ...`. -/
def Ret.user : Ret → Value
  | array l => l.getD 0 .nil
  | value v => v

/-- The metadata, by `user, metadata = ...`. -/
def Ret.metadata : Ret → Value
  | array l => l.getD 1 .nil
  | value _ => .nil

/-- `@authenticator.authenticate`, given the domain, the address, the identity,
    the mechanism and the credentials. -/
abbrev Authenticate := Bytes → Bytes → Bytes → Bytes → List Bytes → Except Err Ret

/-- What a subclass of `ZMQ::Zap::Authenticator` may override. -/
structure Authenticator where
  null (domain address identity : Bytes) : Except Err Ret :=
    .ok (.value (.str (ascii "anonymous".toList)))
  plain (domain address identity username password : Bytes) : Except Err Ret :=
    .ok (.value (.str (ascii "anonymous".toList)))
  curve (domain address identity publicKey : Bytes) : Except Err Ret :=
    .ok (.value (.str (ascii "anonymous".toList)))

/-- `to_str` of a `Msg`, or of `nil`. -/
def toStr : Option Bytes → Except Err Bytes
  | some data => .ok data
  | none => .error (.noMethodError "to_str")

namespace Authenticator

def NULL : Bytes := ascii ['N', 'U', 'L', 'L']

def PLAIN : Bytes := ascii ['P', 'L', 'A', 'I', 'N']

def CURVE : Bytes := ascii ['C', 'U', 'R', 'V', 'E']

/-- `ZMQ::Zap::Authenticator#authenticate`. -/
def authenticate (a : Authenticator) : Authenticate :=
  fun domain address identity mechanism credentials =>
    if mechanism = NULL then a.null domain address identity
    else if mechanism = PLAIN then do
      let username ← toStr credentials.head?
      let password ← toStr credentials.getLast?
      a.plain domain address identity username password
    else if mechanism = CURVE then do
      let publicKey ← toStr credentials.head?
      a.curve domain address identity publicKey
    else .error (.unknownMechanism mechanism)

end Authenticator

/-! ## Replies -/

/-- A Zap, in a call of `handle_zap`. -/
structure Zap where
  /-- `@zmq_socket`. -/
  router : Sock := {}
  /-- The contents of the `Msg`s received. -/
  msgs : List Bytes := []
  /-- The status codes the call has written. -/
  statuses : List ℕ := []

/-- A value in a call of `handle_zap`: a `Msg`, by its position in the request,
    or another value. -/
inductive Arg
  | msg (i : ℕ)
  | value (v : Value)

def Arg.truthy : Arg → Bool
  | msg _ => true
  | value v => v.truthy

namespace Zap

/-- A call on the Router. -/
def onRouter {α : Type} (x : Effect Err Sock α) : Effect Err Zap α := fun z =>
  ((x z.router).1, { z with router := (x z.router).2 })

/-- `zmq_msg_send`, which empties the `Msg`. -/
def sendMsg (i : ℕ) (flags : ℤ) : Effect Err Zap Unit := fun z =>
  match zmqSend "zmq_msg_send" (z.msgs.getD i []) flags z.router with
  | (.ok _, router) => (.ok (), { z with router, msgs := z.msgs.set i [] })
  | (.error e, router) => (.error e, { z with router })

/-- `LibZMQ.msg_send`: `mrb_zmq_msg_send`. -/
def libzmqMsgSend (msg : Arg) (flags : ℤ) : Effect Err Zap Unit :=
  match msg with
  | .msg i => do
    assertInt flags
    sendMsg i flags
  | .value _ => Effect.raise (.typeError "wrong argument type")

/-- `LibZMQ.send(@zmq_socket, message, flags)`. -/
def send (message : Value) (flags : ℤ) : Effect Err Zap Unit := do
  let _ ← onRouter (libzmqSend message flags)

/-- Sending the status code. -/
def sendStatus (statusCode : ℕ) : Effect Err Zap Unit := do
  send (.int statusCode) SNDMORE
  Effect.modify fun z => { z with statuses := z.statuses ++ [statusCode] }

/-- `[n].pack('C')`. -/
def packC (n : ℕ) : Bytes := [.ofNat n]

/-- `[n].pack('N')`. -/
def packN (n : ℕ) : Bytes :=
  [.ofNat (n / 2 ^ 24), .ofNat (n / 2 ^ 16), .ofNat (n / 2 ^ 8), .ofNat n]

/-- The loop of `send_reply` over the metadata, appending to `meta`. -/
def encodePairs : List (Except Err Bytes × Except Err Bytes) → Bytes → Except Err Bytes
  | [], encoded => .ok encoded
  | (key, value) :: l, encoded => do
    let key ← key
    let value ← value
    if key.length > 255 then
      throw (.argumentError "metadata keys can only be 8 bit long")
    else
      encodePairs l (encoded ++ (packC key.length ++ key ++ packN value.length ++ value))

/-- `meta`, once the loop is done. -/
def encodeMeta (metadata : Each) : Except Err Bytes := do
  let encoded ← encodePairs metadata.pairs []
  metadata.done
  return encoded

/-- Sending the version, which is one of the `Msg`s or not. -/
def sendVersion (version : Arg) : Effect Err Zap Unit :=
  match version with
  | .msg _ => libzmqMsgSend version SNDMORE
  | .value v => send v SNDMORE

/-- Sending the metadata, if it responds to `each`. -/
def sendMetadata (metadata : Value) : Effect Err Zap Unit :=
  match metadata.each with
  | some pairs => do
    let encoded ← Effect.ofExcept (encodeMeta pairs)
    send (.str encoded) 0
  | none => send .nil 0

/-- `ZMQ::Zap#send_reply`. -/
def sendReply (socketIdentity delimiter version requestId : Arg) (statusCode : ℕ) (reason : Bytes)
    (user metadata : Value) : Effect Err Zap Unit := do
  libzmqMsgSend socketIdentity SNDMORE
  libzmqMsgSend delimiter SNDMORE
  sendVersion version
  libzmqMsgSend requestId SNDMORE
  sendStatus statusCode
  send (.str reason) SNDMORE
  send user SNDMORE
  sendMetadata metadata

/-! ## Requests -/

/-- `@zmq_socket.recv`; a message of one frame is not an array. -/
def recv : Effect Err Zap Unit := do
  match ← onRouter (socketRecv 0) with
  | .msg data => Effect.modify fun z => { z with msgs := [data] }
  | .array msgs => Effect.modify fun z => { z with msgs }

/-- The variable which a frame of the request is assigned to: `nil` if there is
    no such frame. -/
def var (i : ℕ) : Effect Err Zap Arg := fun z =>
  (.ok (if i < z.msgs.length then .msg i else .value .nil), z)

/-- `to_str` of such a variable. -/
def varToStr (i : ℕ) : Effect Err Zap Bytes := fun z => (toStr z.msgs[i]?, z)

/-- `*credentials`. -/
def credentials : Effect Err Zap (List Bytes) := fun z => (.ok (z.msgs.drop 8), z)

/-- `'1.0'`. -/
def version1 : Bytes := ascii ['1', '.', '0']

/-- `ZMQ::Zap#handle_zap` after receiving the request. -/
def answer (authenticate : Authenticate) : Effect Err Zap Unit := do
  let socketIdentity ← var 0
  let delimiter ← var 1
  let version ← var 2
  let requestId ← var 3
  if (← varToStr 2) = version1 then
    let domain ← varToStr 4
    let address ← varToStr 5
    let identity ← varToStr 6
    let mechanism ← varToStr 7
    let ret ← Effect.ofExcept (authenticate domain address identity mechanism (← credentials))
    if ret.user.truthy then
      sendReply socketIdentity delimiter version requestId 200 (ascii ['O', 'K']) ret.user
        ret.metadata
    else
      sendReply socketIdentity delimiter version requestId 400
        (ascii "Invalid credentials".toList) .nil .nil
  else
    -- the Float `1.0`, which converts to `'1.0'`
    sendReply socketIdentity delimiter (.value (.str version1)) requestId 500
      (ascii "Version number not valid".toList) .nil .nil

/-- The `rescue` of `ZMQ::Zap#handle_zap`. -/
def rescued (crash : Err → Except Err Unit) (e : Err) : Effect Err Zap Unit := do
  Effect.ofExcept (crash e)
  let socketIdentity ← var 0
  let delimiter ← var 1
  let version ← var 2
  let requestId ← var 3
  if socketIdentity.truthy && delimiter.truthy && version.truthy && requestId.truthy then
    sendReply socketIdentity delimiter version requestId 300 (ascii "Temporary Error".toList)
      .nil .nil

/-- `ZMQ::Zap#handle_zap`, with what `ZMQ.logger.crash` does. -/
def handleZap (authenticate : Authenticate) (crash : Err → Except Err Unit) :
    Effect Err Zap Unit := do
  Effect.modify fun z => { z with msgs := [], statuses := [] }
  Effect.rescue (do recv; answer authenticate) (rescued crash)

end Zap

end MrubyZmq
