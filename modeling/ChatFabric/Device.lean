import ChatFabric.PacketDecode
import ChatFabric.PacketEncode
import ChatFabric.StateMachine

/- chatFabric_device, what it does with one datagram, and the two programs that call it:
   the device's callback and start, and the pair request of the controller. Sending
   succeeds; receiving is where the datagram comes from. -/
namespace ChatFabric
open ByteStrings

/-- What a call meets outside the program: random bytes, allocations, files, what its
    uninitialised variable replyCmd holds, and the fuel given to the decoder. -/
structure World where
  random : PacketRandom
  replyRandom : PacketRandom
  alloc : Nat → Bool
  junk : Nat → Nat → CfControl
  files : FileAccess
  replyCmd : Command
  fuel : Nat

structure MsgBuffer where
  length : Int32
  msg : Option Bytes
  action : UInt32
  actionControl : UInt32
  actionType : UInt32
  actionValue : Int32
  actionLength : UInt32
  deriving DecidableEq, Inhabited

inductive Halt where
  | fault (f : Fault)
  | endless
  deriving DecidableEq

def checked {α : Type} (r : Except Fault α) : Except Halt α := r.mapError Halt.fault

def decodeEnv (crypto : Crypto) (w : World) (pair : ChatFabricPairing) : DecodeEnv :=
  ⟨crypto, pair, w.alloc, w.junk⟩

def bufferSize : Nat := 1460

/-- mesg, zeroed before a datagram of at most its size is received into it. -/
def receiveBuffer (datagram : Bytes) : Bytes :=
  (datagram ++ List.replicate bufferSize 0).take bufferSize

def fillPayload (w : World) (allocs : Nat) (cp : ChatPacket) (b : MsgBuffer) :
    Except Fault MsgBuffer :=
  if 0 < cp.payloadLength then
    if w.alloc allocs then do
      let bytes ← TagData.bytes (.data8 cp.payload cp.payloadLength)
      .ok { b with length := cp.payloadLength.toInt32, msg := some bytes }
    else .error .nullPointer
  else .ok { b with length := 0 }

def fillAction (cp : ChatPacket) (b : MsgBuffer) : MsgBuffer :=
  if cp.action ≠ actionNull then
    { b with
      action := cp.action
      actionControl := cp.actionControl
      actionType := cp.actionType
      actionValue := cp.actionValue
      actionLength := cp.actionLength }
  else b

/-- The decoded packet and the caller's buffer; a packet that could not be decoded keeps
    what was decoded of it, under another command. -/
def receivePacket (crypto : Crypto) (w : World) (pair : ChatFabricPairing) (b : MsgBuffer)
    (datagram : Bytes) : Except Halt (ChatPacket × MsgBuffer) :=
  match chatPacketDecode (decodeEnv crypto w pair) w.fuel (chatPacketInit0 w.random) 0
      (receiveBuffer datagram) (min datagram.length bufferSize) with
  | .returned ret cp allocs =>
    if ret ≠ 0 then .ok ({ cp with cmd := .packetDecryptFailed }, { b with length := 0 })
    else (checked (fillPayload w allocs cp b)).map fun b => (cp, fillAction cp b)
  | .fault f => .error (.fault f)
  | .endless => .error .endless

structure CallbackArgs where
  config : ChatFabricConfig
  pair : ChatFabricPairing
  reply : ChatPacket
  replyCmd : Command

abbrev Callback := ChatPacket → CallbackArgs → CallbackArgs

def setValue (cp : ChatPacket) (c : CfControl) : CfControl :=
  if c.control = cp.actionControl ∧ cp.action = actionSet then { c with value := cp.actionValue }
  else c

def readValue (cp : ChatPacket) (c : CfControl) (reply : ChatPacket) : ChatPacket :=
  if c.control = cp.actionControl ∧ (cp.action = actionGet ∨ cp.action = actionSet) then
    { reply with
      action := actionRead
      actionControl := cp.actionControl
      actionType := c.type
      actionValue := c.value
      actionLength := 0 }
  else reply

def deviceCallBackLoop (cp : ChatPacket) : List CfControl → ChatPacket → List CfControl × ChatPacket
  | [], reply => ([], reply)
  | c :: rest, reply =>
    let c := setValue cp c
    let done := deviceCallBackLoop cp rest (readValue cp c reply)
    (c :: done.1, done.2)

/-- deviceCallBack of bin/device.c. A reply that lists the controls points to the same
    table, and so shows the values just set. -/
def deviceCallBack : Callback := fun cp a =>
  let done := deviceCallBackLoop cp a.config.controlers a.reply
  { a with
    config.controlers := done.1
    reply := { done.2 with controlers := done.2.controlers.map fun _ => done.1 } }

def appCommand (cmd : Command) : Bool :=
  cmd = .appMessage ∨ cmd = .appMessageAck ∨ cmd = .appList ∨ cmd = .appListAck

def callbackRuns (callback : Option Callback) (pair : ChatFabricPairing) (cp : ChatPacket) : Bool :=
  callback.isSome ∧ pair.state = .paired ∧ appCommand cp.cmd

def runCallback (callback : Option Callback) (cp : ChatPacket) (o : Outcome) : Outcome :=
  match callback with
  | none => o
  | some f =>
    if callbackRuns callback o.party.pair cp then
      let a := f cp ⟨o.party.config, o.party.pair, o.reply, o.replyCmd⟩
      { o with
        party := { o.party with config := a.config, pair := a.pair }
        reply := a.reply
        replyCmd := a.replyCmd }
    else o

def replyPacketType : Command → PacketType
  | .nonceSend => .nonce
  | .publickeySend => .publickey
  | .appMessage | .appMessageAck | .appRegister | .appList | .appListAck | .configGet | .configSet
  | .configMessage => .data
  | _ => .command

structure DeviceDone where
  party : Party
  buffer : MsgBuffer
  sent : Option Bytes
  session : Option (Block 32 × Block 8)
  called : Bool
  e : FabricError

def sendReply (crypto : Crypto) (o : Outcome) :
    Except Fault (Party × Option Bytes × Option (Block 32 × Block 8)) :=
  if o.replyCmd = .sendReplyTrue then do
    let encoded ← chatPacketEncode crypto o.reply o.party.pair true (replyPacketType o.reply.cmd)
    .ok ({ o.party with pair := encoded.pair }, some encoded.msg, encoded.session)
  else .ok (o.party, none, none)

def handlePacket (crypto : Crypto) (callback : Option Callback) (w : World) (p : Party)
    (cp : ChatPacket) (b : MsgBuffer) : Except Fault DeviceDone := do
  let o ← stateMachine crypto w.files p cp (chatPacketInit0 w.replyRandom) w.replyCmd
  let sent ← sendReply crypto (runCallback callback cp o)
  .ok ⟨sent.1, b, sent.2.1, sent.2.2, callbackRuns callback o.party.pair cp, o.e⟩

def chatFabricDevice (crypto : Crypto) (callback : Option Callback) (w : World) (p : Party)
    (b : MsgBuffer) (datagram : Bytes) : Except Halt DeviceDone := do
  let received ← receivePacket crypto w p.pair { b with length := 0 } datagram
  checked (handlePacket crypto callback w p received.1 received.2)

def zeroPairing : ChatFabricPairing :=
  ⟨0, 0, 0, .unconfigured, ⟨.zero 16, .zero 16⟩, .zero 32, .zero 32, .zero 8, .zero 8, .zero 8⟩

/-- The start of the device program, once its config is there. -/
def deviceStart (crypto : Crypto) (config : ChatFabricConfig) (random : Block 8)
    (configFile pairFile : Option Bytes) : Except Fault Party := do
  let loaded ← cfPairRead crypto config (cfPairInit zeroPairing random) pairFile
  .ok ⟨loaded.1, loaded.2, configFile, pairFile⟩

/-- What chatFabric_controller sends while it is not paired. -/
def pairRequest (crypto : Crypto) (p : Party) (random : PacketRandom) : Except Fault Bytes := do
  let cp ← chatPacketInit p.config p.pair .pairRequest none 0 0 random
  let encoded ← chatPacketEncode crypto cp p.pair false .command
  .ok encoded.msg

end ChatFabric
