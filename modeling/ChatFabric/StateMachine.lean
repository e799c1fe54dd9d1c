import ChatFabric.ConfigFile
import ChatFabric.PairFile
import ChatFabric.PacketInit

/- stateMachine, with the record, the config and the two files it writes. Its switch is in
   two parts: the commands that read or write the whole config, and those that only touch
   the pairing record. -/
namespace ChatFabric
open ByteStrings

structure Party where
  config : ChatFabricConfig
  pair : ChatFabricPairing
  configFile : Option Bytes
  pairFile : Option Bytes
  deriving DecidableEq

/-- Whether fopen succeeds for the file cfConfigWrite, and the one cfPairWrite, opens. -/
structure FileAccess where
  configOpens : Bool
  pairOpens : Bool

def cfConfigWrite (files : FileAccess) (p : Party) : Except Fault Party := do
  let bytes ← configFileBytes p.config
  .ok (if files.configOpens then { p with configFile := some bytes } else p)

def cfPairWrite (files : FileAccess) (p : Party) : Except Fault Party := do
  let bytes ← pairFileBytes p.pair
  .ok (if files.pairOpens then { p with pairFile := some bytes } else p)

/-- What the switch makes of the record and the reply, and RETVAL. -/
structure Switched where
  pair : ChatFabricPairing
  reply : ChatPacket
  retval : Command

def verifiable (state : PairState) : Bool :=
  state = .configured ∨ state = .configuredSyn ∨ state = .configuredSynack

/-- The fall-through of CMD_PUBLICKEY_ACK ends here too. -/
def publickeyRequest (config : ChatFabricConfig) (s : Switched) : Switched :=
  if s.pair.state = .publickeySetup then
    { pair := s.pair
      reply := { s.reply with
        flags := s.pair.hasPublicKey
        cmd := .publickeySend
        publickey := config.publickey }
      retval := .sendReplyTrue }
  else s

def pairSwitch (crypto : Crypto) (config : ChatFabricConfig) (cp : ChatPacket)
    (pair : ChatFabricPairing) (reply : ChatPacket) : Switched :=
  let unanswered : Switched := ⟨pair, reply, .sendReplyFalse⟩
  match cp.cmd with
  | .pairRequestReset =>
    if pair.state ≠ .paired then
      { pair := { pair with state := .unconfigured }
        reply := { reply with flags := PairState.unconfigured.toCode, cmd := .pairRequest }
        retval := .sendReplyTrue }
    else ⟨pair, { reply with flags := pair.state.toCode, cmd := .fail }, .sendReplyTrue⟩
  | .hello => ⟨pair, { reply with flags := pair.state.toCode, cmd := .helloAck }, .sendReplyTrue⟩
  | .helloAck => ⟨pair, { reply with flags := pair.state.toCode, cmd := .helloAck }, .sendReplyFalse⟩
  | .pairRequest =>
    if pair.state = .unconfigured then
      { pair := { pair with uuid := cp.fromUuid, state := .publickeySetup }
        reply := { reply with flags := 0, cmd := .pairRequestAck }
        retval := .sendReplyTrue }
    else ⟨{ pair with uuid := cp.fromUuid }, { reply with flags := 0, cmd := .fail }, .sendReplyTrue⟩
  | .pairRequestAck =>
    if pair.state = .unconfigured then
      { pair := { pair with state := .publickeySetup, uuid := cp.fromUuid }
        reply := { reply with flags := 0, cmd := .publickeyRequest }
        retval := .sendReplyTrue }
    else unanswered
  | .nonceRequest =>
    if pair.state = .nonceSetup then
      if pair.hasPublicKey = 1 then
        { pair := pair
          reply := { reply with flags := pair.hasNonce, nonce := pair.mynonce, cmd := .nonceSend }
          retval := .sendReplyTrue }
      else
        { pair := { pair with state := .unconfigured }
          reply := { reply with flags := 0, cmd := .pairRequestReset }
          retval := .sendReplyTrue }
    else unanswered
  | .nonceAck =>
    if pair.state = .nonceSetup then ⟨{ pair with state := .paired }, reply, .sendReplyFalse⟩
    else unanswered
  | .nonceSend =>
    if pair.state = .nonceSetup then
      if cp.flags = 1 then
        { pair := { pair with nonce := cp.nonce, hasNonce := 1, state := .paired }
          reply := { reply with flags := 0, cmd := .nonceAck }
          retval := .sendReplyTrue }
      else
        { pair := { pair with nonce := cp.nonce, hasNonce := 1 }
          reply := { reply with flags := 1, cmd := .nonceSend, nonce := pair.mynonce }
          retval := .sendReplyTrue }
    else unanswered
  | .publickeyAck =>
    publickeyRequest config <|
      if pair.state = .publickeySetup then
        { pair := { pair with state := .nonceSetup }
          reply := { reply with flags := PairState.nonceSetup.toCode, cmd := .nonceRequest }
          retval := .sendReplyTrue }
      else unanswered
  | .publickeyRequest => publickeyRequest config unanswered
  | .publickeySend =>
    if pair.state = .publickeySetup then
      let keyed := { pair with
        publickey := cp.publickey
        hasPublicKey := 1
        sharedkey := crypto.curve25519Donna config.privatekey cp.publickey }
      if cp.flags = 1 then
        { pair := { keyed with state := .nonceSetup }
          reply := { reply with flags := 1, cmd := .publickeyAck }
          retval := .sendReplyTrue }
      else
        { pair := keyed
          reply := { reply with flags := 1, cmd := .publickeySend, publickey := config.publickey }
          retval := .sendReplyTrue }
    else unanswered
  | .verifySyn =>
    if verifiable pair.state then
      { pair := { pair with state := .configuredSyn }
        reply := { reply with flags := 0, cmd := .verifySynack }
        retval := .sendReplyTrue }
    else unanswered
  | .verifySynack =>
    if verifiable pair.state then
      { pair := { pair with state := .configuredSynack }
        reply := { reply with flags := 0, cmd := .verifyAck }
        retval := .sendReplyTrue }
    else unanswered
  | .verifyAck =>
    if verifiable pair.state then
      { pair := { pair with state := .paired }
        reply := { reply with flags := 0, cmd := .verifyAck }
        retval := .sendReplyTrue }
    else unanswered
  | .appMessage =>
    if pair.state = .paired then
      { pair := pair
        reply := { reply with cmd := .appMessageAck }
        retval := if cp.flags = Command.sendReplyTrue.toCode then .sendReplyTrue else .sendReplyFalse }
    else unanswered
  | .appList =>
    if pair.state = .paired then
      { pair := pair
        reply := { reply with
          controlers := some config.controlers
          numOfControllers := Int32.ofNat config.controlers.length
          cmd := .appListAck }
        retval := .sendReplyTrue }
    else unanswered
  | .packetDecryptFailed => ⟨pair, { reply with cmd := .fail }, .sendReplyFalse⟩
  | .nonceReset | .publickeyReset | .appMessageAck | .appRegister | .appListAck | .configMessage
  | .configDeligate | .configPair | .sendReplyFalse | .sendReplyTrue | .fail | .invaildCmd
  | .configGet | .configSet => unanswered
  | .other _ _ => ⟨pair, { reply with flags := 0, cmd := .invaildCmd }, .sendReplyTrue⟩

structure Handled where
  party : Party
  reply : ChatPacket
  retval : Command

def commandSwitch (crypto : Crypto) (files : FileAccess) (p : Party) (cp reply : ChatPacket) :
    Except Fault Handled :=
  match cp.cmd with
  | .configGet => do
    let str ← createConfigString p.config
    .ok ⟨p, { reply with
      cmd := .configMessage
      payload := some str
      payloadLength := UInt32.ofNat str.length }, .sendReplyTrue⟩
  | .configSet => do
    let config ← cfConfigSetFromStr p.config cp.payload cp.payloadLength
    let p ← cfConfigWrite files { p with config := config }
    .ok ⟨p, { reply with cmd := .appMessageAck }, .sendReplyTrue⟩
  | _ =>
    let s := pairSwitch crypto p.config cp p.pair reply
    .ok ⟨{ p with pair := s.pair }, s.reply, s.retval⟩

def savePaired (files : FileAccess) (previous : PairState) (p : Party) : Except Fault Party :=
  if p.pair.state ≠ previous ∧ p.pair.state = .paired then
    cfPairWrite files { p with config.hasPairs := 1 }
  else .ok p

def misaddressed (config : ChatFabricConfig) (cp : ChatPacket) : Bool :=
  cp.toUuid ≠ config.uuid ∧ cp.cmd ≠ .hello ∧ cp.cmd ≠ .helloAck ∧ cp.cmd ≠ .pairRequest

structure Outcome where
  party : Party
  reply : ChatPacket
  replyCmd : Command
  e : FabricError

/-- The argument replyCmd is what the caller's variable holds; the first return leaves it
    as it is. -/
def stateMachine (crypto : Crypto) (files : FileAccess) (p : Party) (cp reply : ChatPacket)
    (replyCmd : Command) : Except Fault Outcome :=
  if misaddressed p.config cp then .ok ⟨p, reply, replyCmd, .invaildDest⟩
  else do
    let reply := { reply with toUuid := cp.fromUuid, fromUuid := p.config.uuid }
    let handled ← commandSwitch crypto files p cp reply
    let p ← savePaired files p.pair.state handled.party
    .ok ⟨p, handled.reply, handled.retval, .ok⟩

end ChatFabric
