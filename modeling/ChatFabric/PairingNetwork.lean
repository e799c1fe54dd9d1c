import ChatFabric.DeviceSteps
import ChatFabric.Handshake
import ChatFabric.Letters
import Mathlib.Data.List.InsertIdx

/- A controller and a device, and the datagrams under way between them: what they do with
   their records and datagrams is the handshake. -/
namespace PairingNetwork
open ByteStrings Runs ChatFabric Handshake

structure Network where
  party : Side → Party
  flight : Side → List Bytes

structure Call where
  callback : Option Callback
  world : World
  buffer : MsgBuffer

inductive Action where
  | request (random : PacketRandom)
  | deliver (dest : Side) (k : Nat) (call : Call)
  | lose (of : Side) (k : Nat)
  | duplicate (of : Side) (k : Nat)

namespace Network

def send (n : Network) (s : Side) (ds : List Bytes) : Network :=
  { n with flight := Function.update n.flight s (n.flight s ++ ds) }

def remove (n : Network) (s : Side) (k : Nat) : Network :=
  { n with flight := Function.update n.flight s ((n.flight s).eraseIdx k) }

def answer (n : Network) (s : Side) (done : DeviceDone) : Network :=
  { n with party := Function.update n.party s done.party }.send s done.sent.toList

/-- The controller asks as long as it is not paired. A call that faults leaves everything as
    it was. -/
def next (crypto : Crypto) (n : Network) : Action → Network
  | .request random =>
    if (n.party .controller).pair.state ≠ .paired then
      match pairRequest crypto (n.party .controller) random with
      | .ok d => n.send .controller [d]
      | .error _ => n
    else n
  | .deliver dest k call =>
    match (n.flight dest.other)[k]? with
    | some d =>
      match chatFabricDevice crypto call.callback call.world (n.party dest) call.buffer d with
      | .ok done => (n.remove dest.other k).answer dest done
      | .error _ => n
    | none => n
  | .lose s k => n.remove s k
  | .duplicate s k => n.send s (n.flight s)[k]?.toList

end Network

def phaseOf : PairState → Phase
  | .publickeySetup => .publickeySetup
  | .nonceSetup => .nonceSetup
  | .paired => .paired
  | _ => .unconfigured

def stateOf : Phase → PairState
  | .unconfigured => .unconfigured
  | .publickeySetup => .publickeySetup
  | .nonceSetup => .nonceSetup
  | .paired => .paired

def peerOf (pair : ChatFabricPairing) : Peer :=
  ⟨phaseOf pair.state, pair.hasPublicKey = 1, pair.hasNonce = 1⟩

def messageWith (cmd : Command) (flags : UInt32) : Message :=
  match cmd with
  | .pairRequest => .pairRequest
  | .pairRequestAck => .pairRequestAck
  | .publickeyRequest => .publickeyRequest
  | .publickeySend => .publickeySend (flags = 1)
  | .publickeyAck => .publickeyAck
  | .nonceRequest => .nonceRequest
  | .nonceSend => .nonceSend (flags = 1)
  | .nonceAck => .nonceAck
  | _ => .fail

section
variable (flags : UInt32)

@[simp] theorem messageWith_pairRequest : messageWith .pairRequest flags = .pairRequest := rfl
@[simp] theorem messageWith_pairRequestAck :
    messageWith .pairRequestAck flags = .pairRequestAck := rfl
@[simp] theorem messageWith_fail : messageWith .fail flags = .fail := rfl
@[simp] theorem messageWith_publickeyRequest :
    messageWith .publickeyRequest flags = .publickeyRequest := rfl
@[simp] theorem messageWith_publickeySend :
    messageWith .publickeySend flags = .publickeySend (flags = 1) := rfl
@[simp] theorem messageWith_publickeyAck : messageWith .publickeyAck flags = .publickeyAck := rfl
@[simp] theorem messageWith_nonceRequest : messageWith .nonceRequest flags = .nonceRequest := rfl
@[simp] theorem messageWith_nonceSend : messageWith .nonceSend flags = .nonceSend (flags = 1) := rfl
@[simp] theorem messageWith_nonceAck : messageWith .nonceAck flags = .nonceAck := rfl

end

def commandOf (d : Bytes) : Command := .ofCode (ofBe32 (slice d 1 4))
def flagsOf (d : Bytes) : UInt32 := ofBe32 (slice d 11 4)
def messageOf (d : Bytes) : Message := messageWith (commandOf d) (flagsOf d)

def handshake (n : Network) : Net :=
  ⟨fun s => peerOf (n.party s).pair, fun s => (n.flight s).map messageOf⟩

structure Identity where
  uuid : UuidTuple
  publickey : Block 32
  privatekey : Block 32
  mynonce : Block 8
  deriving DecidableEq

section
variable (crypto : Crypto) (ids : Side → Identity) (s : Side)

def sharedKey : Block 32 :=
  crypto.curve25519Donna (ids s).privatekey (ids s.other).publickey

structure Owns (config : ChatFabricConfig) : Prop where
  uuid : config.uuid = (ids s).uuid
  publickey : config.publickey = (ids s).publickey
  privatekey : config.privatekey = (ids s).privatekey

structure Holds (pair : ChatFabricPairing) : Prop where
  mynonce : pair.mynonce = (ids s).mynonce
  nullnonce : pair.nullnonce = .zero 8
  state : pair.state = stateOf (phaseOf pair.state)
  uuid : pair.state ≠ .unconfigured → pair.uuid = (ids s.other).uuid
  keyed : pair.hasPublicKey = 1 →
    pair.publickey = (ids s.other).publickey ∧ pair.sharedkey = sharedKey crypto ids s
  nonced : pair.hasNonce = 1 → pair.nonce = (ids s.other).mynonce

def pairing (cmd : Command) : Prop :=
  cmd = .pairRequest ∨ cmd = .pairRequestAck ∨ cmd = .fail ∨ cmd = .publickeyRequest ∨
    cmd = .publickeySend ∨ cmd = .publickeyAck ∨ cmd = .nonceRequest ∨ cmd = .nonceSend ∨
    cmd = .nonceAck

structure Formed (cp : ChatPacket) : Prop where
  cmd : pairing cp.cmd
  publickey : cp.cmd = .publickeySend → cp.publickey = (ids s).publickey
  fromUuid : cp.fromUuid = (ids s).uuid
  toUuid : cp.cmd ≠ .pairRequest → cp.toUuid = (ids s.other).uuid

end

variable {crypto : Crypto} {ids : Side → Identity} {s : Side} {config : ChatFabricConfig}
  {pair : ChatFabricPairing} {cp reply : ChatPacket}

structure SameAddresses (old new : ChatPacket) : Prop where
  toUuid : new.toUuid = old.toUuid
  fromUuid : new.fromUuid = old.fromUuid
  padding : new.envelopeRandomPaddingLength = old.envelopeRandomPaddingLength

def answerOf (sw : Switched) : Option Message :=
  if sw.retval = .sendReplyTrue then some (messageWith sw.reply.cmd sw.reply.flags) else none

structure Reacts (crypto : Crypto) (ids : Side → Identity) (s : Side) (pair : ChatFabricPairing)
    (cp reply : ChatPacket) (sw : Switched) : Prop where
  peer : peerOf sw.pair = (react (peerOf pair) (messageWith cp.cmd cp.flags)).1
  answer : answerOf sw = (react (peerOf pair) (messageWith cp.cmd cp.flags)).2
  holds : Holds crypto ids s sw.pair
  cmd : sw.retval = .sendReplyTrue → pairing sw.reply.cmd ∧ sw.reply.cmd ≠ .pairRequest
  publickey : sw.reply.cmd = .publickeySend → sw.reply.publickey = (ids s).publickey
  addresses : SameAddresses reply sw.reply

@[simp] theorem phaseOf_publickeySetup {st : PairState} :
    phaseOf st = .publickeySetup ↔ st = .publickeySetup := by
  cases st <;> simp [phaseOf]

@[simp] theorem phaseOf_nonceSetup {st : PairState} :
    phaseOf st = .nonceSetup ↔ st = .nonceSetup := by
  cases st <;> simp [phaseOf]

@[simp] theorem phaseOf_paired {st : PairState} : phaseOf st = .paired ↔ st = .paired := by
  cases st <;> simp [phaseOf]

theorem phaseOf_unconfigured {st : PairState} (known : st = stateOf (phaseOf st)) :
    phaseOf st = .unconfigured ↔ st = .unconfigured := by
  constructor
  · intro phase
    rw [known, phase]
    rfl
  · rintro rfl
    rfl

section
variable (holds : Holds crypto ids s pair)
include holds

theorem Holds.meets {uuid : UuidTuple} {state : PairState} (known : state = stateOf (phaseOf state))
    (other : uuid = (ids s.other).uuid) :
    Holds crypto ids s { pair with uuid := uuid, state := state } :=
  ⟨holds.mynonce, holds.nullnonce, known, fun _ => other, holds.keyed, holds.nonced⟩

theorem Holds.enters {state : PairState} (configured : pair.state ≠ .unconfigured)
    (known : state = stateOf (phaseOf state)) : Holds crypto ids s { pair with state := state } :=
  ⟨holds.mynonce, holds.nullnonce, known, fun _ => holds.uuid configured, holds.keyed, holds.nonced⟩

theorem Holds.takesKey {publickey sharedkey : Block 32} (other : publickey = (ids s.other).publickey)
    (shared : sharedkey = sharedKey crypto ids s) :
    Holds crypto ids s
      { pair with publickey := publickey, hasPublicKey := 1, sharedkey := sharedkey } :=
  ⟨holds.mynonce, holds.nullnonce, holds.state, holds.uuid, fun _ => ⟨other, shared⟩, holds.nonced⟩

theorem Holds.takesNonce {nonce : Block 8} (other : nonce = (ids s.other).mynonce) :
    Holds crypto ids s { pair with nonce := nonce, hasNonce := 1 } :=
  ⟨holds.mynonce, holds.nullnonce, holds.state, holds.uuid, holds.keyed, fun _ => other⟩

theorem reacts_unanswered (silent : reply.cmd = .invaildCmd)
    (ignored : react (peerOf pair) (messageWith cp.cmd cp.flags) = (peerOf pair, none)) :
    Reacts crypto ids s pair cp reply ⟨pair, reply, .sendReplyFalse⟩ where
  peer := by rw [ignored]
  answer := by simp [ignored, answerOf]
  holds := holds
  cmd := by simp
  publickey := by simp [silent]
  addresses := ⟨rfl, rfl, rfl⟩

theorem reacts_pairRequest (fromUuid : cp.fromUuid = (ids s.other).uuid) (cmd : cp.cmd = .pairRequest) :
    Reacts crypto ids s pair cp reply (pairSwitch crypto config cp pair reply) := by
  have known := phaseOf_unconfigured holds.state
  by_cases fresh : pair.state = .unconfigured
  · simp only [pairSwitch, cmd, fresh, if_true]
    refine ⟨?_, ?_, holds.meets rfl fromUuid, ?_, ?_, ⟨rfl, rfl, rfl⟩⟩
    · simp [peerOf, react, cmd, fresh, phaseOf]
    · simp [answerOf, peerOf, react, cmd, fresh, phaseOf]
    · simp [pairing]
    · simp
  · simp only [pairSwitch, cmd, fresh, if_false]
    refine ⟨?_, ?_, holds.meets holds.state fromUuid, ?_, ?_, ⟨rfl, rfl, rfl⟩⟩
    · simp [peerOf, react, cmd, known, fresh]
    · simp [answerOf, peerOf, react, cmd, known, fresh]
    · simp [pairing]
    · simp

theorem reacts_pairRequestAck (fromUuid : cp.fromUuid = (ids s.other).uuid)
    (cmd : cp.cmd = .pairRequestAck) (silent : reply.cmd = .invaildCmd) :
    Reacts crypto ids s pair cp reply (pairSwitch crypto config cp pair reply) := by
  have known := phaseOf_unconfigured holds.state
  by_cases fresh : pair.state = .unconfigured
  · simp only [pairSwitch, cmd, fresh, if_true]
    refine ⟨?_, ?_, holds.meets rfl fromUuid, ?_, ?_, ⟨rfl, rfl, rfl⟩⟩
    · simp [peerOf, react, cmd, fresh, phaseOf]
    · simp [answerOf, peerOf, react, cmd, fresh, phaseOf]
    · simp [pairing]
    · simp
  · simp only [pairSwitch, cmd, fresh, if_false]
    exact reacts_unanswered holds silent (by simp [peerOf, react, cmd, known, fresh])

theorem reacts_publickeyRequest (owns : Owns ids s config) (cmd : cp.cmd = .publickeyRequest)
    (silent : reply.cmd = .invaildCmd) :
    Reacts crypto ids s pair cp reply (pairSwitch crypto config cp pair reply) := by
  by_cases setup : pair.state = .publickeySetup
  · simp only [pairSwitch, cmd, publickeyRequest, setup, if_true]
    refine ⟨?_, ?_, holds, ?_, fun _ => owns.publickey, ⟨rfl, rfl, rfl⟩⟩
    · simp [peerOf, react, cmd, setup]
    · simp [answerOf, peerOf, react, cmd, setup]
    · simp [pairing]
  · simp only [pairSwitch, cmd, publickeyRequest, setup, if_false]
    exact reacts_unanswered holds silent (by simp [peerOf, react, cmd, setup])

theorem reacts_publickeySend (owns : Owns ids s config) (cmd : cp.cmd = .publickeySend)
    (publickey : cp.publickey = (ids s.other).publickey) (silent : reply.cmd = .invaildCmd) :
    Reacts crypto ids s pair cp reply (pairSwitch crypto config cp pair reply) := by
  have key : crypto.curve25519Donna config.privatekey cp.publickey = sharedKey crypto ids s := by
    rw [owns.privatekey, publickey, sharedKey]
  by_cases setup : pair.state = .publickeySetup
  · have configured : pair.state ≠ .unconfigured := by simp [setup]
    have keyed := holds.takesKey publickey key
    by_cases one : cp.flags = 1
    · simp only [pairSwitch, cmd, setup, one, if_true]
      refine ⟨?_, ?_, keyed.enters configured rfl, ?_, ?_, ⟨rfl, rfl, rfl⟩⟩
      · simp [peerOf, react, cmd, setup, one]
      · simp [answerOf, peerOf, react, cmd, setup, one]
      · simp [pairing]
      · simp
    · simp only [pairSwitch, cmd, setup, one, if_true, if_false]
      refine ⟨?_, ?_, keyed.enters configured rfl, ?_, fun _ => owns.publickey, ⟨rfl, rfl, rfl⟩⟩
      · simp [peerOf, react, cmd, setup, one]
      · simp [answerOf, peerOf, react, cmd, setup, one]
      · simp [pairing]
  · simp only [pairSwitch, cmd, setup, if_false]
    exact reacts_unanswered holds silent (by simp [peerOf, react, cmd, setup])

theorem reacts_publickeyAck (cmd : cp.cmd = .publickeyAck) (silent : reply.cmd = .invaildCmd) :
    Reacts crypto ids s pair cp reply (pairSwitch crypto config cp pair reply) := by
  by_cases setup : pair.state = .publickeySetup
  · have configured : pair.state ≠ .unconfigured := by simp [setup]
    simp only [pairSwitch, cmd, publickeyRequest, setup, if_true, reduceCtorEq, if_false]
    refine ⟨?_, ?_, holds.enters configured rfl, ?_, ?_, ⟨rfl, rfl, rfl⟩⟩
    · simp [peerOf, react, cmd, setup, phaseOf]
    · simp [answerOf, peerOf, react, cmd, setup]
    · simp [pairing]
    · simp
  · simp only [pairSwitch, cmd, publickeyRequest, setup, if_false]
    exact reacts_unanswered holds silent (by simp [peerOf, react, cmd, setup])

/-- A peer in step has the key by now, so it does not ask for a reset. -/
theorem reacts_nonceRequest (step : InStep (peerOf pair)) (cmd : cp.cmd = .nonceRequest)
    (silent : reply.cmd = .invaildCmd) :
    Reacts crypto ids s pair cp reply (pairSwitch crypto config cp pair reply) := by
  by_cases setup : pair.state = .nonceSetup
  · have keyed : pair.hasPublicKey = 1 := by
      simpa [peerOf] using step.keyed (.inl (phaseOf_nonceSetup.mpr setup))
    simp only [pairSwitch, cmd, setup, keyed, if_true]
    refine ⟨?_, ?_, holds, ?_, ?_, ⟨rfl, rfl, rfl⟩⟩
    · simp [peerOf, react, cmd, setup]
    · simp [answerOf, peerOf, react, cmd, setup]
    · simp [pairing]
    · simp
  · simp only [pairSwitch, cmd, setup, if_false]
    exact reacts_unanswered holds silent (by simp [peerOf, react, cmd, setup])

theorem reacts_nonceSend (cmd : cp.cmd = .nonceSend) (nonce : cp.nonce = (ids s.other).mynonce)
    (silent : reply.cmd = .invaildCmd) :
    Reacts crypto ids s pair cp reply (pairSwitch crypto config cp pair reply) := by
  by_cases setup : pair.state = .nonceSetup
  · have configured : pair.state ≠ .unconfigured := by simp [setup]
    have nonced := holds.takesNonce nonce
    by_cases one : cp.flags = 1
    · simp only [pairSwitch, cmd, setup, one, if_true]
      refine ⟨?_, ?_, nonced.enters configured rfl, ?_, ?_, ⟨rfl, rfl, rfl⟩⟩
      · simp [peerOf, react, cmd, setup, one]
      · simp [answerOf, peerOf, react, cmd, setup, one]
      · simp [pairing]
      · simp
    · simp only [pairSwitch, cmd, setup, one, if_true, if_false]
      refine ⟨?_, ?_, nonced.enters configured rfl, ?_, ?_, ⟨rfl, rfl, rfl⟩⟩
      · simp [peerOf, react, cmd, setup, one]
      · simp [answerOf, peerOf, react, cmd, setup, one]
      · simp [pairing]
      · simp
  · simp only [pairSwitch, cmd, setup, if_false]
    exact reacts_unanswered holds silent (by simp [peerOf, react, cmd, setup])

theorem reacts_nonceAck (cmd : cp.cmd = .nonceAck) (silent : reply.cmd = .invaildCmd) :
    Reacts crypto ids s pair cp reply (pairSwitch crypto config cp pair reply) := by
  by_cases setup : pair.state = .nonceSetup
  · have configured : pair.state ≠ .unconfigured := by simp [setup]
    simp only [pairSwitch, cmd, setup, if_true]
    refine ⟨?_, ?_, holds.enters configured rfl, ?_, ?_, ⟨rfl, rfl, rfl⟩⟩
    · simp [peerOf, react, cmd, setup]
    · simp [answerOf, peerOf, react, cmd, setup]
    · simp
    · simp [silent]
  · simp only [pairSwitch, cmd, setup, if_false]
    exact reacts_unanswered holds silent (by simp [peerOf, react, cmd, setup])

end

theorem pairSwitch_reacts (reply : ChatPacket) (owns : Owns ids s config)
    (holds : Holds crypto ids s pair) (step : InStep (peerOf pair)) (cmd : pairing cp.cmd)
    (fromUuid : cp.fromUuid = (ids s.other).uuid)
    (publickey : cp.cmd = .publickeySend → cp.publickey = (ids s.other).publickey)
    (nonce : cp.cmd = .nonceSend → cp.nonce = (ids s.other).mynonce)
    (silent : reply.cmd = .invaildCmd) :
    Reacts crypto ids s pair cp reply (pairSwitch crypto config cp pair reply) := by
  rcases cmd with cmd | cmd | cmd | cmd | cmd | cmd | cmd | cmd | cmd
  · exact reacts_pairRequest holds fromUuid cmd
  · exact reacts_pairRequestAck holds fromUuid cmd silent
  · simp only [pairSwitch, cmd]
    exact reacts_unanswered holds silent (by simp [react, messageWith, cmd])
  · exact reacts_publickeyRequest holds owns cmd silent
  · exact reacts_publickeySend holds owns cmd (publickey cmd) silent
  · exact reacts_publickeyAck holds cmd silent
  · exact reacts_nonceRequest holds step cmd silent
  · exact reacts_nonceSend holds cmd (nonce cmd) silent
  · exact reacts_nonceAck holds cmd silent

/-- A datagram one side sent: a packet it filled in, sealed where it is a nonce. -/
structure Wrote (crypto : Crypto) (ids : Side → Identity) (s : Side) (d : Bytes) (cp : ChatPacket)
    (pair : ChatFabricPairing) (pad : Padding) : Prop where
  bytes : d = wire crypto cp pair
  padding : cp.envelopeRandomPaddingLength = pad.lengthByte
  formed : Formed ids s cp
  mynonce : pair.mynonce = (ids s).mynonce
  nullnonce : pair.nullnonce = .zero 8
  sealed_ : cp.cmd = .nonceSend → pair.sharedkey = sharedKey crypto ids s

def Said (crypto : Crypto) (ids : Side → Identity) (s : Side) (d : Bytes) : Prop :=
  ∃ cp pair pad, Wrote crypto ids s d cp pair pad

theorem commandOf_wire (cp : ChatPacket) (pair : ChatFabricPairing) :
    commandOf (wire crypto cp pair) = cp.cmd := by
  have field : slice (wire crypto cp pair) 1 4 = be32 cp.cmd.toCode := rfl
  rw [commandOf, field, ofBe32_be32, Command.ofCode_toCode]

theorem flagsOf_wire (cp : ChatPacket) (pair : ChatFabricPairing) :
    flagsOf (wire crypto cp pair) = cp.flags := by
  have field : slice (wire crypto cp pair) 11 4 = be32 cp.flags := rfl
  rw [flagsOf, field, ofBe32_be32]

theorem type_of_pairing {cmd : Command} (handshake : pairing cmd) :
    replyPacketType cmd ≠ .data ∧ (replyPacketType cmd = .nonce ↔ cmd = .nonceSend) ∧
      (replyPacketType cmd = .publickey ↔ cmd = .publickeySend) := by
  rcases handshake with rfl | rfl | rfl | rfl | rfl | rfl | rfl | rfl | rfl <;>
    simp [replyPacketType]

theorem handlePacket_pairing {callback : Option Callback} {w : World} {p : Party} {b : MsgBuffer}
    (cmd : pairing cp.cmd) (here : misaddressed p.config cp = false) {sw : Switched}
    (switched : pairSwitch crypto p.config cp p.pair
      { chatPacketInit0 w.replyRandom with toUuid := cp.fromUuid, fromUuid := p.config.uuid } = sw)
    (answers : sw.retval = .sendReplyTrue → pairing sw.reply.cmd)
    (padding : sw.reply.envelopeRandomPaddingLength = w.replyRandom.envelope.lengthByte) :
    handlePacket crypto callback w p cp b =
      .ok ⟨saved w.files p.pair.state { p with pair := sw.pair }, b,
        if sw.retval = .sendReplyTrue then some (wire crypto sw.reply sw.pair) else none, none, false,
        .ok⟩ := by
  have notApp : appCommand cp.cmd = false := by
    rcases cmd with cmd | cmd | cmd | cmd | cmd | cmd | cmd | cmd | cmd <;> simp [cmd, appCommand]
  have notGet : cp.cmd ≠ .configGet := by
    rcases cmd with cmd | cmd | cmd | cmd | cmd | cmd | cmd | cmd | cmd <;> simp [cmd]
  have notSet : cp.cmd ≠ .configSet := by
    rcases cmd with cmd | cmd | cmd | cmd | cmd | cmd | cmd | cmd | cmd <;> simp [cmd]
  have ran : stateMachine crypto w.files p cp (chatPacketInit0 w.replyRandom) w.replyCmd = _ :=
    stateMachine_pair here notGet notSet
  simp only [switched] at ran
  have idle : ∀ pair, callbackRuns callback pair cp = false := by
    intro pair
    simp [callbackRuns, notApp]
  by_cases replies : sw.retval = .sendReplyTrue
  · have encoded := chatPacketEncode_wire crypto padding sw.pair
      (type_of_pairing (answers replies)).1
    have same : (saved w.files p.pair.state { p with pair := sw.pair }).pair = sw.pair := saved_pair ..
    generalize saved w.files p.pair.state { p with pair := sw.pair } = q at ran same ⊢
    rw [← same] at encoded ⊢
    simp only [handlePacket, ran, runCallback_idle _ (idle _), idle, sendReply, replies, if_true, encoded,
      bind, Except.bind]
  · simp only [handlePacket, ran, runCallback_idle _ (idle _), idle, sendReply, replies, if_false,
      bind, Except.bind]

def Commute (crypto : Crypto) (ids : Side → Identity) : Prop :=
  sharedKey crypto ids .controller = sharedKey crypto ids .device

theorem Commute.sides (commute : Commute crypto ids) (s : Side) :
    sharedKey crypto ids s.other = sharedKey crypto ids s := by
  cases s
  · exact commute.symm
  · exact commute

structure Keeps (crypto : Crypto) (ids : Side → Identity) (s : Side) (p : Party) : Prop where
  owns : Owns ids s p.config
  holds : Holds crypto ids s p.pair
  step : InStep (peerOf p.pair)

structure Read (ids : Side → Identity) (s : Side) (p : Party) (cp : ChatPacket) : Prop where
  cmd : pairing cp.cmd
  fromUuid : cp.fromUuid = (ids s.other).uuid
  publickey : cp.cmd = .publickeySend → cp.publickey = (ids s.other).publickey
  nonce : cp.cmd = .nonceSend → cp.nonce = (ids s.other).mynonce
  here : misaddressed p.config cp = false

structure Delivered (crypto : Crypto) (ids : Side → Identity) (s : Side) (p : Party) (m : Message)
    (done : DeviceDone) : Prop where
  owns : Owns ids s done.party.config
  holds : Holds crypto ids s done.party.pair
  peer : peerOf done.party.pair = (react (peerOf p.pair) m).1
  answer : done.sent.map messageOf = (react (peerOf p.pair) m).2
  said : ∀ d ∈ done.sent, Said crypto ids s d

theorem handlePacket_delivered {p : Party} (keeps : Keeps crypto ids s p) (read : Read ids s p cp)
    (callback : Option Callback) (w : World) (b : MsgBuffer) :
    ∃ done, handlePacket crypto callback w p cp b = .ok done ∧
      Delivered crypto ids s p (messageWith cp.cmd cp.flags) done := by
  obtain ⟨owns, holds, step⟩ := keeps
  have reacts := pairSwitch_reacts
    { chatPacketInit0 w.replyRandom with toUuid := cp.fromUuid, fromUuid := p.config.uuid }
    owns holds step read.cmd read.fromUuid read.publickey read.nonce rfl
  refine ⟨_, handlePacket_pairing read.cmd read.here rfl (fun answers => (reacts.cmd answers).1)
    reacts.addresses.padding, ?_⟩
  generalize pairSwitch crypto p.config cp p.pair
    { chatPacketInit0 w.replyRandom with toUuid := cp.fromUuid, fromUuid := p.config.uuid } = sw
    at reacts ⊢
  refine ⟨?_, ?_, ?_, ?_, ?_⟩
  · simp only [saved]
    split <;> exact ⟨owns.uuid, owns.publickey, owns.privatekey⟩
  · simpa only [saved_pair] using reacts.holds
  · simpa only [saved_pair] using reacts.peer
  · rw [← reacts.answer, answerOf]
    split
    · simp [messageOf, commandOf_wire, flagsOf_wire]
    · rfl
  · intro d member
    split at member
    · rename_i answers
      obtain ⟨cmd, notRequest⟩ := reacts.cmd answers
      refine ⟨sw.reply, sw.pair, w.replyRandom.envelope, (Option.some.inj member).symm,
        reacts.addresses.padding, ⟨cmd, reacts.publickey, ?_, fun _ => ?_⟩, reacts.holds.mynonce,
        reacts.holds.nullnonce, fun nonce => ?_⟩
      · exact reacts.addresses.fromUuid.trans owns.uuid
      · exact reacts.addresses.toUuid.trans read.fromUuid
      · have sends : (react (peerOf p.pair) (messageWith cp.cmd cp.flags)).2 =
            some (.nonceSend (sw.reply.flags = 1)) := by
          rw [← reacts.answer]
          simp only [answerOf, answers, if_true, messageWith, nonce]
        have keyed := keyed_of_nonceSend step sends
        rw [← reacts.peer] at keyed
        exact (reacts.holds.keyed (by simpa [peerOf] using keyed)).2
    · cases member

theorem read_wire {sent : ChatPacket} {sender : ChatFabricPairing} {pad : Padding} {d : Bytes}
    {p : Party} (owns : Owns ids s p.config) (wrote : Wrote crypto ids s.other d sent sender pad)
    (letter : cp.letter = wireLetter sent sender) :
    Read ids s p cp ∧ messageWith cp.cmd cp.flags = messageOf d := by
  obtain ⟨rfl, _, formed, mynonce, _, _⟩ := wrote
  obtain ⟨_, isNonce, isKey⟩ := type_of_pairing formed.cmd
  obtain ⟨cmd, flags, toUuid, fromUuid, publickey, nonce⟩ :
      cp.cmd = sent.cmd ∧ cp.flags = sent.flags ∧ cp.toUuid = sent.toUuid ∧
        cp.fromUuid = sent.fromUuid ∧ cp.publickey = (wireLetter sent sender).publickey ∧
        cp.nonce = (wireLetter sent sender).nonce := by
    simpa [ChatPacket.letter, wireLetter] using letter
  refine ⟨⟨cmd ▸ formed.cmd, fromUuid.trans formed.fromUuid, ?_, ?_, ?_⟩, ?_⟩
  · intro key
    rw [cmd] at key
    rw [publickey, wireLetter, if_pos (isKey.mpr key), formed.publickey key]
  · intro key
    rw [cmd] at key
    rw [nonce, wireLetter, if_pos (isNonce.mpr key), mynonce]
  · by_cases request : cp.cmd = .pairRequest
    · simp [misaddressed, request]
    · have mine := formed.toUuid (cmd ▸ request)
      rw [Side.other_other] at mine
      simp [misaddressed, toUuid, mine, owns.uuid]
  · rw [messageOf, commandOf_wire, flagsOf_wire, cmd, flags]

theorem chatFabricDevice_delivered {p : Party} {d : Bytes} (commute : Commute crypto ids)
    (keeps : Keeps crypto ids s p) (said : Said crypto ids s.other d)
    (keyed : commandOf d = .nonceSend → (peerOf p.pair).keyed) (callback : Option Callback)
    (w : World) (b : MsgBuffer) :
    (∀ done, chatFabricDevice crypto callback w p b d = .ok done →
        Delivered crypto ids s p (messageOf d) done) ∧
      ((∀ n, w.alloc n = true) → ∃ fuel done,
        chatFabricDevice crypto callback { w with fuel := fuel } p b d = .ok done) := by
  obtain ⟨sent, sender, pad, wrote⟩ := said
  have receives : Receives crypto p.pair d (wireLetter sent sender) := by
    obtain ⟨rfl, padding, formed, _, nullnonce, key⟩ := wrote
    rw [commandOf_wire] at keyed
    obtain ⟨noData, isNonce, _⟩ := type_of_pairing formed.cmd
    apply receives_wire padding noData
    intro nonce
    have cmd := isNonce.mp nonce
    have mine := (keeps.holds.keyed (by simpa [peerOf] using keyed cmd)).2
    exact ⟨by rw [mine, key cmd, commute.sides], by rw [keeps.holds.nullnonce, nullnonce]⟩
  constructor
  · intro done run
    obtain ⟨cp, received, decoded, handled⟩ := chatFabricDevice_ok_iff.mp run
    obtain ⟨read, message⟩ := read_wire keeps.owns wrote (receives.only _ _ _ _ decoded)
    obtain ⟨done', same, delivered⟩ := handlePacket_delivered keeps read callback w received
    cases same.symm.trans handled
    exact message ▸ delivered
  · intro memory
    obtain ⟨fuel, cp, received, decoded⟩ := receives.some w { b with length := 0 } memory
    obtain ⟨read, _⟩ := read_wire keeps.owns wrote (receives.only _ _ _ _ decoded)
    obtain ⟨done, handled, _⟩ :=
      handlePacket_delivered keeps read callback { w with fuel := fuel } received
    exact ⟨fuel, done, chatFabricDevice_ok_iff.mpr ⟨cp, received, decoded, handled⟩⟩

/-- What every run keeps, in terms of the datagrams and of the handshake they carry. -/
structure Inv (crypto : Crypto) (ids : Side → Identity) (n : Network) : Prop where
  owns : ∀ s, Owns ids s (n.party s).config
  holds : ∀ s, Holds crypto ids s (n.party s).pair
  said : ∀ s, ∀ d ∈ n.flight s, Said crypto ids s d
  agreed : Agreed (handshake n)

variable {n : Network}

theorem handshake_send (n : Network) (s : Side) (ds : List Bytes) :
    handshake (n.send s ds) = (handshake n).send s (ds.map messageOf) := by
  simp only [handshake, Network.send, Net.send, Net.mk.injEq, true_and]
  funext t
  rw [Function.apply_update (fun _ => List.map messageOf)]
  simp

theorem handshake_remove (n : Network) (s : Side) (k : Nat) :
    handshake (n.remove s k) = (handshake n).remove s k := by
  simp only [handshake, Network.remove, Net.remove, Net.mk.injEq, true_and]
  funext t
  rw [Function.apply_update (fun _ => List.map messageOf), List.eraseIdx_map]

theorem handshake_party (n : Network) (s : Side) (p : Party) :
    handshake { n with party := Function.update n.party s p } =
      { handshake n with peer := Function.update (handshake n).peer s (peerOf p.pair) } := by
  simp only [handshake, Net.mk.injEq, and_true]
  funext t
  exact Function.apply_update (fun _ (p : Party) => peerOf p.pair) n.party s p t

theorem handshake_answer {dest : Side} {m : Message} {done : DeviceDone}
    (delivered : Delivered crypto ids dest (n.party dest) m done) :
    handshake (n.answer dest done) = (handshake n).receive dest m := by
  have answer : done.sent.toList.map messageOf = (react (peerOf (n.party dest).pair) m).2.toList := by
    rw [← delivered.answer]
    cases done.sent <;> rfl
  rw [Network.answer, handshake_send, handshake_party, delivered.peer, answer]
  rfl

theorem Inv.send {s : Side} {ds : List Bytes} (inv : Inv crypto ids n)
    (said : ∀ d ∈ ds, Said crypto ids s d) (agreed : Agreed (handshake (n.send s ds))) :
    Inv crypto ids (n.send s ds) := by
  refine ⟨inv.owns, inv.holds, ?_, agreed⟩
  refine (Function.forall_update_iff n.flight fun t ds => ∀ d ∈ ds, Said crypto ids t d).mpr
    ⟨?_, fun t _ => inv.said t⟩
  intro d member
  exact (List.mem_append.mp member).elim (inv.said s d) (said d)

theorem Inv.remove (inv : Inv crypto ids n) (s : Side) (k : Nat) : Inv crypto ids (n.remove s k) := by
  refine ⟨inv.owns, inv.holds, ?_, ?_⟩
  · refine (Function.forall_update_iff n.flight fun t ds => ∀ d ∈ ds, Said crypto ids t d).mpr
      ⟨?_, fun t _ => inv.said t⟩
    intro d member
    exact inv.said s d (List.mem_of_mem_eraseIdx member)
  · rw [handshake_remove]
    exact remove_agreed s k inv.agreed

theorem Inv.answer {dest : Side} {m : Message} {done : DeviceDone} (inv : Inv crypto ids n)
    (delivered : Delivered crypto ids dest (n.party dest) m done)
    (agreed : Agreed ((handshake n).receive dest m)) : Inv crypto ids (n.answer dest done) := by
  refine ⟨?_, ?_, ?_, handshake_answer delivered ▸ agreed⟩
  · exact (Function.forall_update_iff n.party fun t p => Owns ids t p.config).mpr
      ⟨delivered.owns, fun t _ => inv.owns t⟩
  · exact (Function.forall_update_iff n.party fun t p => Holds crypto ids t p.pair).mpr
      ⟨delivered.holds, fun t _ => inv.holds t⟩
  · refine (Function.forall_update_iff n.flight fun t ds => ∀ d ∈ ds, Said crypto ids t d).mpr
      ⟨?_, fun t _ => inv.said t⟩
    intro d member
    exact (List.mem_append.mp member).elim (inv.said dest d)
      fun new => delivered.said d (Option.mem_toList.mp new)

theorem pairRequest_said (owns : Owns ids .controller (n.party .controller).config)
    (holds : Holds crypto ids .controller (n.party .controller).pair) (random : PacketRandom) :
    ∃ d, pairRequest crypto (n.party .controller) random = .ok d ∧
      Said crypto ids .controller d ∧ messageOf d = .pairRequest := by
  let cp : ChatPacket := { chatPacketInit0 random with
    cmd := .pairRequest
    toUuid := (n.party .controller).pair.uuid
    fromUuid := (n.party .controller).config.uuid }
  have built : pairRequest crypto (n.party .controller) random =
      .ok (wire crypto cp (n.party .controller).pair) := by
    simp only [pairRequest, chatPacketInit, TagData.bytes, chatPacketEncode, encodeCommand_eq,
      Except.map, bind, Except.bind]
    rfl
  refine ⟨_, built, ⟨cp, (n.party .controller).pair, random.envelope, rfl, rfl, ⟨.inl rfl, ?_,
    owns.uuid, fun other => absurd rfl other⟩, holds.mynonce, holds.nullnonce, ?_⟩, ?_⟩
  · simp [cp]
  · simp [cp]
  · rw [messageOf, commandOf_wire, flagsOf_wire]
    rfl

def actOf : Action → Act
  | .request _ => .request
  | .deliver dest k _ => .deliver dest k
  | .lose s k => .lose s k
  | .duplicate s k => .duplicate s k

theorem request_inv (inv : Inv crypto ids n) (random : PacketRandom) :
    Inv crypto ids (n.next crypto (.request random)) ∧
      handshake (n.next crypto (.request random)) = (handshake n).next .request := by
  obtain ⟨d, built, said, message⟩ :=
    pairRequest_said (inv.owns .controller) (inv.holds .controller) random
  have phase : ((handshake n).peer .controller).phase = .paired ↔
      (n.party .controller).pair.state = .paired := phaseOf_paired
  by_cases paired : (n.party .controller).pair.state = .paired
  · have stays : n.next crypto (.request random) = n := if_neg (not_not.mpr paired)
    rw [stays, Net.next, if_neg (not_not.mpr (phase.mpr paired))]
    exact ⟨inv, rfl⟩
  · have sends : n.next crypto (.request random) = n.send .controller [d] := by
      simp only [Network.next, if_pos paired, built]
    have same : handshake (n.send .controller [d]) = (handshake n).next .request := by
      rw [handshake_send, Net.next, if_pos (mt phase.mp paired), List.map_singleton, message]
    rw [sends]
    refine ⟨inv.send (fun d' member => List.mem_singleton.mp member ▸ said) ?_, same⟩
    rw [same]
    exact next_agreed .request inv.agreed

theorem deliver_inv {dest : Side} {k : Nat} {d : Bytes} {done : DeviceDone}
    (inv : Inv crypto ids n) (under : (n.flight dest.other)[k]? = some d)
    (delivered : Delivered crypto ids dest (n.party dest) (messageOf d) done) :
    Inv crypto ids ((n.remove dest.other k).answer dest done) ∧
      handshake ((n.remove dest.other k).answer dest done) =
        (handshake n).next (.deliver dest k) := by
  have known : ((handshake n).flight dest.other)[k]? = some (messageOf d) := by
    simp [handshake, under]
  have step : (handshake n).next (.deliver dest k) =
      ((handshake n).remove dest.other k).receive dest (messageOf d) := by
    simp only [Net.next, known]
  have agreed := next_agreed (.deliver dest k) inv.agreed
  rw [step] at agreed ⊢
  rw [← handshake_remove] at agreed ⊢
  exact ⟨(inv.remove dest.other k).answer delivered agreed, handshake_answer delivered⟩

theorem Inv.delivers {dest : Side} {k : Nat} {d : Bytes} (commute : Commute crypto ids)
    (inv : Inv crypto ids n) (under : (n.flight dest.other)[k]? = some d) (callback : Option Callback)
    (w : World) (b : MsgBuffer) :
    (∀ done, chatFabricDevice crypto callback w (n.party dest) b d = .ok done →
        Delivered crypto ids dest (n.party dest) (messageOf d) done) ∧
      ((∀ m, w.alloc m = true) → ∃ fuel done,
        chatFabricDevice crypto callback { w with fuel := fuel } (n.party dest) b d = .ok done) := by
  have member := List.mem_of_getElem? under
  have backed := inv.agreed.flight dest.other (messageOf d) (List.mem_map_of_mem member)
  rw [Side.other_other] at backed
  refine chatFabricDevice_delivered commute ⟨inv.owns dest, inv.holds dest, inv.agreed.peers dest⟩
    (inv.said dest.other d member) (fun nonce => ?_) callback w b
  rw [messageOf, nonce] at backed
  exact backed.1.2

theorem next_inv (commute : Commute crypto ids) (inv : Inv crypto ids n) (a : Action) :
    Inv crypto ids (n.next crypto a) ∧
      (handshake (n.next crypto a) = (handshake n).next (actOf a) ∨ n.next crypto a = n) := by
  cases a with
  | request random => exact (request_inv inv random).imp id .inl
  | deliver dest k call =>
    simp only [Network.next]
    split
    · rename_i d under
      split
      · rename_i done run
        have delivered := (inv.delivers commute under _ _ _).1 done run
        exact (deliver_inv inv under delivered).imp id .inl
      · exact ⟨inv, .inr rfl⟩
    · exact ⟨inv, .inr rfl⟩
  | lose s k => exact ⟨inv.remove s k, .inl (handshake_remove n s k)⟩
  | duplicate s k =>
    have same : handshake (n.next crypto (.duplicate s k)) = (handshake n).next (.duplicate s k) := by
      simp only [Network.next, Net.next, handshake_send]
      congr 1
      simp only [handshake, List.getElem?_map]
      cases (n.flight s)[k]? <;> rfl
    refine ⟨inv.send (fun d member => inv.said s d ?_) ?_, .inl same⟩
    · exact List.mem_of_getElem? (Option.mem_toList.mp member)
    · rw [show n.send s (n.flight s)[k]?.toList = n.next crypto (.duplicate s k) from rfl, same]
      exact next_agreed _ inv.agreed

theorem run_inv (commute : Commute crypto ids) (inv : Inv crypto ids n) (inputs : List Action) :
    Inv crypto ids (run (Network.next crypto) n inputs) := by
  have keep : ∀ n a, Inv crypto ids n → Inv crypto ids (n.next crypto a) :=
    fun n a inv => (next_inv commute inv a).1
  exact run_invariant keep inv inputs

def willing (fuel : Nat) : Call :=
  ⟨none, ⟨default, default, fun _ => true, fun _ _ => ⟨0, 0, 0, 0, 0, 0, none, none⟩, ⟨true, true⟩,
    .sendReplyFalse, fuel⟩, default⟩

theorem next_complete (commute : Commute crypto ids) (inv : Inv crypto ids n) (dest : Side) (k : Nat) :
    ∃ fuel, handshake (n.next crypto (.deliver dest k (willing fuel))) =
      (handshake n).next (.deliver dest k) := by
  cases under : (n.flight dest.other)[k]? with
  | none =>
    refine ⟨0, ?_⟩
    have known : ((handshake n).flight dest.other)[k]? = none := by simpa [handshake] using under
    simp only [Network.next, Net.next, under, known]
  | some d =>
    obtain ⟨only, some⟩ := inv.delivers commute under none (willing 0).world default
    obtain ⟨fuel, done, run⟩ := some fun _ => rfl
    obtain ⟨only, _⟩ := inv.delivers commute under none (willing fuel).world default
    refine ⟨fuel, ?_⟩
    have step : n.next crypto (.deliver dest k (willing fuel)) =
        (n.remove dest.other k).answer dest done := by
      simp only [Network.next, under]
      rw [show chatFabricDevice crypto (willing fuel).callback (willing fuel).world (n.party dest)
        (willing fuel).buffer d = .ok done from run]
    rw [step]
    exact (deliver_inv inv under (only done run)).2

structure Fresh (crypto : Crypto) (ids : Side → Identity) (n : Network) : Prop where
  owns : ∀ s, Owns ids s (n.party s).config
  fresh : ∀ s, ∃ memory, (n.party s).pair = cfPairInit memory (ids s).mynonce
  nothing : ∀ s, n.flight s = []

theorem Fresh.handshake_eq (fresh : Fresh crypto ids n) : handshake n = Net.fresh := by
  simp only [handshake, Net.fresh, Net.mk.injEq]
  refine ⟨funext fun s => ?_, funext fun s => by simp [fresh.nothing s]⟩
  obtain ⟨memory, pair⟩ := fresh.fresh s
  rw [pair]
  rfl

theorem Fresh.inv (fresh : Fresh crypto ids n) : Inv crypto ids n where
  owns := fresh.owns
  holds s := by
    obtain ⟨memory, pair⟩ := fresh.fresh s
    rw [pair]
    exact ⟨rfl, rfl, rfl, fun configured => absurd rfl configured,
      fun flag => absurd flag (by decide : ¬(0 : UInt32) = 1),
      fun flag => absurd flag (by decide : ¬(0 : UInt32) = 1)⟩
  said s d member := by simp [fresh.nothing s] at member
  agreed := by
    rw [fresh.handshake_eq]
    exact fresh_agreed

end PairingNetwork
