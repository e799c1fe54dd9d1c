import ChatFabric.Controller
import ChatFabric.EspDevice

/- What the packets of a device and of a controller show. Behind the header a packet has one
   section at most, and that is sealed; so what it says in the clear is told by a few fields. -/
namespace ClearBytes
open ByteStrings TagStream ChatFabric

/-- The packets that are sent, with the packet and the record they are encoded from: replies,
    pair requests, and actions. -/
inductive Sends (crypto : Crypto) : ChatPacket → ChatFabricPairing → Bytes → Prop where
  | reply {callback : Option Callback} {w : World} {p : Party} {cp : ChatPacket} {o : Outcome}
      {sent : Party × Option Bytes × Option (Block 32 × Block 8)} {msg : Bytes}
      (ran : stateMachine crypto w.files p cp (chatPacketInit0 w.replyRandom) w.replyCmd = .ok o)
      (replied : sendReply crypto (runCallback callback cp o) = .ok sent)
      (there : sent.2.1 = some msg) :
      Sends crypto (runCallback callback cp o).reply (runCallback callback cp o).party.pair msg
  | request {p : Party} {random : PacketRandom} {cp : ChatPacket} {e : Encoded}
      (unpaired : p.pair.state ≠ .paired)
      (made : chatPacketInit p.config p.pair .pairRequest none 0 0 random = .ok cp)
      (encoded : chatPacketEncode crypto cp p.pair false .command = .ok e) :
      Sends crypto cp p.pair e.msg
  | action {p : Party} {a : ChatFabricAction} {said : Option Bytes} {b : MsgBuffer}
      {random : PacketRandom} {cp : ChatPacket} {e : Encoded} (paired : p.pair.state = .paired)
      (made : actionPacket p a said b random = .ok cp)
      (encoded : chatPacketEncode crypto (withControllerAction a cp) p.pair true .data = .ok e) :
      Sends crypto (withControllerAction a cp) p.pair e.msg

/-- The bytes outside of the section: the header, and the length and the tag in front of it. -/
def cleartext (type : PacketType) (msg : Bytes) : Bytes :=
  match type with
  | .command | .publickey => msg
  | .nonce | .data => msg.take 89

def sealedPart (type : PacketType) (msg : Bytes) : Bytes :=
  match type with
  | .command | .publickey => []
  | .nonce | .data => msg.drop 89

structure Shown where
  cmd : Command
  serial : UInt32
  flags : UInt32
  toUuid : UuidTuple
  fromUuid : UuidTuple
  publickey : Option (Block 32)
  sealedLength : Nat

/-- A DATA packet shows the next serial of the record, the others the one of the packet. -/
def shown (cp : ChatPacket) (pair : ChatFabricPairing) (msg : Bytes) : Shown where
  cmd := cp.cmd
  serial := if replyPacketType cp.cmd = .data then pair.serial + 1 else cp.serial
  flags := cp.flags
  toUuid := cp.toUuid
  fromUuid := cp.fromUuid
  publickey := if cp.cmd = .publickeySend then some cp.publickey else none
  sealedLength := (sealedPart (replyPacketType cp.cmd) msg).length

def clearBytes (s : Shown) : Bytes :=
  let header := messageBytes { chatPacketInit0 default with
    cmd := s.cmd
    serial := s.serial
    flags := s.flags
    toUuid := s.toUuid
    fromUuid := s.fromUuid }
  match replyPacketType s.cmd with
  | .command => header []
  | .publickey => header [tagData8 .publickey (s.publickey.map Subtype.val) 32]
  | .nonce => header [tagInt32 .envelopeLength (UInt32.ofNat s.sealedLength)] ++
      [Tag.encryptedEnvelope.toByte]
  | .data => header [tagInt32 .payloadLength (UInt32.ofNat s.sealedLength)] ++
      [Tag.encryptedPayload.toByte]

variable {crypto : Crypto} {cp : ChatPacket} {pair : ChatFabricPairing} {msg : Bytes}

theorem encodeMessage_section {room value length : UInt32} {lengthTag tag : Tag} {bytes : Bytes}
    (all : bytes.length = length.toNat) (tight : room.toNat ≤ 89 + length.toNat)
    (run : encodeMessage cp room
      [tagInt32 lengthTag value, tagData8 tag (some bytes) length] = .ok msg) :
    msg = messageBytes cp [tagInt32 lengthTag value] ++ [tag.toByte] ++ bytes ∧
      (messageBytes cp [tagInt32 lengthTag value] ++ [tag.toByte]).length = 89 := by
  have size := (headerFields_fills cp).append (.int32 lengthTag value) |>.size
  change (messageBytes cp [tagInt32 lengthTag value]).length = 88 at size
  have whole : bytes.take length.toNat = bytes := List.take_of_length_le (Nat.le_of_eq all)
  simp only [encodeMessage, Except.map] at run
  split at run <;> cases run
  rename_i ob filled
  obtain ⟨room', out, inside⟩ := encodeFields_written (Nat.zero_le _) filled
  have layout : fieldBytes (plainFields (headerFields cp ++
      [tagInt32 lengthTag value, tagData8 tag (some bytes) length])) =
        messageBytes cp [tagInt32 lengthTag value] ++ [tag.toByte] ++ bytes := by
    simp [messageBytes, plainFields, fieldBytes, tagData8, TagData.plain, whole]
  rw [layout] at out
  have full : ob.out.length = 89 + length.toNat := by
    simp only [out, OutBuf.calloc, List.nil_append, List.length_append, size, List.length_singleton,
      all]
  have none : ob.room - ob.out.length = 0 := by
    simp only [OutBuf.calloc] at room'
    omega
  constructor
  · rw [OutBuf.msg, none, out]
    simp [OutBuf.calloc]
  · simp [size]

structure Parts (crypto : Crypto) (cp : ChatPacket) (pair : ChatFabricPairing) (msg : Bytes) : Prop where
  clear : cleartext (replyPacketType cp.cmd) msg = clearBytes (shown cp pair msg)
  sealed : sealedPart (replyPacketType cp.cmd) msg = [] ∨
    ∃ nonce plain, sealedPart (replyPacketType cp.cmd) msg =
      sealBytes crypto pair.sharedkey nonce plain

theorem publickey_type {cmd : Command} (type : replyPacketType cmd = .publickey) :
    cmd = .publickeySend := by
  unfold replyPacketType at type
  split at type
  all_goals first | rfl | cases type

theorem command_parts (type : replyPacketType cp.cmd = .command)
    (encoded : encodeCommand cp = .ok msg) : Parts crypto cp pair msg := by
  rw [encodeCommand_eq] at encoded
  cases encoded
  constructor
  · simp only [cleartext, type, clearBytes, shown]
    rfl
  · left
    rw [type]
    rfl

theorem publickey_parts (type : replyPacketType cp.cmd = .publickey)
    (encoded : encodePublickey cp = .ok msg) : Parts crypto cp pair msg := by
  rw [encodePublickey_eq] at encoded
  cases encoded
  have cmd := publickey_type type
  constructor
  · simp only [cleartext, clearBytes, shown, cmd, replyPacketType]
    simp only [messageBytes, headerFields, cmd]
    rfl
  · left
    rw [type]
    rfl

theorem nonce_parts (type : replyPacketType cp.cmd = .nonce)
    (encoded : encodeNonce crypto cp pair true = .ok msg) : Parts crypto cp pair msg := by
  simp only [encodeNonce, Except.map, bind, Except.bind, if_true] at encoded
  cases filled : encodeFields (.calloc envelopeRoom.toNat) (envelopeFields cp pair) with
  | error stop => simp [filled] at encoded
  | ok envelope =>
    obtain ⟨room, _, inside⟩ := encodeFields_written (Nat.zero_le _) filled
    simp only [filled] at encoded
    have size : (sealBytes crypto pair.sharedkey pair.nullnonce envelope.msg).length =
        (envelopeRoom + 16).toNat := by
      rw [length_sealBytes, length_msg inside, room]
      rfl
    obtain ⟨rfl, front⟩ := encodeMessage_section size (by decide) encoded
    have behind : List.drop 89 _ = sealBytes crypto pair.sharedkey pair.nullnonce envelope.msg :=
      List.drop_left' front
    have before : List.take 89 (_ ++ sealBytes crypto pair.sharedkey pair.nullnonce envelope.msg) = _ :=
      List.take_left' front
    constructor
    · simp only [cleartext, clearBytes, shown, sealedPart, type, behind, before, size]
      rfl
    · right
      simp only [sealedPart, type, behind]
      exact ⟨_, _, rfl⟩

/-- A DATA packet has all that its packet was filled with, in the section: the fields of the
    action, the control table and the payload. -/
def CarriesContent (crypto : Crypto) (cp : ChatPacket) (pair : ChatFabricPairing) (msg : Bytes) :
    Prop :=
  ∃ controls plain nonce, listedControls cp = .ok controls ∧
    encodeFields (.calloc (plainLength cp controls).toNat) (payloadFields cp controls true) = .ok plain ∧
    sealedPart .data msg = sealBytes crypto pair.sharedkey nonce plain.msg

theorem data_parts (type : replyPacketType cp.cmd = .data) {e : Encoded}
    (encoded : encodeData crypto cp pair true = .ok e) :
    Parts crypto cp pair e.msg ∧ CarriesContent crypto cp pair e.msg := by
  obtain ⟨controls, payload, seals⟩ := encodeData_seals encoded
  obtain ⟨msg, pair', session⟩ := e
  have size := seals.size
  have header : headerLength.toNat = 83 := rfl
  obtain ⟨rfl, front⟩ := encodeMessage_section size (by
    simp only [UInt32.toNat_add, header, UInt32.reduceToNat]
    omega) seals.message
  have behind : List.drop 89 _ = sealBytes crypto pair.sharedkey
      (chatPacketCalcNonce (pair.serial + 1) pair.nonce) payload.msg := List.drop_left' front
  have before : List.take 89 (_ ++ sealBytes crypto pair.sharedkey
      (chatPacketCalcNonce (pair.serial + 1) pair.nonce) payload.msg) = _ :=
    List.take_left' front
  refine ⟨⟨?_, .inr ?_⟩, controls, payload, _, seals.listed, seals.filled, behind⟩
  · simp only [cleartext, clearBytes, shown, sealedPart, type, behind, before, size, UInt32.ofNat_toNat]
    rfl
  · simp only [sealedPart, type, behind]
    exact ⟨_, _, rfl⟩

theorem encode_parts {type : PacketType} {e : Encoded} (typed : replyPacketType cp.cmd = type)
    (encoded : chatPacketEncode crypto cp pair true type = .ok e) : Parts crypto cp pair e.msg := by
  cases type with
  | command =>
    rw [chatPacketEncode, encodeCommand_eq] at encoded
    cases encoded
    exact command_parts typed (encodeCommand_eq cp)
  | publickey =>
    rw [chatPacketEncode, encodePublickey_eq] at encoded
    cases encoded
    exact publickey_parts typed (encodePublickey_eq cp)
  | nonce =>
    cases made : encodeNonce crypto cp pair true with
    | error f => simp [chatPacketEncode, made, Except.map] at encoded
    | ok msg =>
      simp only [chatPacketEncode, made, Except.map] at encoded
      cases encoded
      exact nonce_parts typed made
  | data => exact (data_parts typed encoded).1

theorem sendReply_encodes {o : Outcome} {sent : Party × Option Bytes × Option (Block 32 × Block 8)}
    (replied : sendReply crypto o = .ok sent) (there : sent.2.1 = some msg) :
    o.replyCmd = .sendReplyTrue ∧ ∃ e, e.msg = msg ∧
      chatPacketEncode crypto o.reply o.party.pair true (replyPacketType o.reply.cmd) = .ok e := by
  unfold sendReply at replied
  split at replied
  · rename_i asks
    cases made : chatPacketEncode crypto o.reply o.party.pair true (replyPacketType o.reply.cmd) with
    | error f => simp [made, bind, Except.bind] at replied
    | ok e =>
      simp only [made, bind, Except.bind] at replied
      cases replied
      exact ⟨asks, e, Option.some.inj there, rfl⟩
  · cases replied
    cases there

theorem action_type {a : ChatFabricAction} : replyPacketType (actionCommand a) = .data := by
  unfold actionCommand
  repeat' split
  all_goals rfl

/-- Every packet that is sent is in the clear what it shows; the rest of it is sealed. -/
theorem sends_parts (sends : Sends crypto cp pair msg) : Parts crypto cp pair msg := by
  cases sends with
  | reply ran replied there =>
    obtain ⟨_, e, rfl, encoded⟩ := sendReply_encodes replied there
    exact encode_parts rfl encoded
  | request unpaired made encoded =>
    obtain ⟨_, _, rfl⟩ := chatPacketInit_init0 made
    rw [chatPacketEncode, encodeCommand_eq] at encoded
    cases encoded
    exact command_parts rfl (encodeCommand_eq _)
  | @action p a said b random cp e paired made encoded =>
    obtain ⟨payload, length, init⟩ := actionPacket_init made
    obtain ⟨_, _, rfl⟩ := chatPacketInit_init0 init
    exact (data_parts (action_type (a := a)) encoded).1

def Filled (cp : ChatPacket) : Prop :=
  cp.payload ≠ none ∨ cp.payloadLength ≠ 0 ∨ cp.action ≠ actionNull ∨ cp.controlers ≠ none ∨
    cp.numOfControllers ≠ 0

theorem pairSwitch_filled (crypto : Crypto) (config : ChatFabricConfig) (cp : ChatPacket)
    (pair : ChatFabricPairing) (reply : ChatPacket) :
    (pairSwitch crypto config cp pair reply).reply.cmd = .appListAck ∨
      (Filled (pairSwitch crypto config cp pair reply).reply ↔ Filled reply) := by
  cases cmd : cp.cmd with
  | appList =>
    simp only [pairSwitch, cmd]
    split
    · exact .inl rfl
    · exact .inr .rfl
  | publickeyAck | publickeyRequest =>
    right
    simp only [pairSwitch, cmd, publickeyRequest]
    repeat' split
    all_goals exact .rfl
  | _ =>
    right
    simp only [pairSwitch, cmd]
    repeat' split
    all_goals exact .rfl

section filled
variable {files : FileAccess} {p : Party} {reply : ChatPacket} {replyCmd : Command} {o : Outcome}

theorem stateMachine_filled (empty : ¬ Filled reply) (here : misaddressed p.config cp = false)
    (ran : stateMachine crypto files p cp reply replyCmd = .ok o) (filled : Filled o.reply) :
    replyPacketType o.reply.cmd = .data := by
  rcases stateMachine_cases ran with ⟨elsewhere, _⟩ | ⟨_, handled, switched, rfl⟩
  · simp [here] at elsewhere
  cases commandSwitch_commanded switched with
  | get cmd => rfl
  | set cmd config read => rfl
  | pair notGet notSet =>
    rcases pairSwitch_filled crypto p.config cp p.pair
        { reply with toUuid := cp.fromUuid, fromUuid := p.config.uuid } with list | same
    · simp only [list]
      rfl
    · exact absurd (same.mp filled) empty

theorem stateMachine_app_type (here : misaddressed p.config cp = false) (app : appCommand cp.cmd)
    (ran : stateMachine crypto files p cp reply replyCmd = .ok o)
    (asks : o.replyCmd = .sendReplyTrue) : replyPacketType o.reply.cmd = .data := by
  have cmd : cp.cmd = .appMessage ∨ cp.cmd = .appMessageAck ∨ cp.cmd = .appList ∨
      cp.cmd = .appListAck := by simpa [appCommand] using app
  have notGet : cp.cmd ≠ .configGet := by rcases cmd with cmd | cmd | cmd | cmd <;> simp [cmd]
  have notSet : cp.cmd ≠ .configSet := by rcases cmd with cmd | cmd | cmd | cmd <;> simp [cmd]
  rw [stateMachine_pair here notGet notSet] at ran
  cases ran
  rcases cmd with cmd | cmd | cmd | cmd
  · by_cases paired : p.pair.state = .paired
    · simp [pairSwitch, cmd, paired, replyPacketType]
    · simp [pairSwitch, cmd, paired] at asks
  · simp [pairSwitch, cmd] at asks
  · by_cases paired : p.pair.state = .paired
    · simp [pairSwitch, cmd, paired, replyPacketType]
    · simp [pairSwitch, cmd, paired] at asks
  · simp [pairSwitch, cmd] at asks

end filled

/-- The callbacks of the programs: none at all, the device's, the controller's, and that of the
    ESP8266 firmware on whatever panel. -/
inductive ProgramCallback : Option Callback → Prop where
  | none : ProgramCallback none
  | device : ProgramCallback (some deviceCallBack)
  | controller : ProgramCallback (some controllerCallBack)
  | chip (panel : Esp8266.Panel) : ProgramCallback (some (Esp8266.deviceCallBack panel))

theorem actOn_cmd (panel : Esp8266.Panel) (cp : ChatPacket) (c : CfControl) (reply : ChatPacket) :
    (Esp8266.actOn panel cp c reply).2.cmd = reply.cmd := by
  unfold Esp8266.actOn
  repeat' split
  all_goals rfl

theorem chipLoop_cmd (panel : Esp8266.Panel) (cp : ChatPacket) (controls : List CfControl)
    (reply : ChatPacket) :
    (Esp8266.deviceCallBackLoop panel cp controls reply).2.cmd = reply.cmd := by
  induction controls generalizing reply with
  | nil => rfl
  | cons c rest ih => rw [Esp8266.deviceCallBackLoop, ih, actOn_cmd]

theorem callback_keeps {callback : Option Callback} (program : ProgramCallback callback)
    (cp : ChatPacket) (o : Outcome) :
    (runCallback callback cp o).replyCmd = o.replyCmd ∧
      (runCallback callback cp o).reply.cmd = o.reply.cmd := by
  cases program with
  | none => exact ⟨rfl, rfl⟩
  | device => exact ⟨(runCallback_device cp o).replyCmd, (runCallback_device cp o).cmd⟩
  | controller =>
    simp only [runCallback]
    split
    · simp only [controllerCallBack]
      split <;> exact ⟨rfl, rfl⟩
    · exact ⟨rfl, rfl⟩
  | chip panel =>
    simp only [runCallback]
    split
    · exact ⟨rfl, chipLoop_cmd panel cp o.party.config.controlers o.reply⟩
    · exact ⟨rfl, rfl⟩

theorem filled_data {callback : Option Callback} (program : ProgramCallback callback) {w : World}
    {p : Party} {o : Outcome} (here : misaddressed p.config cp = false)
    (ran : stateMachine crypto w.files p cp (chatPacketInit0 w.replyRandom) w.replyCmd = .ok o)
    (asks : (runCallback callback cp o).replyCmd = .sendReplyTrue)
    (filled : Filled (runCallback callback cp o).reply) :
    replyPacketType (runCallback callback cp o).reply.cmd = .data := by
  obtain ⟨replyCmd, cmd⟩ := callback_keeps program cp o
  cases runs : callbackRuns callback o.party.pair cp with
  | false =>
    rw [runCallback_idle o runs] at filled ⊢
    exact stateMachine_filled (by simp [Filled, chatPacketInit0]) here ran filled
  | true =>
    simp only [callbackRuns, decide_eq_true_eq] at runs
    rw [cmd]
    exact stateMachine_app_type here runs.2.2 ran (replyCmd.symm.trans asks)

/-- What the two programs keep out of the clear: what they send are packets of the three
    kinds; two that show the same have the same bytes in the clear, and the rest is sealed; and
    what an answer to the peer was filled with is in its section. -/
structure Discreet (crypto : Crypto) : Prop where
  device : ∀ callback w p b datagram done msg,
    chatFabricDevice crypto callback w p b datagram = .ok done → done.sent = some msg →
      ∃ cp pair, Sends crypto cp pair msg
  controller : ∀ p a said b random e, chatFabricController crypto p a said b random = .ok e →
    ∃ cp pair, Sends crypto cp pair e.msg
  clear : ∀ cp pair msg cp' pair' msg', Sends crypto cp pair msg → Sends crypto cp' pair' msg' →
    shown cp pair msg = shown cp' pair' msg' →
      cleartext (replyPacketType cp.cmd) msg = cleartext (replyPacketType cp'.cmd) msg'
  sealed : ∀ cp pair msg, Sends crypto cp pair msg →
    cleartext (replyPacketType cp.cmd) msg ++ sealedPart (replyPacketType cp.cmd) msg = msg ∧
      (sealedPart (replyPacketType cp.cmd) msg = [] ∨
        ∃ nonce plain, sealedPart (replyPacketType cp.cmd) msg =
          sealBytes crypto pair.sharedkey nonce plain)
  content : ∀ callback, ProgramCallback callback → ∀ (w : World) (p : Party) cp o sent msg,
    misaddressed p.config cp = false →
    stateMachine crypto w.files p cp (chatPacketInit0 w.replyRandom) w.replyCmd = .ok o →
    sendReply crypto (runCallback callback cp o) = .ok sent → sent.2.1 = some msg →
    Filled (runCallback callback cp o).reply →
      replyPacketType (runCallback callback cp o).reply.cmd = .data ∧
        CarriesContent crypto (runCallback callback cp o).reply
          (runCallback callback cp o).party.pair msg

theorem cleartext_sealedPart (type : PacketType) (msg : Bytes) :
    cleartext type msg ++ sealedPart type msg = msg := by
  cases type <;> simp [cleartext, sealedPart]

theorem programs_discreet (crypto : Crypto) : Discreet crypto where
  device := by
    intro callback w p b datagram done msg run there
    obtain ⟨cp, received, _, handled⟩ := chatFabricDevice_ok_iff.mp run
    obtain ⟨o, sent, ran, replied, rfl⟩ := handlePacket_ok handled
    exact ⟨_, _, .reply ran replied there⟩
  controller := by
    intro p a said b random e run
    by_cases paired : p.pair.state = .paired
    · obtain ⟨cp, made, encoded⟩ := chatFabricController_ok paired run
      exact ⟨_, _, .action paired made encoded⟩
    · unfold chatFabricController at run
      rw [if_pos paired] at run
      cases made : chatPacketInit p.config p.pair .pairRequest none 0 0 random with
      | error f => simp [made, bind, Except.bind] at run
      | ok cp =>
        simp only [made, bind, Except.bind] at run
        exact ⟨_, _, .request paired made run⟩
  clear := by
    intro cp pair msg cp' pair' msg' sends sends' same
    rw [(sends_parts sends).clear, (sends_parts sends').clear, same]
  sealed := by
    intro cp pair msg sends
    exact ⟨cleartext_sealedPart _ _, (sends_parts sends).sealed⟩
  content := by
    intro callback program w p cp o sent msg here ran replied there filled
    obtain ⟨asks, e, rfl, encoded⟩ := sendReply_encodes replied there
    have type := filled_data program here ran asks filled
    rw [type] at encoded
    exact ⟨type, (data_parts type encoded).2⟩

end ClearBytes
