import ChatFabric.DataPackets
import ChatFabric.EncodeRoom

/- The round trip of the packets without a table of controls and without action data, of
   all four types, at a receiver that holds the key and the nonces of the sender. -/
namespace PacketRoundTrip
open ByteStrings WhileLoop TagStream ChatFabric EncodeRoom

/-- A packet from one of the constructors, whatever other fields its maker has set. -/
structure Built (cp : ChatPacket) : Prop where
  envelopePadding : Padded cp.envelopeRandomPaddingLength
  payloadPadding : Padded cp.payloadRandomPaddingLength
  payload : 0 < cp.payloadLength → ∃ s, cp.payload = some s ∧ cp.payloadLength.toNat ≤ s.length

theorem lengthByte_padded (pad : Padding) : Padded pad.lengthByte := by
  have bounds := pad.h_bounds
  rw [Padded, pad.h_lengthByte, pad.l_lengthByte]
  simp only [Padding.l]
  omega

theorem chatPacketInit0_built (random : PacketRandom) : Built (chatPacketInit0 random) where
  envelopePadding := lengthByte_padded random.envelope
  payloadPadding := lengthByte_padded random.payload
  payload some := absurd some (by simp [chatPacketInit0])

theorem length_copied {payload : Option Bytes} {len : UInt32} {bytes : Bytes}
    (copied : TagData.bytes (.data8 payload len) = .ok bytes) : bytes.length = len.toNat := by
  cases payload with
  | some s =>
    simp only [TagData.bytes] at copied
    split at copied
    · cases copied
      simpa using ‹_›
    · cases copied
  | none =>
    simp only [TagData.bytes] at copied
    split at copied
    · rename_i zero
      cases copied
      simp [zero]
    · cases copied

theorem chatPacketInit_built {config : ChatFabricConfig} {pair : ChatFabricPairing} {cmd : Command}
    {payload : Option Bytes} {len flags : UInt32} {random : PacketRandom} {cp : ChatPacket}
    (made : chatPacketInit config pair cmd payload len flags random = .ok cp) : Built cp := by
  obtain ⟨bytes, copied, rfl⟩ := chatPacketInit_init0 made
  refine ⟨lengthByte_padded random.envelope, lengthByte_padded random.payload, fun some => ?_⟩
  have nonzero : len ≠ 0 := by
    rintro rfl
    simp at some
  exact ⟨bytes, by simp [nonzero], Nat.le_of_eq (length_copied copied).symm⟩

/-- What is sent: no table and no action data, and sealed where the type can be. -/
def Unburdened (cp : ChatPacket) (encrypted : Bool) : PacketType → Prop
  | .command | .publickey => True
  | .nonce => encrypted = true
  | .data => encrypted = true ∧ ¬ 0 < cp.numOfControllers ∧ (cp.action ≠ 0 → cp.actionLength = 0)

structure SharesKeys (sender receiver : ChatFabricPairing) : Prop where
  sharedkey : receiver.sharedkey = sender.sharedkey
  nullnonce : receiver.nullnonce = sender.nullnonce
  nonce : receiver.mynonce = sender.nonce

/-- The encoder gives a DATA packet the next serial of the record. -/
def sentSerial (cp : ChatPacket) (sender : ChatFabricPairing) : PacketType → UInt32
  | .data => sender.serial + 1
  | _ => cp.serial

structure Recovered (cp : ChatPacket) (sender : ChatFabricPairing) (type : PacketType)
    (got : ChatPacket) : Prop where
  cmd : got.cmd = cp.cmd
  flags : got.flags = cp.flags
  serial : got.serial = sentSerial cp sender type
  toUuid : got.toUuid = cp.toUuid
  fromUuid : got.fromUuid = cp.fromUuid
  publickey : type = .publickey → got.publickey = cp.publickey
  nonce : type = .nonce → got.nonce = sender.mynonce
  payloadLength : type = .data → got.payloadLength = cp.payloadLength
  payload : type = .data → (got.payload.getD []).take cp.payloadLength.toNat =
    (cp.payload.getD []).take cp.payloadLength.toNat
  action : type = .data → cp.action ≠ 0 → got.action = cp.action ∧
    got.actionControl = cp.actionControl ∧ got.actionType = cp.actionType ∧
    got.actionValue = cp.actionValue ∧ got.actionLength = 0

variable {crypto : Crypto} {cp : ChatPacket} {sender receiver : ChatFabricPairing}

theorem ahead_whole (b : Bytes) (cp : ChatPacket) (allocs : Nat) :
    Ahead b b.length (.start cp allocs) b :=
  ⟨⟨[], (List.append_nil b).symm⟩, Nat.zero_add _⟩

theorem frontReadable (env : DecodeEnv) (tableless : ¬ 0 < cp.numOfControllers)
    (dataless : cp.action ≠ 0 → cp.actionLength = 0) : FrontReadable env cp [] where
  action action some := absurd some (by simp [dataless action])
  actionMemory action some := absurd some (by simp [dataless action])
  tableMemory some := absurd some tableless

theorem sound (built : Built cp) (tableless : ¬ 0 < cp.numOfControllers)
    (dataless : cp.action ≠ 0 → cp.actionLength = 0) {pad : Padding}
    (padding : cp.payloadRandomPaddingLength = pad.lengthByte) : Sound cp pad [] where
  padding := padding
  listed := if_neg tableless
  payload := built.payload
  actionData action some := absurd some (by simp [dataless action])
  backed := by simp

theorem withPlain_eq (env : DecodeEnv) (q : ChatPacket) (n : Nat) (tableless : ¬ 0 < cp.numOfControllers)
    (dataless : cp.action ≠ 0 → cp.actionLength = 0) :
    withPlain env q cp [] n = { q with
      payloadLength := cp.payloadLength
      payload := if 0 < cp.payloadLength then
        some ((cp.payload.getD []).take cp.payloadLength.toNat ++
          (q.payload.getD []).drop cp.payloadLength.toNat) else q.payload
      action := if cp.action ≠ 0 then cp.action else q.action
      actionControl := if cp.action ≠ 0 then cp.actionControl else q.actionControl
      actionType := if cp.action ≠ 0 then cp.actionType else q.actionType
      actionValue := if cp.action ≠ 0 then cp.actionValue else q.actionValue
      actionLength := if cp.action ≠ 0 then 0 else q.actionLength } := by
  unfold withPlain withPayload withFront withTable
  rw [if_neg tableless]
  by_cases action : cp.action ≠ 0
  · simp only [withActionData, withAction, if_pos action, dataless action]
    split <;> rfl
  · simp only [withActionData, if_neg action]
    split <;> rfl

theorem content_recovered (env : DecodeEnv) (random : PacketRandom) {length : UInt32} (n : Nat)
    {got : ChatPacket} (built : Built cp) (tableless : ¬ 0 < cp.numOfControllers)
    (dataless : cp.action ≠ 0 → cp.actionLength = 0)
    (same : got.content = (withPlain env (sectionPacket env (chatPacketInit0 random) 0
      { cp with serial := sender.serial + 1 } length) cp [] n).content) :
    Recovered cp sender .data got := by
  rw [withPlain_eq env _ n tableless dataless] at same
  have word {α : Type} (f : ChatPacket → α) := congrArg f same
  constructor
  · exact word (·.cmd)
  · exact word (·.flags)
  · exact word (·.serial)
  · exact word (·.toUuid)
  · exact word (·.fromUuid)
  · simp
  · simp
  · exact fun _ => word (·.payloadLength)
  · intro _
    have payload := word (·.payload)
    simp only [ChatPacket.content] at payload
    rw [payload]
    by_cases some : 0 < cp.payloadLength
    · obtain ⟨v, here, enough⟩ := built.payload some
      simp [some, here, enough]
    · have zero : cp.payloadLength.toNat = 0 := by
        simpa [UInt32.lt_iff_toNat_lt] using some
      simp [zero]
  · intro _ action
    exact ⟨(word (·.action)).trans (if_pos action), (word (·.actionControl)).trans (if_pos action),
      (word (·.actionType)).trans (if_pos action), (word (·.actionValue)).trans (if_pos action),
      (word (·.actionLength)).trans (if_pos action)⟩

theorem action_recovered (env : DecodeEnv) (random : PacketRandom) {length : UInt32} (n : Nat)
    {got : ChatPacket} (tableless : ¬ 0 < cp.numOfControllers)
    (dataless : cp.action ≠ 0 → cp.actionLength = 0)
    (same : got.content = (withPlain env (sectionPacket env (chatPacketInit0 random) 0
      { cp with serial := sender.serial + 1 } length) cp [] n).content) :
    got.action = cp.action := by
  rw [withPlain_eq env _ n tableless dataless] at same
  have word : got.action = if cp.action ≠ 0 then cp.action else 0 := congrArg ChatPacket.action same
  rw [word]
  split
  · rfl
  · rename_i none
    exact (not_not.mp none).symm

theorem letter_recovered {fresh got : ChatPacket} (serial : got.serial = cp.serial)
    (letter : got.letter = { (withHeader fresh cp).letter with nonce := sender.mynonce }) :
    Recovered cp sender .nonce got where
  cmd := congrArg Letter.cmd letter
  flags := congrArg Letter.flags letter
  serial := serial
  toUuid := congrArg Letter.toUuid letter
  fromUuid := congrArg Letter.fromUuid letter
  publickey := by simp
  nonce _ := congrArg Letter.nonce letter
  payloadLength := by simp
  payload := by simp
  action := by simp

def Comes (env : DecodeEnv) (random : PacketRandom) (msg : Bytes) (good : ChatPacket → Prop) : Prop :=
  ∃ fuel, ((∃ n, env.alloc n = false) ∧
      chatPacketDecode env fuel (chatPacketInit0 random) 0 msg msg.length = .fault .nullPointer) ∨
    ∃ got allocs, chatPacketDecode env fuel (chatPacketInit0 random) 0 msg msg.length =
      .returned 0 got allocs ∧ good got

theorem command_comes (env : DecodeEnv) (random : PacketRandom) (cp : ChatPacket)
    (sender : ChatFabricPairing) :
    Comes env random (messageBytes cp []) (Recovered cp sender .command) := by
  have length : (messageBytes cp []).length = 83 := length_messageBytes .nil
  obtain ⟨fuel, run⟩ := decodes_command (Nat.le_refl _) (by omega) env
    (ahead_whole (messageBytes cp []) (chatPacketInit0 random) 0)
  refine ⟨fuel, .inr ⟨_, _, run, ?_⟩⟩
  constructor <;> simp [withHeader, sentSerial]

theorem publickey_comes (env : DecodeEnv) (random : PacketRandom) (cp : ChatPacket)
    (sender : ChatFabricPairing) :
    Comes env random (messageBytes cp [tagData8 .publickey (some cp.publickey.val) 32])
      (Recovered cp sender .publickey) := by
  have length : (messageBytes cp [tagData8 .publickey (some cp.publickey.val) 32]).length = 116 :=
    length_messageBytes (.data8 .publickey (by simp))
  obtain ⟨fuel, run⟩ := decodes_publickey (Nat.le_refl _) (by
      rw [length]
      decide) env (ahead_whole _ (chatPacketInit0 random) 0)
  refine ⟨fuel, .inr ⟨_, _, run, ?_⟩⟩
  constructor <;> simp [withHeader, sentSerial]

theorem nonce_comes {env : DecodeEnv} {pad : Padding}
    (padding : cp.envelopeRandomPaddingLength = pad.lengthByte) (keys : SharesKeys sender env.pair)
    (random : PacketRandom) :
    Comes env random (messageBytes cp (nonceFields env.crypto cp sender))
      (Recovered cp sender .nonce) := by
  have length : (messageBytes cp (nonceFields env.crypto cp sender)).length = 134 :=
    length_messageBytes (nonceFields_fills env.crypto padding sender)
  obtain ⟨fuel, ⟨none, run⟩ | ⟨got, allocs, run, letter, serial, _⟩⟩ :=
    decodes_nonce (Nat.le_refl _) (by
      rw [length]
      decide) env padding keys.sharedkey keys.nullnonce (ahead_whole _ (chatPacketInit0 random) 0)
  · exact ⟨fuel, .inl ⟨none, run⟩⟩
  · exact ⟨fuel, .inr ⟨got, allocs, run, letter_recovered serial letter⟩⟩

theorem data_comes {env : DecodeEnv} (built : Built cp) (tableless : ¬ 0 < cp.numOfControllers)
    (dataless : cp.action ≠ 0 → cp.actionLength = 0) {pad : Padding}
    (padding : cp.payloadRandomPaddingLength = pad.lengthByte) (keys : SharesKeys sender env.pair)
    (size : plainSize cp [] + 105 < 2 ^ 31) (random : PacketRandom) :
    Comes env random (sealedMessage env.crypto cp sender []) (Recovered cp sender .data) := by
  have sound := sound built tableless dataless padding
  have length := length_sealedMessage sound (by omega) env.crypto sender
  obtain ⟨fuel, ⟨none, run⟩ | ⟨ret, got, allocs, n, run, ends⟩⟩ :=
    decodes_sealed (Nat.le_refl _)
      (show (sealedMessage env.crypto cp sender []).length < 2 ^ 32 by omega) env sound
      (frontReadable _ tableless dataless) (by simp) (by omega) keys.sharedkey keys.nonce rfl
      (ahead_whole _ (chatPacketInit0 random) 0)
  · exact ⟨fuel, .inl ⟨none, run⟩⟩
  · obtain ⟨rfl, same⟩ := ends
    exact ⟨fuel, .inr ⟨got, allocs, run, content_recovered _ random n built tableless dataless same⟩⟩

/-- Every packet of these kinds is encoded, and where the decoder has the memory it asks for it
    returns 0 with what was sent. -/
theorem packet_recovered (crypto : Crypto) (cp : ChatPacket) (sender receiver : ChatFabricPairing)
    (encrypted : Bool) (type : PacketType) (built : Built cp) (kind : Unburdened cp encrypted type)
    (keys : SharesKeys sender receiver) (small : messageSize cp [] encrypted type < 2 ^ 31)
    (random : PacketRandom) (alloc : Nat → Bool) (junk : Nat → Nat → CfControl) :
    ∃ e, chatPacketEncode crypto cp sender encrypted type = .ok e ∧
      e.msg.length = messageSize cp [] encrypted type ∧
      ∃ fuel, ((∃ n, alloc n = false) ∧
          chatPacketDecode ⟨crypto, receiver, alloc, junk⟩ fuel (chatPacketInit0 random) 0 e.msg
            e.msg.length = .fault .nullPointer) ∨
        ∃ got allocs, chatPacketDecode ⟨crypto, receiver, alloc, junk⟩ fuel (chatPacketInit0 random) 0
          e.msg e.msg.length = .returned 0 got allocs ∧ Recovered cp sender type got := by
  cases type with
  | command =>
    refine ⟨⟨messageBytes cp [], sender, none⟩, ?_, length_messageBytes .nil,
      command_comes ⟨crypto, receiver, alloc, junk⟩ random cp sender⟩
    simp only [chatPacketEncode, encodeCommand_eq, Except.map]
  | publickey =>
    refine ⟨⟨messageBytes cp [tagData8 .publickey (some cp.publickey.val) 32], sender, none⟩, ?_,
      length_messageBytes (.data8 .publickey (by simp)),
      publickey_comes ⟨crypto, receiver, alloc, junk⟩ random cp sender⟩
    simp only [chatPacketEncode, encodePublickey_eq, Except.map]
  | nonce =>
    subst kind
    obtain ⟨pad, padding⟩ := built.envelopePadding.split
    have comes : Comes ⟨crypto, receiver, alloc, junk⟩ random _ _ := nonce_comes padding keys random
    refine ⟨⟨messageBytes cp (nonceFields crypto cp sender), sender, none⟩, ?_,
      length_messageBytes (nonceFields_fills crypto padding sender), comes⟩
    simp only [chatPacketEncode, encodeNonce_eq padding, Except.map]
  | data =>
    obtain ⟨rfl, tableless, dataless⟩ := kind
    obtain ⟨pad, padding⟩ := built.payloadPadding.split
    have sound := sound built tableless dataless padding
    have size : plainSize cp [] + 105 < 2 ^ 31 := by
      simp only [messageSize, if_true] at small
      omega
    have comes : Comes ⟨crypto, receiver, alloc, junk⟩ random _ _ :=
      data_comes built tableless dataless padding keys size random
    refine ⟨_, encodeData_sealed sound (by omega) crypto sender, ?_, comes⟩
    have length := length_sealedMessage sound (by omega) crypto sender
    simp only [messageSize, length, if_true]
    omega

theorem greeting_built : Built greeting :=
  ⟨lengthByte_padded _, lengthByte_padded _, greeting_supplied.payload⟩

theorem packet_recovered_greeting :
    ∃ e, chatPacketEncode default greeting default true .data = .ok e ∧ e.msg.length = 133 ∧
      ∃ fuel, ((∃ n : Nat, (fun _ => true) n = false) ∧
          chatPacketDecode ⟨default, default, fun _ => true, fun _ _ => ⟨0, 0, 0, 0, 0, 0, none, none⟩⟩
            fuel (chatPacketInit0 default) 0 e.msg e.msg.length = .fault .nullPointer) ∨
        ∃ got allocs, chatPacketDecode
          ⟨default, default, fun _ => true, fun _ _ => ⟨0, 0, 0, 0, 0, 0, none, none⟩⟩ fuel
          (chatPacketInit0 default) 0 e.msg e.msg.length = .returned 0 got allocs ∧
            Recovered greeting default .data got :=
  packet_recovered default greeting default default true .data greeting_built
    ⟨rfl, by decide, fun action => absurd rfl action⟩ ⟨rfl, rfl, rfl⟩ (by decide) default (fun _ => true)
    fun _ _ => ⟨0, 0, 0, 0, 0, 0, none, none⟩

end PacketRoundTrip
