import ChatFabric.TagEncoder

/- The two constructors of chatPacket, host build: the memory is zeroed first. What
   arc4random gives is an argument. -/
namespace ChatFabric
open ByteStrings

/-- arc4random_uniform(15) + 1 bytes of the padding go before a section, the rest behind. -/
structure Padding where
  uniform : Fin 15
  bytes : Block 16
  deriving Inhabited

structure PacketRandom where
  envelope : Padding
  payload : Padding
  deriving Inhabited

namespace Padding

def h (p : Padding) : Nat := p.uniform.val + 1
def l (p : Padding) : Nat := 16 - p.h
def lengthByte (p : Padding) : UInt8 := (UInt8.ofNat p.h <<< 4) ||| UInt8.ofNat p.l

theorem h_lengthByte (p : Padding) : p.lengthByte.toNat / 16 = p.h := by
  obtain ⟨k, bytes⟩ := p
  simp only [lengthByte, h, l]
  revert k
  decide

theorem l_lengthByte (p : Padding) : p.lengthByte.toNat % 16 = p.l := by
  obtain ⟨k, bytes⟩ := p
  simp only [lengthByte, h, l]
  revert k
  decide

end Padding

/-- uuuid2_gen_nil clears nothing, but calloc did. -/
def chatPacketInit0 (random : PacketRandom) : ChatPacket where
  cmd := .invaildCmd
  flags := 0
  payloadLength := 0
  serial := 0
  wasEncrypted := 0 - 1
  controlers := none
  numOfControllers := 0
  nonce := .zero 8
  envelopeLength := 0
  envelopeRandomPaddingLength := random.envelope.lengthByte
  envelopeRandomPadding := random.envelope.bytes
  toUuid := ⟨.zero 16, .zero 16⟩
  fromUuid := ⟨.zero 16, .zero 16⟩
  publickey := .zero 32
  payloadRandomPaddingLength := random.payload.lengthByte
  payloadRandomPadding := random.payload.bytes
  payload := none
  action := actionNull
  actionControl := 0
  actionType := 0
  actionValue := 0
  actionLength := 0
  actionData := none

/-- A null payload is not allocated, and copying nothing from it is allowed. -/
def chatPacketInit (config : ChatFabricConfig) (pair : ChatFabricPairing) (cmd : Command)
    (payload : Option Bytes) (len flags : UInt32) (random : PacketRandom) :
    Except Fault ChatPacket := do
  let bytes ← TagData.bytes (.data8 payload len)
  .ok { chatPacketInit0 random with
    cmd := cmd
    flags := flags
    payloadLength := len
    payload := if len = 0 then none else some bytes
    toUuid := pair.uuid
    fromUuid := config.uuid }

theorem chatPacketInit_init0 {config : ChatFabricConfig} {pair : ChatFabricPairing} {cmd : Command}
    {payload : Option Bytes} {length flags : UInt32} {random : PacketRandom} {cp : ChatPacket}
    (made : chatPacketInit config pair cmd payload length flags random = .ok cp) :
    ∃ bytes, TagData.bytes (.data8 payload length) = .ok bytes ∧ cp = { chatPacketInit0 random with
      cmd := cmd
      flags := flags
      payloadLength := length
      payload := if length = 0 then none else some bytes
      toUuid := pair.uuid
      fromUuid := config.uuid } := by
  unfold chatPacketInit at made
  cases copied : TagData.bytes (.data8 payload length) with
  | error f => simp [copied, bind, Except.bind] at made
  | ok bytes =>
    simp only [copied, bind, Except.bind, Except.ok.injEq] at made
    exact ⟨bytes, rfl, made.symm⟩

end ChatFabric
