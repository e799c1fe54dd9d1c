import ChatFabric.PacketInit
import Mathlib.Data.UInt

/- chatPacket_encode. Lengths are computed first, in 32-bit arithmetic, and the buffers
   allocated by them are then filled field by field; the allocations themselves are
   taken to succeed. -/
namespace ChatFabric
open ByteStrings

def tagInt32 (tag : Tag) (value : UInt32) : UInt8 × TagData := (tag.toByte, .int32 value)
def tagUuid (tag : Tag) (uuid : Block 16) : UInt8 × TagData := (tag.toByte, .uuid uuid)
def tagData8 (tag : Tag) (s : Option Bytes) (len : UInt32) : UInt8 × TagData :=
  (tag.toByte, .data8 s len)

/-- The entries of the table that the loops over numOfControllers go through. -/
def listedControls (cp : ChatPacket) : Except Fault (List CfControl) :=
  if 0 < cp.numOfControllers then
    match cp.controlers with
    | none => .error .nullPointer
    | some table =>
      let count := cp.numOfControllers.toInt.toNat
      if count ≤ table.length then .ok (table.take count) else .error .controlAccess
  else .ok []

def controlLength (c : CfControl) : UInt32 :=
  5 * 5 + (if c.type = actionTypeData ∧ 0 < c.value then c.value.toUInt32 + 1 else 0) +
    (if 0 < c.labelLength then c.labelLength + 1 + 5 else 0)

def controlFields (c : CfControl) : List (UInt8 × TagData) :=
  [tagInt32 .appControlI c.control,
   tagInt32 .appControlType c.type,
   tagInt32 .appControlValue c.value.toUInt32,
   tagInt32 .appControlRangeLow c.rangeLow.toUInt32,
   tagInt32 .appControlRangeHigh c.rangeHigh.toUInt32] ++
  (if 0 < c.labelLength ∧ c.label ≠ none then
    [tagInt32 .appControlLabelLength c.labelLength,
     tagData8 .appControlLabel c.label c.labelLength] else []) ++
  (if c.type = actionTypeData ∧ 0 < c.value ∧ c.data ≠ none then
    [tagData8 .appControlData c.data c.value.toUInt32] else [])

def actionFields (cp : ChatPacket) : List (UInt8 × TagData) :=
  if cp.action ≠ 0 then
    [tagInt32 .action cp.action,
     tagInt32 .actionControl cp.actionControl,
     tagInt32 .actionType cp.actionType,
     tagInt32 .actionValue cp.actionValue.toUInt32,
     tagInt32 .actionLength cp.actionLength] ++
    (if 0 < cp.actionLength then [tagData8 .actionData cp.actionData cp.actionLength] else [])
  else []

/-- p_length -/
def plainLength (cp : ChatPacket) (controls : List CfControl) : UInt32 :=
  (if 0 < cp.payloadLength then 1 + cp.payloadLength else 0) + (2 + 1 + 16 + 1 + 4 + 1) +
    (if cp.action ≠ 0 then 5 * 5 + (if 0 < cp.actionLength then 1 + cp.actionLength else 0) else 0) +
    (if 0 < cp.numOfControllers then 5 + (controls.map controlLength).sum else 0)

def paddingBefore (lengthTag highTag : Tag) (length : UInt8) (padding : Block 16) :
    List (UInt8 × TagData) :=
  [tagData8 lengthTag (some [length]) 1,
   tagData8 highTag (some padding.val) (UInt32.ofNat (length.toNat / 16))]

def paddingBehind (lowTag : Tag) (length : UInt8) (padding : Block 16) : UInt8 × TagData :=
  tagData8 lowTag (some (padding.val.drop (length.toNat / 16))) (UInt32.ofNat (length.toNat % 16))

def payloadFields (cp : ChatPacket) (controls : List CfControl) (encrypted : Bool) :
    List (UInt8 × TagData) :=
  (if encrypted then [tagInt32 .payloadLength cp.payloadLength] else []) ++
  paddingBefore .payloadRandomPaddingLength .payloadRandomPaddingHigh cp.payloadRandomPaddingLength
    cp.payloadRandomPadding ++
  actionFields cp ++
  (if 0 < cp.numOfControllers then
    tagInt32 .appControls cp.numOfControllers.toUInt32 :: controls.flatMap controlFields else []) ++
  (if 0 < cp.payloadLength then [tagData8 .payload cp.payload cp.payloadLength] else []) ++
  [paddingBehind .payloadRandomPaddingLow cp.payloadRandomPaddingLength cp.payloadRandomPadding]

def envelopeFields (cp : ChatPacket) (pair : ChatFabricPairing) : List (UInt8 × TagData) :=
  paddingBefore .envelopeRandomPaddingLength .envelopeRandomPaddingHigh
    cp.envelopeRandomPaddingLength cp.envelopeRandomPadding ++
  [tagData8 .nonce (some pair.mynonce.val) 8,
   paddingBehind .envelopeRandomPaddingLow cp.envelopeRandomPaddingLength cp.envelopeRandomPadding]

/-- e_length -/
def envelopeRoom : UInt32 := 2 + 1 + 16 + 1 + 8 + 1

/-- s20_crypt in place, and the MAC over the result behind it. -/
def sealBytes (crypto : Crypto) (key : Block 32) (nonce : Block 8) (plain : Bytes) : Bytes :=
  let cipher := s20Crypt key nonce plain
  cipher ++ (crypto.poly1305Auth cipher key).val

def headerFields (cp : ChatPacket) : List (UInt8 × TagData) :=
  [tagInt32 .cmd cp.cmd.toCode,
   tagInt32 .serial cp.serial,
   tagInt32 .flags cp.flags,
   tagUuid .to0 cp.toUuid.u0,
   tagUuid .to1 cp.toUuid.u1,
   tagUuid .from0 cp.fromUuid.u0,
   tagUuid .from1 cp.fromUuid.u1]

/-- ob_length without what the packet type adds; the five are for the serial. -/
def headerLength : UInt32 := 1 + 4 + (1 + 4) + 4 * (1 + 16) + 5

/-- The message, the record with its new serial and, of an encrypted DATA packet, the key
    and the session nonce its payload was encrypted under. -/
structure Encoded where
  msg : Bytes
  pair : ChatFabricPairing
  session : Option (Block 32 × Block 8)
  deriving DecidableEq

def encodeMessage (cp : ChatPacket) (room : UInt32) (fields : List (UInt8 × TagData)) :
    Except Fault Bytes :=
  (encodeFields (.calloc room.toNat) (headerFields cp ++ fields)).map OutBuf.msg

def encodeCommand (cp : ChatPacket) : Except Fault Bytes := encodeMessage cp headerLength []

def encodePublickey (cp : ChatPacket) : Except Fault Bytes :=
  encodeMessage cp (headerLength + (32 + 1)) [tagData8 .publickey (some cp.publickey.val) 32]

def encodeNonce (crypto : Crypto) (cp : ChatPacket) (pair : ChatFabricPairing) (encrypted : Bool) :
    Except Fault Bytes := do
  let envelope ← (encodeFields (.calloc envelopeRoom.toNat) (envelopeFields cp pair)).map OutBuf.msg
  if encrypted then
    let length := envelopeRoom + 16
    encodeMessage cp (headerLength + (length + 1 + 1 + 4))
      [tagInt32 .envelopeLength length,
       tagData8 .encryptedEnvelope (some (sealBytes crypto pair.sharedkey pair.nullnonce envelope))
         length]
  else
    encodeMessage cp (headerLength + (envelopeRoom + 1 + 4))
      [tagInt32 .envelopeLength envelopeRoom, tagData8 .envelope (some envelope) envelopeRoom]

def sectionFields (declared length : UInt32) (bytes : Bytes) : List (UInt8 × TagData) :=
  [tagInt32 .payloadLength declared, tagData8 .encryptedPayload (some bytes) length]

def encodeData (crypto : Crypto) (cp : ChatPacket) (pair : ChatFabricPairing) (encrypted : Bool) :
    Except Fault Encoded := do
  let controls ← listedControls cp
  let length := plainLength cp controls
  let payload ← (encodeFields (.calloc length.toNat) (payloadFields cp controls encrypted)).map
    OutBuf.msg
  if encrypted then
    let serial := pair.serial + 1
    let sessionNonce := chatPacketCalcNonce serial pair.nonce
    if length.toNat + macBytes < 2 ^ 32 then
      let msg ← encodeMessage { cp with serial := serial }
        (headerLength + (length + 16 + 1 + 4 + 1))
        (sectionFields (length + 16) (length + 16)
          (sealBytes crypto pair.sharedkey sessionNonce payload))
      .ok ⟨msg, { pair with serial := serial }, some (pair.sharedkey, sessionNonce)⟩
    -- the sum wrapped, and the ciphertext does not fit
    else .error .bufferWrite
  else
    let msg ← encodeMessage cp (headerLength + length)
      (sectionFields cp.payloadLength length payload)
    .ok ⟨msg, pair, none⟩

def chatPacketEncode (crypto : Crypto) (cp : ChatPacket) (pair : ChatFabricPairing)
    (encrypted : Bool) : PacketType → Except Fault Encoded
  | .command => (encodeCommand cp).map (⟨·, pair, none⟩)
  | .publickey => (encodePublickey cp).map (⟨·, pair, none⟩)
  | .nonce => (encodeNonce crypto cp pair encrypted).map (⟨·, pair, none⟩)
  | .data => encodeData crypto cp pair encrypted

end ChatFabric
