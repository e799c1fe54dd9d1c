import ChatFabric.EncodeLengths

/- The buffers chatPacket_encode allocates and how far it fills them. The cleartext
   variants of two packet types write other fields than the ones they counted. -/
namespace EncodeRoom
open ByteStrings TagStream ChatFabric

/-- The buffers of one call after the last field: payload, envelope and ob->msg. -/
structure Buffers where
  payload : Option OutBuf
  envelope : Option OutBuf
  ob : OutBuf

/-- The index is where the precomputed length says it would be. -/
def Full (b : OutBuf) : Prop := b.out.length = b.room

structure Buffers.Full (bufs : Buffers) : Prop where
  payload : ∀ b ∈ bufs.payload, EncodeRoom.Full b
  envelope : ∀ b ∈ bufs.envelope, EncodeRoom.Full b
  ob : EncodeRoom.Full bufs.ob

def fillMessage (cp : ChatPacket) (room : UInt32) (fields : List (UInt8 × TagData)) :
    Except Fault OutBuf :=
  encodeFields (.calloc room.toNat) (headerFields cp ++ fields)

def nonceBuffers (crypto : Crypto) (cp : ChatPacket) (pair : ChatFabricPairing) (encrypted : Bool) :
    Except Fault Buffers := do
  let envelope ← encodeFields (.calloc envelopeRoom.toNat) (envelopeFields cp pair)
  if encrypted then
    let length := envelopeRoom + 16
    let ob ← fillMessage cp (headerLength + (length + 1 + 1 + 4))
      [tagInt32 .envelopeLength length,
       tagData8 .encryptedEnvelope
         (some (sealBytes crypto pair.sharedkey pair.nullnonce envelope.msg)) length]
    .ok ⟨none, some envelope, ob⟩
  else
    let ob ← fillMessage cp (headerLength + (envelopeRoom + 1 + 4))
      [tagInt32 .envelopeLength envelopeRoom, tagData8 .envelope (some envelope.msg) envelopeRoom]
    .ok ⟨none, some envelope, ob⟩

def dataBuffers (crypto : Crypto) (cp : ChatPacket) (pair : ChatFabricPairing) (encrypted : Bool) :
    Except Fault Buffers := do
  let controls ← listedControls cp
  let length := plainLength cp controls
  let payload ← encodeFields (.calloc length.toNat) (payloadFields cp controls encrypted)
  if encrypted then
    let serial := pair.serial + 1
    if length.toNat + macBytes < 2 ^ 32 then
      let ob ← fillMessage { cp with serial := serial } (headerLength + (length + 16 + 1 + 4 + 1))
        (sectionFields (length + 16) (length + 16)
          (sealBytes crypto pair.sharedkey (chatPacketCalcNonce serial pair.nonce) payload.msg))
      .ok ⟨some payload, none, ob⟩
    else .error .bufferWrite
  else
    let ob ← fillMessage cp (headerLength + length)
      (sectionFields cp.payloadLength length payload.msg)
    .ok ⟨some payload, none, ob⟩

/-- chatPacket_encode, with its buffers in place of the bytes they hold. -/
def encodeBuffers (crypto : Crypto) (cp : ChatPacket) (pair : ChatFabricPairing)
    (encrypted : Bool) : PacketType → Except Fault Buffers
  | .command => (fillMessage cp headerLength []).map (⟨none, none, ·⟩)
  | .publickey => (fillMessage cp (headerLength + (32 + 1))
      [tagData8 .publickey (some cp.publickey.val) 32]).map (⟨none, none, ·⟩)
  | .nonce => nonceBuffers crypto cp pair encrypted
  | .data => dataBuffers crypto cp pair encrypted

theorem message_buffers (cp : ChatPacket) (room : UInt32) (fields : List (UInt8 × TagData))
    (wrap : Bytes → Encoded) (buffers : OutBuf → Buffers) (same : ∀ msg, (wrap msg).msg = msg)
    (ob : ∀ b, (buffers b).ob = b) :
    (encodeMessage cp room fields >>= fun msg => Except.ok (wrap msg)).map (·.msg) =
      (fillMessage cp room fields >>= fun b => Except.ok (buffers b)).map (·.ob.msg) := by
  unfold encodeMessage fillMessage
  cases encodeFields (.calloc room.toNat) (headerFields cp ++ fields) with
  | error f => rfl
  | ok b => simp [bind, Except.bind, Except.map, same, ob]

/-- They are the buffers of the encoder: it fails where they do, and sends what they hold. -/
theorem chatPacketEncode_buffers (crypto : Crypto) (cp : ChatPacket) (pair : ChatFabricPairing)
    (encrypted : Bool) (type : PacketType) :
    (chatPacketEncode crypto cp pair encrypted type).map (·.msg) =
      (encodeBuffers crypto cp pair encrypted type).map (·.ob.msg) := by
  cases type with
  | command =>
    simp only [chatPacketEncode, encodeBuffers, encodeCommand, encodeMessage, fillMessage]
    cases encodeFields (.calloc headerLength.toNat) (headerFields cp ++ []) <;> rfl
  | publickey =>
    simp only [chatPacketEncode, encodeBuffers, encodePublickey, encodeMessage, fillMessage]
    cases encodeFields _ (headerFields cp ++ [tagData8 .publickey (some cp.publickey.val) 32]) <;> rfl
  | nonce =>
    simp only [chatPacketEncode, encodeBuffers, encodeNonce, nonceBuffers]
    cases encodeFields (.calloc envelopeRoom.toNat) (envelopeFields cp pair) with
    | error f => rfl
    | ok envelope =>
      cases encrypted with
      | true => exact message_buffers _ _ _ (⟨·, pair, none⟩) _ (fun _ => rfl) fun _ => rfl
      | false => exact message_buffers _ _ _ (⟨·, pair, none⟩) _ (fun _ => rfl) fun _ => rfl
  | data =>
    simp only [chatPacketEncode, encodeBuffers, encodeData, dataBuffers]
    cases listedControls cp with
    | error f => rfl
    | ok controls =>
      simp only [bind, Except.bind]
      cases encodeFields (.calloc (plainLength cp controls).toNat)
          (payloadFields cp controls encrypted) with
      | error f => rfl
      | ok payload =>
        cases encrypted with
        | true =>
          by_cases fits : (plainLength cp controls).toNat + macBytes < 2 ^ 32
          · have message := message_buffers { cp with serial := pair.serial + 1 }
              (headerLength + (plainLength cp controls + 16 + 1 + 4 + 1))
              (sectionFields (plainLength cp controls + 16) (plainLength cp controls + 16)
                (sealBytes crypto pair.sharedkey (chatPacketCalcNonce (pair.serial + 1) pair.nonce)
                  payload.msg))
              (⟨·, { pair with serial := pair.serial + 1 }, some (pair.sharedkey,
                chatPacketCalcNonce (pair.serial + 1) pair.nonce)⟩)
              (⟨some payload, none, ·⟩) (fun _ => rfl) fun _ => rfl
            simp only [bind, Except.bind] at message
            simp only [Except.map, if_true, if_pos fits] at message ⊢
            exact message
          · simp only [Except.map, if_true, if_neg fits]
        | false =>
          have message := message_buffers cp (headerLength + plainLength cp controls)
            (sectionFields cp.payloadLength (plainLength cp controls) payload.msg) (⟨·, pair, none⟩)
            (⟨some payload, none, ·⟩) (fun _ => rfl) fun _ => rfl
          simp only [bind, Except.bind] at message
          simp only [Except.map, Bool.false_eq_true, if_false] at message ⊢
          exact message

def Padded (length : UInt8) : Prop := length.toNat / 16 + length.toNat % 16 = 16

instance (length : UInt8) : Decidable (Padded length) := inferInstanceAs (Decidable (_ = 16))

theorem Padded.split {length : UInt8} (padded : Padded length) :
    ∃ pad : Padding, length = pad.lengthByte := by
  have all : ∀ k : Fin 256, k.val / 16 + k.val % 16 = 16 →
      ∃ uniform : Fin 15, (UInt8.ofNat k.val) = (⟨uniform, .zero 16⟩ : Padding).lengthByte := by
    decide +kernel
  obtain ⟨uniform, same⟩ := all ⟨length.toNat, length.toNat_lt⟩ padded
  exact ⟨⟨uniform, .zero 16⟩, by simpa using same⟩

structure Supplied (cp : ChatPacket) (controls : List CfControl) : Prop where
  listed : listedControls cp = .ok controls
  payload : 0 < cp.payloadLength → ∃ s, cp.payload = some s ∧ cp.payloadLength.toNat ≤ s.length
  actionData : cp.action ≠ 0 → 0 < cp.actionLength →
    ∃ s, cp.actionData = some s ∧ cp.actionLength.toNat ≤ s.length
  label : ∀ c ∈ controls, 0 < c.labelLength →
    ∃ s, c.label = some s ∧ c.labelLength.toNat ≤ s.length
  data : ∀ c ∈ controls, c.type = actionTypeData → 0 < c.value →
    ∃ s, c.data = some s ∧ c.value.toUInt32.toNat ≤ s.length

variable {crypto : Crypto} {cp : ChatPacket} {pair : ChatFabricPairing} {pad : Padding}
  {controls : List CfControl}

namespace Supplied

theorem backed (supplied : Supplied cp controls) : ∀ c ∈ controls, Backed c := by
  intro c member
  constructor
  · intro s label
    by_cases labelled : 0 < c.labelLength
    · obtain ⟨t, here, enough⟩ := supplied.label c member labelled
      rwa [Option.some.inj (label.symm.trans here)]
    · have none : c.labelLength.toNat = 0 := by
        rw [UInt32.lt_iff_toNat_lt] at labelled
        simpa using labelled
      omega
  · intro type value s data
    obtain ⟨t, here, enough⟩ := supplied.data c member type value
    rwa [Option.some.inj (data.symm.trans here)]

theorem sound (supplied : Supplied cp controls)
    (padding : cp.payloadRandomPaddingLength = pad.lengthByte) : Sound cp pad controls :=
  ⟨padding, supplied.listed, supplied.payload, supplied.actionData, supplied.backed⟩

theorem written (supplied : Supplied cp controls) : (controls.map unwritten).sum = 0 := by
  have none : ∀ c ∈ controls, unwritten c = 0 := by
    intro c member
    have label := supplied.label c member
    have data := supplied.data c member
    unfold unwritten
    rw [if_neg, if_neg]
    · rintro ⟨labelled, null⟩
      obtain ⟨s, here, _⟩ := label labelled
      simp [null] at here
    · rintro ⟨type, value, null⟩
      obtain ⟨s, here, _⟩ := data type value
      simp [null] at here
  rw [List.map_congr_left none]
  simp

end Supplied

/-- ob_length, as a number. -/
def messageSize (cp : ChatPacket) (controls : List CfControl) (encrypted : Bool) : PacketType → Nat
  | .command => 83
  | .publickey => 83 + 33
  | .nonce => 83 + if encrypted then 51 else 34
  | .data => 83 + plainSize cp controls + if encrypted then 22 else 0

theorem fillMessage_full (cp : ChatPacket) (room : UInt32) {fields : List (UInt8 × TagData)} {n : Nat}
    (fills : Fills fields n) (fits : room.toNat = 83 + n) :
    ∃ ob, fillMessage cp room fields = .ok ob ∧ Full ob := by
  have all := (headerFields_fills cp).append fills
  exact ⟨_, encodeFields_within all (Nat.le_of_eq fits.symm), all.size.trans fits.symm⟩

theorem nonceBuffers_full (crypto : Crypto) (pair : ChatFabricPairing)
    (padding : cp.envelopeRandomPaddingLength = pad.lengthByte) :
    ∃ bufs, nonceBuffers crypto cp pair true = .ok bufs ∧ bufs.Full := by
  have fills := envelopeFields_fills padding pair
  have filled := encodeFields_within fills (Nat.le_of_eq rfl : 29 ≤ envelopeRoom.toNat)
  have full : Full ⟨envelopeRoom.toNat, fieldBytes (plainFields (envelopeFields cp pair))⟩ := fills.size
  have fields := (Fills.int32 .envelopeLength (envelopeRoom + 16)).append
    (.data8 .encryptedEnvelope (s := sealBytes crypto pair.sharedkey pair.nullnonce
      (OutBuf.msg ⟨envelopeRoom.toNat, fieldBytes (plainFields (envelopeFields cp pair))⟩))
      (n := envelopeRoom + 16)
      (by
        rw [length_sealBytes, length_msg (Nat.le_of_eq full)]
        exact Nat.le_of_eq rfl))
  obtain ⟨ob, message, obFull⟩ := fillMessage_full cp
    (headerLength + (envelopeRoom + 16 + 1 + 1 + 4)) fields rfl
  refine ⟨⟨none, some _, ob⟩, ?_, by simp, by simpa using full, obFull⟩
  simp only [nonceBuffers, filled, bind, Except.bind, if_true]
  exact message ▸ rfl

/-- In the clear it is counted without its tag. -/
theorem nonceBuffers_over (crypto : Crypto) (pair : ChatFabricPairing)
    (padding : cp.envelopeRandomPaddingLength = pad.lengthByte) :
    nonceBuffers crypto cp pair false = .error .bufferWrite := by
  have fills := envelopeFields_fills padding pair
  have filled := encodeFields_within fills (Nat.le_of_eq rfl : 29 ≤ envelopeRoom.toNat)
  have full : Full ⟨envelopeRoom.toNat, fieldBytes (plainFields (envelopeFields cp pair))⟩ := fills.size
  have fields := (Fills.int32 .envelopeLength envelopeRoom).append
    (.data8 .envelope (s := OutBuf.msg ⟨envelopeRoom.toNat,
      fieldBytes (plainFields (envelopeFields cp pair))⟩) (n := envelopeRoom)
      (Nat.le_of_eq (length_msg (Nat.le_of_eq full)).symm))
  have message : fillMessage cp _ _ = _ :=
    messageFields_over cp (headerLength + (envelopeRoom + 1 + 4)) fields (by decide)
  simp only [nonceBuffers, filled, bind, Except.bind, Bool.false_eq_true, if_false]
  exact message ▸ rfl

theorem dataBuffers_full (crypto : Crypto) (pair : ChatFabricPairing)
    (padding : cp.payloadRandomPaddingLength = pad.lengthByte) (supplied : Supplied cp controls)
    (small : plainSize cp controls + 105 < 2 ^ 31) :
    ∃ bufs, dataBuffers crypto cp pair true = .ok bufs ∧ bufs.Full := by
  have room : (plainLength cp controls).toNat = plainSize cp controls := by
    rw [plainLength_toNat]
    omega
  obtain ⟨n, fills, size⟩ := payloadFields_fills (supplied.sound padding) true
  rw [supplied.written] at size
  have exact : n = (plainLength cp controls).toNat := by
    simp only [if_true] at size
    omega
  subst exact
  have filled := encodeFields_within fills (Nat.le_refl _)
  have full : Full ⟨(plainLength cp controls).toNat,
    fieldBytes (plainFields (payloadFields cp controls true))⟩ := fills.size
  have sealed : (plainLength cp controls + 16).toNat = (plainLength cp controls).toNat + 16 := by
    simp only [UInt32.toNat_add, UInt32.reduceToNat]
    omega
  have fields := sectionFields_fills (plainLength cp controls + 16)
    (plainLength cp controls + 16)
    (sealBytes crypto pair.sharedkey (chatPacketCalcNonce (pair.serial + 1) pair.nonce)
      (OutBuf.msg ⟨(plainLength cp controls).toNat,
        fieldBytes (plainFields (payloadFields cp controls true))⟩))
    (by rw [length_sealBytes, length_msg (Nat.le_of_eq full), sealed])
  obtain ⟨ob, message, obFull⟩ := fillMessage_full { cp with serial := pair.serial + 1 }
    (headerLength + (plainLength cp controls + 16 + 1 + 4 + 1)) fields (by
      have header : headerLength.toNat = 83 := rfl
      simp only [UInt32.toNat_add, header, UInt32.reduceToNat]
      omega)
  refine ⟨⟨some _, none, ob⟩, ?_, by simpa using full, by simp, obFull⟩
  simp only [dataBuffers, supplied.listed, filled, bind, Except.bind, if_true]
  rw [if_pos (by simp only [macBytes]; omega)]
  exact message ▸ rfl

/-- In the clear the message has no room for the tags of its section. -/
theorem dataBuffers_over (crypto : Crypto) (pair : ChatFabricPairing)
    (padding : cp.payloadRandomPaddingLength = pad.lengthByte) (supplied : Supplied cp controls)
    (small : plainSize cp controls + 83 < 2 ^ 31) :
    dataBuffers crypto cp pair false = .error .bufferWrite := by
  have room : (plainLength cp controls).toNat = plainSize cp controls := by
    rw [plainLength_toNat]
    omega
  obtain ⟨n, fills, size⟩ := payloadFields_fills (supplied.sound padding) false
  simp only [Bool.false_eq_true, if_false] at size
  have fits : n ≤ (plainLength cp controls).toNat := by omega
  have filled := encodeFields_within fills fits
  have length := length_msg (b := ⟨(plainLength cp controls).toNat,
    fieldBytes (plainFields (payloadFields cp controls false))⟩) (by rw [fills.size]; exact fits)
  have fields := sectionFields_fills cp.payloadLength _
    (OutBuf.msg ⟨(plainLength cp controls).toNat,
      fieldBytes (plainFields (payloadFields cp controls false))⟩) (Nat.le_of_eq length.symm)
  have message : fillMessage cp _ _ = _ :=
    messageFields_over cp (headerLength + plainLength cp controls) fields (by
      have header : headerLength.toNat = 83 := rfl
      simp only [UInt32.toNat_add, header]
      omega)
  simp only [dataBuffers, supplied.listed, filled, bind, Except.bind, Bool.false_eq_true, if_false]
  exact message ▸ rfl

/-- Every write stays inside its buffer and every index ends at the precomputed length exactly
    for the encrypted packets and for the two packet types that encrypt nothing. -/
theorem filled_iff (crypto : Crypto) (cp : ChatPacket) (pair : ChatFabricPairing)
    (controls : List CfControl) (encrypted : Bool) (type : PacketType)
    (payloadPadded : Padded cp.payloadRandomPaddingLength)
    (envelopePadded : Padded cp.envelopeRandomPaddingLength) (supplied : Supplied cp controls)
    (small : messageSize cp controls encrypted type < 2 ^ 31) :
    (∃ bufs, encodeBuffers crypto cp pair encrypted type = .ok bufs ∧ bufs.Full) ↔
      encrypted = true ∨ type = .command ∨ type = .publickey := by
  obtain ⟨pad, padding⟩ := payloadPadded.split
  obtain ⟨envelopePad, envelopePadding⟩ := envelopePadded.split
  cases type with
  | command =>
    obtain ⟨ob, message, full⟩ := fillMessage_full cp headerLength .nil rfl
    simp only [true_or, or_true, iff_true]
    exact ⟨⟨none, none, ob⟩, by simp only [encodeBuffers, message, Except.map], by simp, by simp, full⟩
  | publickey =>
    obtain ⟨ob, message, full⟩ := fillMessage_full cp (headerLength + (32 + 1))
      (.data8 .publickey (s := cp.publickey.val) (n := 32) (by simp)) rfl
    simp only [or_true, iff_true]
    exact ⟨⟨none, none, ob⟩, by simp only [encodeBuffers, message, Except.map], by simp, by simp, full⟩
  | nonce =>
    cases encrypted with
    | true => simpa [encodeBuffers] using nonceBuffers_full crypto pair envelopePadding
    | false => simp [encodeBuffers, nonceBuffers_over crypto pair envelopePadding]
  | data =>
    cases encrypted with
    | true =>
      simpa [encodeBuffers] using dataBuffers_full crypto pair padding supplied (by
        simp only [messageSize, if_true] at small
        omega)
    | false =>
      simp [encodeBuffers, dataBuffers_over crypto pair padding supplied (by
        simp only [messageSize, Bool.false_eq_true, if_false] at small
        omega)]

def greeting : ChatPacket :=
  { chatPacketInit0 default with cmd := .appMessage, payload := some [104, 105], payloadLength := 2 }

theorem greeting_supplied : Supplied greeting [] :=
  ⟨rfl, fun _ => ⟨[104, 105], rfl, by decide⟩, fun action => absurd rfl action, by simp, by simp⟩

theorem filled_iff_greeting :
    ∃ bufs, encodeBuffers default greeting default true .data = .ok bufs ∧ bufs.Full :=
  (filled_iff default greeting default [] true .data (by decide) (by decide) greeting_supplied
    (by decide)).mpr (.inl rfl)

theorem clear_not_filled :
    ¬ ∀ crypto cp pair controls encrypted type, Padded cp.payloadRandomPaddingLength →
      Padded cp.envelopeRandomPaddingLength → Supplied cp controls →
      messageSize cp controls encrypted type < 2 ^ 31 →
      ∃ bufs, encodeBuffers crypto cp pair encrypted type = .ok bufs ∧ bufs.Full := by
  intro filled
  obtain ⟨bufs, run, _⟩ := filled default greeting default [] false .nonce (by decide) (by decide)
    greeting_supplied (by decide)
  obtain ⟨pad, padding⟩ := (by decide : Padded greeting.envelopeRandomPaddingLength).split
  simp [encodeBuffers, nonceBuffers_over default default padding] at run

end EncodeRoom
