import ChatFabric.PacketEncode

/- The encoder's precomputed lengths, for the packets the replies are made of. -/
namespace ChatFabric
open ByteStrings TagStream

variable {crypto : Crypto} {cp : ChatPacket} {pair : ChatFabricPairing}

structure Fills (fields : List (UInt8 × TagData)) (size : Nat) : Prop where
  present : ∀ f ∈ fields, f.2.bytes = .ok f.2.plain
  size : (fieldBytes (plainFields fields)).length = size

namespace Fills

theorem nil : Fills [] 0 := ⟨by simp, rfl⟩

theorem append {first second : List (UInt8 × TagData)} {m n : Nat} (one : Fills first m)
    (two : Fills second n) : Fills (first ++ second) (m + n) where
  present f member := by
    rcases List.mem_append.mp member with left | right
    · exact one.present f left
    · exact two.present f right
  size := by
    have first := one.size
    have second := two.size
    simp only [plainFields, fieldBytes, List.map_append, List.flatMap_append,
      List.length_append] at first second ⊢
    omega

theorem int32 (tag : Tag) (value : UInt32) : Fills [tagInt32 tag value] 5 :=
  ⟨by simp [tagInt32, TagData.bytes, TagData.plain],
    by simp [plainFields, fieldBytes, tagInt32, TagData.plain]⟩

theorem data8 (tag : Tag) {s : Bytes} {n : UInt32} (there : n.toNat ≤ s.length) :
    Fills [tagData8 tag (some s) n] (1 + n.toNat) :=
  ⟨by simp [tagData8, TagData.bytes, TagData.plain, there],
    by simp [plainFields, fieldBytes, tagData8, TagData.plain, there]; omega⟩

end Fills

def messageBytes (cp : ChatPacket) (fields : List (UInt8 × TagData)) : Bytes :=
  fieldBytes (plainFields (headerFields cp ++ fields))

theorem headerFields_fills (cp : ChatPacket) : Fills (headerFields cp) 83 :=
  ⟨by simp [headerFields, tagInt32, tagUuid, TagData.bytes, TagData.plain],
    by simp [headerFields, plainFields, fieldBytes, tagInt32, tagUuid, TagData.plain]⟩

theorem encodeFields_within {fields : List (UInt8 × TagData)} {n room : Nat} (fills : Fills fields n)
    (fits : n ≤ room) :
    encodeFields (.calloc room) fields = .ok ⟨room, fieldBytes (plainFields fields)⟩ := by
  have size := fills.size
  exact encodeFields_ok (b := .calloc room) (encodes_plain fills.present) (by
    change 0 + (fieldBytes (plainFields fields)).length ≤ room
    omega)

theorem encodeFields_over {fields : List (UInt8 × TagData)}
    (present : ∀ f ∈ fields, f.2.bytes = .ok f.2.plain) {b : OutBuf} (begun : b.out.length ≤ b.room)
    (beyond : b.room < b.out.length + (fieldBytes (plainFields fields)).length) :
    encodeFields b fields = .error .bufferWrite := by
  induction fields generalizing b with
  | nil => simp [plainFields, fieldBytes] at beyond; omega
  | cons f fields ih =>
    have first := present f (by simp)
    have later : ∀ g ∈ fields, g.2.bytes = .ok g.2.plain := fun g member => present g (by simp [member])
    simp only [plainFields, fieldBytes, List.map_cons, List.flatMap_cons, List.length_append,
      List.length_cons] at beyond
    simp only [encodeFields, cfTagEncoder, first, bind, Except.bind]
    by_cases fits : b.out.length + 1 + f.2.plain.length ≤ b.room
    · simp only [fits, if_true]
      apply ih later
      · simp only [List.length_append, List.length_cons]
        omega
      · simp only [plainFields, fieldBytes, List.length_append, List.length_cons]
        omega
    · simp only [fits, if_false]

theorem encodeFields_fills {fields : List (UInt8 × TagData)} {n : Nat} (fills : Fills fields n) :
    (encodeFields (.calloc n) fields).map OutBuf.msg = .ok (fieldBytes (plainFields fields)) := by
  have size := fills.size
  rw [encodeFields_within fills (Nat.le_refl n)]
  simp [Except.map, OutBuf.msg, size]

theorem encodeMessage_fills (cp : ChatPacket) {room : UInt32} {fields : List (UInt8 × TagData)} {n : Nat}
    (fills : Fills fields n) (fits : room.toNat = 83 + n) :
    encodeMessage cp room fields = .ok (messageBytes cp fields) := by
  rw [encodeMessage, fits]
  exact encodeFields_fills ((headerFields_fills cp).append fills)

theorem messageFields_over (cp : ChatPacket) (room : UInt32) {fields : List (UInt8 × TagData)} {n : Nat}
    (fills : Fills fields n) (beyond : room.toNat < 83 + n) :
    encodeFields (.calloc room.toNat) (headerFields cp ++ fields) = .error .bufferWrite := by
  have all := (headerFields_fills cp).append fills
  apply encodeFields_over all.present (Nat.zero_le _)
  simpa [OutBuf.calloc, all.size] using beyond

theorem encodeMessage_over (cp : ChatPacket) (room : UInt32) {fields : List (UInt8 × TagData)} {n : Nat}
    (fills : Fills fields n) (beyond : room.toNat < 83 + n) :
    encodeMessage cp room fields = .error .bufferWrite := by
  rw [encodeMessage, messageFields_over cp room fills beyond]
  rfl

theorem encodeCommand_eq (cp : ChatPacket) : encodeCommand cp = .ok (messageBytes cp []) :=
  encodeMessage_fills cp .nil rfl

theorem encodePublickey_eq (cp : ChatPacket) : encodePublickey cp =
    .ok (messageBytes cp [tagData8 .publickey (some cp.publickey.val) 32]) :=
  encodeMessage_fills cp (.data8 .publickey (by simp)) rfl

@[simp] theorem length_sealBytes (key : Block 32) (nonce : Block 8) (plain : Bytes) :
    (sealBytes crypto key nonce plain).length = plain.length + 16 := by
  simp [sealBytes, s20Crypt, Salsa20.length_crypt]

theorem Padding.h_bounds (pad : Padding) : 1 ≤ pad.h ∧ pad.h ≤ 15 := by
  have := pad.uniform.isLt
  simp only [Padding.h]
  omega

theorem toNat_ofNibble {k : Nat} (small : k ≤ 16) : (UInt32.ofNat k).toNat = k := by
  simp only [UInt32.toNat_ofNat']
  omega

theorem paddingBefore_fills (lengthTag highTag : Tag) (pad : Padding) (padding : Block 16) :
    Fills (paddingBefore lengthTag highTag pad.lengthByte padding) (3 + pad.h) := by
  have bounds := pad.h_bounds
  have high : (UInt32.ofNat (pad.lengthByte.toNat / 16)).toNat = pad.h := by
    rw [pad.h_lengthByte, toNat_ofNibble (by omega)]
  have one : Fills [tagData8 lengthTag (some [pad.lengthByte]) 1] _ := .data8 lengthTag (by simp)
  have two := Fills.data8 highTag (s := padding.val) (by rw [high, Block.length_val]; omega)
  have both := one.append two
  rw [high, ← Nat.add_assoc] at both
  exact both

theorem paddingBehind_fills (lowTag : Tag) (pad : Padding) (padding : Block 16) :
    Fills [paddingBehind lowTag pad.lengthByte padding] (1 + pad.l) := by
  have bounds := pad.h_bounds
  have low : (UInt32.ofNat (pad.lengthByte.toNat % 16)).toNat = pad.l := by
    rw [pad.l_lengthByte, toNat_ofNibble (by simp only [Padding.l]; omega)]
  have field : Fills [paddingBehind lowTag pad.lengthByte padding] _ := .data8 lowTag (by
    rw [low, pad.h_lengthByte, List.length_drop, Block.length_val]
    exact Nat.le_refl _)
  rw [low] at field
  exact field

theorem envelopeFields_fills {pad : Padding}
    (padding : cp.envelopeRandomPaddingLength = pad.lengthByte)
    (pair : ChatFabricPairing) : Fills (envelopeFields cp pair) 29 := by
  have bounds := pad.h_bounds
  have nonce : Fills [tagData8 .nonce (some pair.mynonce.val) 8] _ := .data8 .nonce (by simp)
  have parts := ((paddingBefore_fills .envelopeRandomPaddingLength .envelopeRandomPaddingHigh pad
    cp.envelopeRandomPadding).append nonce).append
    (paddingBehind_fills .envelopeRandomPaddingLow pad cp.envelopeRandomPadding)
  have size : 3 + pad.h + (1 + (8 : UInt32).toNat) + (1 + pad.l) = 29 := by
    simp only [Padding.l, UInt32.reduceToNat]
    omega
  rw [size] at parts
  simpa [envelopeFields, padding] using parts

theorem toNat_of_positive {value : Int32} (positive : 0 < value) :
    (value.toUInt32.toNat : Int) = value.toInt := by
  have above : (0 : Int) < value.toInt := Int32.lt_iff_toInt_lt.mp positive
  have word : value.toInt = if 2 * value.toUInt32.toNat < 2 ^ 32 then (value.toUInt32.toNat : Int)
      else value.toUInt32.toNat - 2 ^ 32 := BitVec.toInt_eq_toNat_cond _
  have bound := value.toUInt32.toNat_lt
  split at word <;> omega

/-- controlLength, as a number. -/
def controlSize (c : CfControl) : Nat :=
  25 + (if c.type = actionTypeData ∧ 0 < c.value then c.value.toUInt32.toNat + 1 else 0) +
    (if 0 < c.labelLength then c.labelLength.toNat + 6 else 0)

/-- p_length, as a number. -/
def plainSize (cp : ChatPacket) (controls : List CfControl) : Nat :=
  (if 0 < cp.payloadLength then 1 + cp.payloadLength.toNat else 0) + 25 +
    (if cp.action ≠ 0 then 25 + (if 0 < cp.actionLength then 1 + cp.actionLength.toNat else 0) else 0) +
    (if 0 < cp.numOfControllers then 5 + (controls.map controlSize).sum else 0)

theorem controlLength_toNat (c : CfControl) : (controlLength c).toNat = controlSize c % 2 ^ 32 := by
  unfold controlLength controlSize
  split <;> split <;> simp [UInt32.toNat_add]

theorem controlLengths_toNat (controls : List CfControl) :
    (controls.map controlLength).sum.toNat = (controls.map controlSize).sum % 2 ^ 32 := by
  induction controls with
  | nil => rfl
  | cons c rest ih =>
    simp only [List.map_cons, List.sum_cons, UInt32.toNat_add, controlLength_toNat, ih]
    omega

theorem plainLength_toNat (cp : ChatPacket) (controls : List CfControl) :
    (plainLength cp controls).toNat = plainSize cp controls % 2 ^ 32 := by
  have table := controlLengths_toNat controls
  unfold plainLength plainSize
  split <;> split <;> split <;> (try split) <;> simp [UInt32.toNat_add, table]

/-- What the encoder counts for a control and then, its pointer being NULL, does not write. -/
def unwritten (c : CfControl) : Nat :=
  (if c.type = actionTypeData ∧ 0 < c.value ∧ c.data = none then c.value.toUInt32.toNat + 1 else 0) +
    (if 0 < c.labelLength ∧ c.label = none then c.labelLength.toNat + 6 else 0)

structure Backed (c : CfControl) : Prop where
  label : ∀ s, c.label = some s → c.labelLength.toNat ≤ s.length
  data : c.type = actionTypeData → 0 < c.value → ∀ s, c.data = some s →
    c.value.toUInt32.toNat ≤ s.length

/-- A DATA packet as the constructors and their callers make it: the padding, and the bytes
    its pointers and lengths promise. -/
structure Sound (cp : ChatPacket) (pad : Padding) (controls : List CfControl) : Prop where
  padding : cp.payloadRandomPaddingLength = pad.lengthByte
  listed : listedControls cp = .ok controls
  payload : 0 < cp.payloadLength → ∃ s, cp.payload = some s ∧ cp.payloadLength.toNat ≤ s.length
  actionData : cp.action ≠ 0 → 0 < cp.actionLength →
    ∃ s, cp.actionData = some s ∧ cp.actionLength.toNat ≤ s.length
  backed : ∀ c ∈ controls, Backed c

theorem label_fills (c : CfControl) (backed : Backed c) :
    ∃ n, Fills (if 0 < c.labelLength ∧ c.label ≠ none then
        [tagInt32 .appControlLabelLength c.labelLength,
         tagData8 .appControlLabel c.label c.labelLength] else []) n ∧
      n + (if 0 < c.labelLength ∧ c.label = none then c.labelLength.toNat + 6 else 0) =
        if 0 < c.labelLength then c.labelLength.toNat + 6 else 0 := by
  by_cases labelled : 0 < c.labelLength
  · cases label : c.label with
    | none => exact ⟨0, by simpa using Fills.nil, by simp [labelled]⟩
    | some s =>
      have both := (Fills.int32 .appControlLabelLength c.labelLength).append
        (.data8 .appControlLabel (backed.label s label))
      exact ⟨_, by simpa [labelled] using both, by simp [labelled]; omega⟩
  · exact ⟨0, by simpa [labelled] using Fills.nil, by simp [labelled]⟩

theorem data_fills (c : CfControl) (backed : Backed c) :
    ∃ n, Fills (if c.type = actionTypeData ∧ 0 < c.value ∧ c.data ≠ none then
        [tagData8 .appControlData c.data c.value.toUInt32] else []) n ∧
      n + (if c.type = actionTypeData ∧ 0 < c.value ∧ c.data = none then
          c.value.toUInt32.toNat + 1 else 0) =
        if c.type = actionTypeData ∧ 0 < c.value then c.value.toUInt32.toNat + 1 else 0 := by
  by_cases isData : c.type = actionTypeData ∧ 0 < c.value
  · obtain ⟨type, value⟩ := isData
    cases data : c.data with
    | none => exact ⟨0, by simpa using Fills.nil, by simp [type, value]⟩
    | some s =>
      have field := Fills.data8 .appControlData (backed.data type value s data)
      exact ⟨_, by simpa [type, value] using field, by simp [type, value]; omega⟩
  · have not : ∀ P, ¬ (c.type = actionTypeData ∧ 0 < c.value ∧ P) := fun P both =>
      isData ⟨both.1, both.2.1⟩
    exact ⟨0, by simpa [not] using Fills.nil, by simp [isData, not]⟩

theorem controlFields_fills (c : CfControl) (backed : Backed c) :
    ∃ n, Fills (controlFields c) n ∧ n + unwritten c = controlSize c := by
  obtain ⟨m, label, labelSize⟩ := label_fills c backed
  obtain ⟨k, data, dataSize⟩ := data_fills c backed
  have five := ((((Fills.int32 .appControlI c.control).append
    (Fills.int32 .appControlType c.type)).append
    (Fills.int32 .appControlValue c.value.toUInt32)).append
    (Fills.int32 .appControlRangeLow c.rangeLow.toUInt32)).append
    (Fills.int32 .appControlRangeHigh c.rangeHigh.toUInt32)
  refine ⟨_, (five.append label).append data, ?_⟩
  simp only [unwritten, controlSize]
  omega

theorem controls_fill (controls : List CfControl) (backed : ∀ c ∈ controls, Backed c) :
    ∃ n, Fills (controls.flatMap controlFields) n ∧
      n + (controls.map unwritten).sum = (controls.map controlSize).sum := by
  induction controls with
  | nil => exact ⟨0, .nil, rfl⟩
  | cons c rest ih =>
    obtain ⟨m, first, firstSize⟩ := controlFields_fills c (backed c (by simp))
    obtain ⟨n, later, laterSize⟩ := ih fun d member => backed d (by simp [member])
    refine ⟨_, first.append later, ?_⟩
    simp only [List.map_cons, List.sum_cons]
    omega

variable {pad : Padding} {controls : List CfControl}

theorem actionFields_fills (sound : Sound cp pad controls) :
    Fills (actionFields cp) (if cp.action ≠ 0 then
      25 + (if 0 < cp.actionLength then 1 + cp.actionLength.toNat else 0) else 0) := by
  unfold actionFields
  split
  · rename_i action
    have five := ((((Fills.int32 .action cp.action).append
      (Fills.int32 .actionControl cp.actionControl)).append
      (Fills.int32 .actionType cp.actionType)).append
      (Fills.int32 .actionValue cp.actionValue.toUInt32)).append
      (Fills.int32 .actionLength cp.actionLength)
    apply five.append
    split
    · rename_i some
      obtain ⟨s, here, enough⟩ := sound.actionData action some
      rw [here]
      exact .data8 .actionData enough
    · exact .nil
  · exact .nil

theorem payload_fills (sound : Sound cp pad controls) :
    Fills (if 0 < cp.payloadLength then [tagData8 .payload cp.payload cp.payloadLength] else [])
      (if 0 < cp.payloadLength then 1 + cp.payloadLength.toNat else 0) := by
  split
  · rename_i some
    obtain ⟨s, here, enough⟩ := sound.payload some
    rw [here]
    exact .data8 .payload enough
  · exact .nil

theorem listed_none (listed : listedControls cp = .ok controls) (none : ¬ 0 < cp.numOfControllers) :
    controls = [] := by
  rw [listedControls, if_neg none] at listed
  exact (Except.ok.inj listed).symm

def tableFields (cp : ChatPacket) (controls : List CfControl) : List (UInt8 × TagData) :=
  if 0 < cp.numOfControllers then
    tagInt32 .appControls cp.numOfControllers.toUInt32 :: controls.flatMap controlFields else []

theorem tableFields_fills (sound : Sound cp pad controls) :
    ∃ n, Fills (tableFields cp controls) n ∧ n + (controls.map unwritten).sum =
      if 0 < cp.numOfControllers then 5 + (controls.map controlSize).sum else 0 := by
  unfold tableFields
  split
  · obtain ⟨n, fills, size⟩ := controls_fill controls sound.backed
    refine ⟨_, (Fills.int32 .appControls cp.numOfControllers.toUInt32).append fills, ?_⟩
    omega
  · rename_i none
    rw [listed_none sound.listed none]
    exact ⟨0, .nil, rfl⟩

theorem payloadFields_fills (sound : Sound cp pad controls) (encrypted : Bool) :
    ∃ n, Fills (payloadFields cp controls encrypted) n ∧
      n + (controls.map unwritten).sum + (if encrypted then 0 else 5) = plainSize cp controls := by
  have bounds := pad.h_bounds
  obtain ⟨t, table, tableSize⟩ := tableFields_fills sound
  have declared : Fills (if encrypted then [tagInt32 .payloadLength cp.payloadLength] else [])
      (if encrypted then 5 else 0) := by
    cases encrypted
    · exact .nil
    · exact .int32 .payloadLength cp.payloadLength
  have parts := ((((declared.append
    (paddingBefore_fills .payloadRandomPaddingLength .payloadRandomPaddingHigh pad
      cp.payloadRandomPadding)).append (actionFields_fills sound)).append table).append
    (payload_fills sound)).append
    (paddingBehind_fills .payloadRandomPaddingLow pad cp.payloadRandomPadding)
  rw [← sound.padding] at parts
  refine ⟨_, parts, ?_⟩
  simp only [plainSize, Padding.l] at tableSize ⊢
  cases encrypted <;> simp only [if_true, Bool.false_eq_true, if_false] <;> omega

theorem sectionFields_fills (declared length : UInt32) (bytes : Bytes)
    (there : length.toNat ≤ bytes.length) :
    Fills (sectionFields declared length bytes) (5 + (1 + length.toNat)) :=
  (Fills.int32 .payloadLength declared).append (.data8 .encryptedPayload there)

structure SealsData (crypto : Crypto) (cp : ChatPacket) (pair : ChatFabricPairing) (e : Encoded)
    (controls : List CfControl) (payload : OutBuf) : Prop where
  listed : listedControls cp = .ok controls
  filled : encodeFields (.calloc (plainLength cp controls).toNat) (payloadFields cp controls true) =
    .ok payload
  size : (sealBytes crypto pair.sharedkey (chatPacketCalcNonce (pair.serial + 1) pair.nonce)
    payload.msg).length = (plainLength cp controls + 16).toNat
  message : encodeMessage { cp with serial := pair.serial + 1 }
    (headerLength + (plainLength cp controls + 16 + 1 + 4 + 1))
    (sectionFields (plainLength cp controls + 16) (plainLength cp controls + 16)
      (sealBytes crypto pair.sharedkey (chatPacketCalcNonce (pair.serial + 1) pair.nonce)
        payload.msg)) = .ok e.msg
  done : e = ⟨e.msg, { pair with serial := pair.serial + 1 },
    some (pair.sharedkey, chatPacketCalcNonce (pair.serial + 1) pair.nonce)⟩

theorem encodeData_seals {crypto : Crypto} {cp : ChatPacket} {pair : ChatFabricPairing} {e : Encoded}
    (encoded : encodeData crypto cp pair true = .ok e) :
    ∃ controls payload, SealsData crypto cp pair e controls payload := by
  simp only [encodeData, Except.map, bind, Except.bind, if_true] at encoded
  cases listed : listedControls cp with
  | error stop => simp [listed] at encoded
  | ok controls =>
    simp only [listed] at encoded
    cases filled : encodeFields (.calloc (plainLength cp controls).toNat)
        (payloadFields cp controls true) with
    | error stop => simp [filled] at encoded
    | ok payload =>
      simp only [filled] at encoded
      split at encoded
      · rename_i fits
        split at encoded <;> cases encoded
        rename_i msg message
        refine ⟨controls, payload, listed, filled, ?_, message, rfl⟩
        obtain ⟨room, _, inside⟩ := encodeFields_written (Nat.zero_le _) filled
        have sum : (plainLength cp controls + 16).toNat = (plainLength cp controls).toNat + 16 := by
          rw [UInt32.toNat_add]
          exact Nat.mod_eq_of_lt fits
        rw [length_sealBytes, length_msg inside, room, sum]
        rfl
      · cases encoded

end ChatFabric
