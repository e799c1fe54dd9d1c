import ChatFabric.Letters

/- What the decoder makes of the fields of a payload section: the padding, an action, a
   table of controls and the payload itself. -/
namespace ChatFabric
open ByteStrings WhileLoop TagStream

theorem plain_nil : fieldBytes (plainFields []) = [] := rfl

theorem plain_append (first second : List (UInt8 × TagData)) :
    fieldBytes (plainFields (first ++ second)) =
      fieldBytes (plainFields first) ++ fieldBytes (plainFields second) := by
  simp [plainFields, fieldBytes]

theorem plain_int32 (tag : Tag) (value : UInt32) (rest : List (UInt8 × TagData)) :
    fieldBytes (plainFields (tagInt32 tag value :: rest)) =
      tag.toByte :: be32 value ++ fieldBytes (plainFields rest) := by
  simp [plainFields, fieldBytes, tagInt32, TagData.plain]

theorem plain_data8 (tag : Tag) (s : Bytes) (length : UInt32) (rest : List (UInt8 × TagData)) :
    fieldBytes (plainFields (tagData8 tag (some s) length :: rest)) =
      tag.toByte :: s.take length.toNat ++ fieldBytes (plainFields rest) := by
  simp [plainFields, fieldBytes, tagData8, TagData.plain]

structure Reads (env : DecodeEnv) (again : DecodeCall) (b : Bytes) (len : Nat) (s t : Decoding)
    (rest : Bytes) : Prop where
  reach : Reaches (decodeGuard len) (decodeBody env again b) s t
  ahead : Ahead b len t rest

variable {env : DecodeEnv} {again : DecodeCall} {b : Bytes} {len : Nat} {s t u : Decoding}
  {rest later v : Bytes}

theorem Reads.trans (first : Reads env again b len s t rest)
    (second : Reads env again b len t u later) : Reads env again b len s u later :=
  ⟨first.reach.trans second.reach, second.ahead⟩

def ChatPacket.content (cp : ChatPacket) : ChatPacket :=
  { cp with
    envelopeRandomPaddingLength := 0
    envelopeRandomPadding := .zero 16
    payloadRandomPaddingLength := 0
    payloadRandomPadding := .zero 16 }

def actionStored (reply : ChatPacket) : List Field :=
  [⟨.action, be32 reply.action, fun v cp => { cp with action := ofBe32 v }⟩,
   ⟨.actionControl, be32 reply.actionControl, fun v cp => { cp with actionControl := ofBe32 v }⟩,
   ⟨.actionType, be32 reply.actionType, fun v cp => { cp with actionType := ofBe32 v }⟩,
   ⟨.actionValue, be32 reply.actionValue.toUInt32,
    fun v cp => { cp with actionValue := (ofBe32 v).toInt32 }⟩]

theorem actionStored_known (reply : ChatPacket) : ∀ f ∈ actionStored reply, f.Known env := by
  simp [actionStored, Field.Known, tagCase]

/-- What the five words of an action make of the packet; the data are still zero. -/
def withAction (cp reply : ChatPacket) : ChatPacket :=
  { cp with
    action := reply.action
    actionControl := reply.actionControl
    actionType := reply.actionType
    actionValue := reply.actionValue
    actionLength := reply.actionLength
    actionData :=
      if 0 < reply.actionLength then some (List.replicate reply.actionLength.toNat 0)
      else cp.actionData }

def actionWords (reply : ChatPacket) : List (UInt8 × TagData) :=
  [tagInt32 .action reply.action,
   tagInt32 .actionControl reply.actionControl,
   tagInt32 .actionType reply.actionType,
   tagInt32 .actionValue reply.actionValue.toUInt32,
   tagInt32 .actionLength reply.actionLength]

theorem actionWords_bytes (reply : ChatPacket) (rest : Bytes) :
    fieldBytes (plainFields (actionWords reply)) ++ rest =
      (actionStored reply).flatMap Field.bytes ++
        (Tag.actionLength.toByte :: be32 reply.actionLength ++ rest) := by
  simp [actionWords, actionStored, plainFields, fieldBytes, Field.bytes, tagInt32, TagData.plain]

section
variable (env again)
variable (short : len ≤ b.length) (small : len < 2 ^ 32)
include short small

theorem reads_field {tag : Tag} {f : Bytes → Decoding → Except Fault Decoding}
    (ahead : Ahead b len s (tag.toByte :: v ++ rest))
    (known : ∀ i, tagCase env { s with i := i } tag = .copy v.length v.length f)
    (stored : ∀ i, f v { s with i := i } = .ok { t with i := i }) :
    ∃ i, Reads env again b len s { t with i := i } rest := by
  obtain ⟨pass, after⟩ := pass_field again ahead short small (known _) (stored _)
  exact ⟨_, .single pass, after⟩

theorem reads_payloadLength {m : UInt32}
    (ahead : Ahead b len s (Tag.payloadLength.toByte :: be32 m ++ rest))
    (enough : ¬ s.cp.payloadLength < m) :
    ∃ i, Reads env again b len s { s with i := i, cp.payloadLength := m } rest := by
  apply reads_field env again (t := { s with cp.payloadLength := m }) short small ahead (fun i => rfl)
  intro i
  simp [enough]

theorem reads_paddingHigh {pad : Padding} {padding : Block 16}
    (ahead : Ahead b len s (fieldBytes (plainFields (paddingBefore .payloadRandomPaddingLength
      .payloadRandomPaddingHigh pad.lengthByte padding)) ++ rest)) :
    ∃ i, Reads env again b len s { s with
      i := i
      hp := pad.h
      lp := pad.l
      cp.payloadRandomPaddingLength := pad.lengthByte
      cp.payloadRandomPadding := s.cp.payloadRandomPadding.patch 0 (padding.val.take pad.h) } rest := by
  have bounds := pad.h_bounds
  have high : (UInt32.ofNat (pad.lengthByte.toNat / 16)).toNat = pad.h := by
    rw [pad.h_lengthByte, toNat_ofNibble (by omega)]
  have size : (padding.val.take pad.h).length = pad.h := by simp; omega
  rw [paddingBefore, plain_data8, plain_data8, high] at ahead
  have front : Ahead b len s (Tag.payloadRandomPaddingLength.toByte :: [pad.lengthByte] ++
      (Tag.payloadRandomPaddingHigh.toByte :: padding.val.take pad.h ++ rest)) := by
    simpa [plainFields, fieldBytes] using ahead
  obtain ⟨i, first⟩ := reads_field env again (t := { s with
      cp.payloadRandomPaddingLength := pad.lengthByte
      hp := pad.lengthByte.toNat / 16
      lp := pad.lengthByte.toNat % 16 }) short small front (fun i => rfl) fun i => rfl
  rw [pad.h_lengthByte, pad.l_lengthByte] at first
  obtain ⟨j, second⟩ := reads_field env again (t := { s with
      cp.payloadRandomPaddingLength := pad.lengthByte
      cp.payloadRandomPadding := s.cp.payloadRandomPadding.patch 0 (padding.val.take pad.h)
      hp := pad.h
      lp := pad.l }) short small first.ahead
    (f := fun v s => do
      let p ← paddingAt s.cp.payloadRandomPadding 0 v
      .ok { s with cp.payloadRandomPadding := p })
    (fun i => by
      have some : pad.h ≠ 0 := by omega
      simp only [tagCase, TagCase.padding, some, if_false, size])
    (fun i => by
      rw [paddingAt_fits _ (by omega : 0 + (padding.val.take pad.h).length ≤ 16)]
      rfl)
  exact ⟨j, first.trans second⟩

theorem reads_paddingBefore {pad : Padding} {padding : Block 16}
    (ahead : Ahead b len s (fieldBytes (plainFields (paddingBefore .payloadRandomPaddingLength
      .payloadRandomPaddingHigh pad.lengthByte padding)) ++ rest)) :
    ∃ i cp, Reads env again b len s { s with i := i, hp := pad.h, lp := pad.l, cp := cp } rest ∧
      cp.content = s.cp.content := by
  obtain ⟨i, reads⟩ := reads_paddingHigh env again short small ahead
  exact ⟨i, _, reads, rfl⟩

/-- The second part of the padding goes to the padding of the envelope. -/
theorem reads_paddingLow {pad : Padding} {padding : Block 16} (high : s.hp = pad.h)
    (low : s.lp = pad.l)
    (ahead : Ahead b len s (fieldBytes (plainFields
      [paddingBehind .payloadRandomPaddingLow pad.lengthByte padding]) ++ rest)) :
    ∃ i, Reads env again b len s { s with
      i := i
      cp.envelopeRandomPadding := s.cp.envelopeRandomPadding.patch pad.h
        (padding.val.drop pad.h) } rest := by
  have bounds := pad.h_bounds
  have count : (UInt32.ofNat (pad.lengthByte.toNat % 16)).toNat = pad.l := by
    rw [pad.l_lengthByte, toNat_ofNibble (by simp only [Padding.l]; omega)]
  have size : (padding.val.drop pad.h).length = pad.l := by simp [Padding.l]
  have split : pad.h + pad.l = 16 := by simp only [Padding.l]; omega
  rw [paddingBehind, plain_data8, count, pad.h_lengthByte,
    List.take_of_length_le (Nat.le_of_eq size)] at ahead
  have front : Ahead b len s (Tag.payloadRandomPaddingLow.toByte ::
      padding.val.drop pad.h ++ rest) := by
    simpa [plainFields, fieldBytes] using ahead
  exact reads_field env again (t := { s with
      cp.envelopeRandomPadding := s.cp.envelopeRandomPadding.patch pad.h
        (padding.val.drop pad.h) }) short small front
    (f := fun v s => do
      let p ← paddingAt s.cp.envelopeRandomPadding s.hp v
      .ok { s with cp.envelopeRandomPadding := p })
    (fun i => by
      have some : pad.l ≠ 0 := by omega
      simp only [tagCase, TagCase.padding, low, some, if_false, size])
    (fun i => by
      simp only [high]
      rw [paddingAt_fits _ (by omega)]
      rfl)

theorem reads_paddingBehind {pad : Padding} {padding : Block 16} (high : s.hp = pad.h)
    (low : s.lp = pad.l)
    (ahead : Ahead b len s (fieldBytes (plainFields
      [paddingBehind .payloadRandomPaddingLow pad.lengthByte padding]) ++ rest)) :
    ∃ i cp, Reads env again b len s { s with i := i, cp := cp } rest ∧ cp.content = s.cp.content := by
  obtain ⟨i, reads⟩ := reads_paddingLow env again short small high low ahead
  exact ⟨i, _, reads, rfl⟩

theorem reads_payload {d : Bytes} (ahead : Ahead b len s (Tag.payload.toByte :: v ++ rest))
    (length : s.cp.payloadLength.toNat = v.length) (some : v ≠ []) (buffer : s.cp.payload = .some d)
    (room : v.length ≤ d.length) :
    ∃ i, Reads env again b len s
      { s with i := i, cp.payload := .some (v ++ d.drop v.length) } rest := by
  apply reads_field env again (t := { s with cp.payload := .some (v ++ d.drop v.length) }) short small ahead
    (f := fun v s => do
      let p ← memcpyTo .payloadWrite s.cp.payload v
      .ok { s with cp.payload := p })
  · intro i
    simp only [tagCase, length]
  · intro i
    simp only [memcpyTo, some, if_false, buffer, room, if_true, bind, Except.bind]

theorem reads_actionWords {reply : ChatPacket}
    (ahead : Ahead b len s (fieldBytes (plainFields (actionWords reply)) ++ rest))
    (memory : 0 < reply.actionLength → ∀ n, env.alloc n = true) :
    ∃ i a, Reads env again b len s { s with i := i, allocs := a, cp := withAction s.cp reply } rest := by
  rw [actionWords_bytes] at ahead
  obtain ⟨i, reach, after⟩ := reads_fields again (actionStored_known reply) ahead short small
  simp only [actionStored, List.foldl_cons, List.foldl_nil, ofBe32_be32,
    Int32.toInt32_toUInt32] at reach after
  have words : Reads env again b len s _ _ := ⟨reach, after⟩
  by_cases some : 0 < reply.actionLength
  · obtain ⟨j, length⟩ := reads_field env again (t := { s with
        cp := withAction s.cp reply, allocs := s.allocs + 1 }) short small after (fun i => rfl)
      (fun i => by simp [withAction, some, DecodeEnv.calloc, memory some])
    exact ⟨j, s.allocs + 1, words.trans length⟩
  · obtain ⟨j, length⟩ := reads_field env again
      (t := { s with cp := withAction s.cp reply }) short small after (fun i => rfl)
      (fun i => by simp [withAction, some])
    exact ⟨j, s.allocs, words.trans length⟩

/-- The data of an action are copied by their own length and passed by that of the payload. -/
theorem reads_skewedData {d : Bytes}
    (ahead : Ahead b len s (Tag.actionData.toByte :: v ++ rest)) (some : v ≠ [])
    (length : s.cp.actionLength.toNat = v.length) (buffer : s.cp.actionData = .some d)
    (room : d.length = v.length) (inside : s.cp.payloadLength.toNat ≤ (v ++ rest).length) :
    ∃ i, Reads env again b len s { s with i := i, cp.actionData := .some v }
      ((v ++ rest).drop s.cp.payloadLength.toNat) := by
  have tagged : AtTag b len s .actionData (v ++ rest) := ahead.atTag small
  have size := tagged.behind.size
  simp only [List.length_append] at size inside
  have moved : advance (s.i + 1) s.cp.payloadLength.toNat = s.i + 1 + s.cp.payloadLength.toNat :=
    Nat.mod_eq_of_lt (by omega)
  have stored : memcpyTo .actionDataWrite s.cp.actionData v = .ok (.some v) := by
    simp [memcpyTo, some, buffer, room]
  refine ⟨s.i + 1 + s.cp.payloadLength.toNat, .single ⟨decide_eq_true tagged.inside, ?_⟩, ?_⟩
  · rw [tagged.body]
    simp only [tagCase, decodeCase, decodeCopy, length, readAt_ahead tagged.behind short, stored, moved,
      bind, Except.bind, Except.mapError]
  · have value := tagged.behind
    rw [← List.take_append_drop s.cp.payloadLength.toNat (v ++ rest)] at value
    apply value.past
    simp only [List.length_take, List.length_append]
    omega

theorem reads_actionData {d : Bytes}
    (ahead : Ahead b len s (Tag.actionData.toByte :: v ++ rest)) (some : v ≠ [])
    (length : s.cp.actionLength.toNat = v.length) (same : s.cp.payloadLength = s.cp.actionLength)
    (buffer : s.cp.actionData = .some d) (room : d.length = v.length) :
    ∃ i, Reads env again b len s { s with i := i, cp.actionData := .some v } rest := by
  have reads := reads_skewedData env again short small ahead some length buffer room
    (by rw [same, length]; simp)
  rwa [same, length, List.drop_left] at reads

end

end ChatFabric
