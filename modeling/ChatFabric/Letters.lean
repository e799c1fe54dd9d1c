import ChatFabric.DecodeFields
import ChatFabric.Device

/- What the other side reads of a reply: the round trip of the three kinds of packet that
   carry no application data. -/
namespace ChatFabric
open ByteStrings WhileLoop TagStream

/-- The part of a packet that the pairing commands look at. -/
structure Letter where
  cmd : Command
  flags : UInt32
  toUuid : UuidTuple
  fromUuid : UuidTuple
  publickey : Block 32
  nonce : Block 8
  deriving DecidableEq

def ChatPacket.letter (cp : ChatPacket) : Letter :=
  ⟨cp.cmd, cp.flags, cp.toUuid, cp.fromUuid, cp.publickey, cp.nonce⟩

def headerStored (cp : ChatPacket) : List Field :=
  [⟨.cmd, be32 cp.cmd.toCode, fun v cp => { cp with cmd := .ofCode (ofBe32 v) }⟩,
   ⟨.serial, be32 cp.serial, fun v cp => { cp with serial := ofBe32 v }⟩,
   ⟨.flags, be32 cp.flags, fun v cp => { cp with flags := ofBe32 v }⟩,
   ⟨.to0, cp.toUuid.u0.val, fun v cp => { cp with toUuid.u0 := .ofBytes 16 v }⟩,
   ⟨.to1, cp.toUuid.u1.val, fun v cp => { cp with toUuid.u1 := .ofBytes 16 v }⟩,
   ⟨.from0, cp.fromUuid.u0.val, fun v cp => { cp with fromUuid.u0 := .ofBytes 16 v }⟩,
   ⟨.from1, cp.fromUuid.u1.val, fun v cp => { cp with fromUuid.u1 := .ofBytes 16 v }⟩]

def publickeyStored (cp : ChatPacket) : Field :=
  ⟨.publickey, cp.publickey.val, fun v cp => { cp with publickey := .ofBytes 32 v }⟩

def lengthStored (length : UInt32) : Field :=
  ⟨.envelopeLength, be32 length, fun v cp => { cp with envelopeLength := ofBe32 v }⟩

variable {env : DecodeEnv} {again : DecodeCall} {b : Bytes} {len : Nat} {reply : ChatPacket}

theorem headerStored_known (cp : ChatPacket) : ∀ f ∈ headerStored cp, f.Known env := by
  simp [headerStored, Field.Known, tagCase]

theorem publickeyStored_known (cp : ChatPacket) : (publickeyStored cp).Known env := by
  simp [publickeyStored, Field.Known, tagCase]

theorem lengthStored_known (length : UInt32) : (lengthStored length).Known env := by
  simp [lengthStored, Field.Known, tagCase]

theorem headerStored_bytes (cp : ChatPacket) (fields : List (UInt8 × TagData)) :
    messageBytes cp fields =
      (headerStored cp).flatMap Field.bytes ++ fieldBytes (plainFields fields) := by
  simp [messageBytes, headerFields, headerStored, fieldBytes, plainFields, Field.bytes, tagInt32,
    tagUuid, TagData.plain]

def withHeader (cp reply : ChatPacket) : ChatPacket :=
  { cp with
    cmd := reply.cmd
    serial := reply.serial
    flags := reply.flags
    toUuid := reply.toUuid
    fromUuid := reply.fromUuid }

theorem headerStored_foldl (cp reply : ChatPacket) :
    (headerStored reply).foldl (fun cp f => f.store f.value cp) cp = withHeader cp reply := by
  simp [headerStored, withHeader]

theorem decodes_fields {fields : List Field} (each : ∀ f ∈ fields, f.Known env) {cp : ChatPacket}
    {allocs : Nat} (whole : Ahead b len (.start cp allocs) (fields.flatMap Field.bytes))
    (short : len ≤ b.length) (small : len < 2 ^ 32) :
    ∃ fuel, chatPacketDecode env fuel cp allocs b len =
      .returned 0 (fields.foldl (fun cp f => f.store f.value cp) cp) allocs := by
  obtain ⟨i, reach, after⟩ := reads_fields (chatPacketDecode env 0) each
    (by simpa using whole : Ahead b len _ (fields.flatMap Field.bytes ++ [])) short small
  exact chatPacketDecode_done reach (Nat.le_of_eq after.size.symm)

theorem lessMac_eq {length : UInt32} {n : Nat} (size : length.toNat = n + 16) :
    lessMac length = n := by
  have bound := length.toNat_lt
  simp only [lessMac, UInt32.toNat_sub, UInt32.reduceToNat]
  omega

section
variable {s : Decoding} {plain rest : Bytes} {nonce : Block 8} {length : UInt32}
  (ahead : Ahead b len s (sealBytes env.crypto env.pair.sharedkey nonce plain ++ rest))
  (short : len ≤ b.length) (size : length.toNat = plain.length + 16)
include ahead short size

theorem readAt_cipher :
    readAt b s.i (lessMac length) = .ok (s20Crypt env.pair.sharedkey nonce plain) := by
  simp only [sealBytes, List.append_assoc] at ahead
  have read := readAt_ahead ahead short
  rwa [show (s20Crypt env.pair.sharedkey nonce plain).length = lessMac length by
    rw [lessMac_eq size, s20Crypt, Salsa20.length_crypt]] at read

theorem verifySection_sealed (n : Nat) :
    verifySection env b s.i length n = if env.alloc n then .ok true else .error .nullPointer := by
  have cipher := readAt_cipher ahead short size
  simp only [sealBytes, List.append_assoc] at ahead
  have mac := readAt_ahead (ahead.past (t := { s with i := s.i + plain.length })
    (by simp [s20Crypt])) short
  rw [Block.length_val] at mac
  simp only [verifySection, cipher, bind, Except.bind]
  split
  · rw [show s.i + length.toNat - macBytes = s.i + plain.length by simp only [macBytes]; omega,
      macBytes, mac]
    simp [poly1305Verify]
  · rfl

theorem decryptSection_sealed (n : Nat) (some : plain ≠ []) :
    decryptSection env b s.i length n nonce =
      if env.alloc n then .ok plain else .error .nullPointer := by
  have cipher : s20Crypt env.pair.sharedkey nonce plain ≠ [] := by
    intro none
    have lengths := congrArg List.length none
    rw [s20Crypt, Salsa20.length_crypt, List.length_nil] at lengths
    exact some (List.eq_nil_of_length_eq_zero lengths)
  simp only [decryptSection, readAt_cipher ahead short size, bind, Except.bind, cipher, or_false]
  simp only [s20Crypt, Salsa20.crypt_crypt]

end

theorem openEnvelope_sealed {s : Decoding} {plain : Bytes}
    (ahead : Ahead b len s (sealBytes env.crypto env.pair.sharedkey env.pair.nullnonce plain))
    (short : len ≤ b.length) (size : s.cp.envelopeLength.toNat = plain.length + 16) (some : plain ≠ []) :
    openEnvelope env b s =
      if env.alloc (s.allocs + 1) ∧ env.alloc s.allocs then
        .ok (.section { s with
          i := advance s.i s.cp.envelopeLength.toNat
          cp.wasEncrypted := s.cp.wasEncrypted ||| 0x02
          dangling := false
          allocs := s.allocs + 2 } plain)
      else .error .nullPointer := by
  rw [← List.append_nil (sealBytes ..)] at ahead
  simp only [openEnvelope, verifySection_sealed ahead short size,
    decryptSection_sealed ahead short size _ some, bind, Except.bind]
  cases env.alloc (s.allocs + 1) <;> cases env.alloc s.allocs <;> simp

def envelopeBytes (reply : ChatPacket) (pair : ChatFabricPairing) : Bytes :=
  fieldBytes (plainFields (envelopeFields reply pair))

theorem paddingAt_fits (block : Block 16) {start : Nat} {v : Bytes} (fits : start + v.length ≤ 16) :
    paddingAt block start v = .ok (block.patch start v) := if_pos fits

theorem envelopeBytes_eq {pad : Padding} (padding : reply.envelopeRandomPaddingLength = pad.lengthByte)
    (pair : ChatFabricPairing) :
    envelopeBytes reply pair =
      Tag.envelopeRandomPaddingLength.toByte :: [pad.lengthByte] ++
        (Tag.envelopeRandomPaddingHigh.toByte :: reply.envelopeRandomPadding.val.take pad.h ++
          (Tag.nonce.toByte :: pair.mynonce.val ++
            (Tag.envelopeRandomPaddingLow.toByte :: reply.envelopeRandomPadding.val.drop pad.h ++ []))) := by
  have bounds := pad.h_bounds
  have rest : (reply.envelopeRandomPadding.val.drop pad.h).take pad.l =
      reply.envelopeRandomPadding.val.drop pad.h := by
    rw [List.take_of_length_le]
    simp [Padding.l]
  have high : pad.h % 4294967296 = pad.h := Nat.mod_eq_of_lt (by omega)
  have low : pad.l % 4294967296 = pad.l := Nat.mod_eq_of_lt (by simp only [Padding.l]; omega)
  simp [envelopeBytes, envelopeFields, paddingBefore, paddingBehind, plainFields, fieldBytes,
    tagData8, TagData.plain, padding, pad.h_lengthByte, pad.l_lengthByte, high, low, rest]

structure SameLetter (cp cp' : ChatPacket) : Prop where
  letter : cp'.letter = cp.letter
  serial : cp'.serial = cp.serial
  payloadLength : cp'.payloadLength = cp.payloadLength

section
variable {s : Decoding} {v rest : Bytes} (short : len ≤ b.length) (small : len < 2 ^ 32)
include short small

theorem pass_paddingLength (env : DecodeEnv) (again : DecodeCall) {c : UInt8}
    (ahead : Ahead b len s (Tag.envelopeRandomPaddingLength.toByte :: [c] ++ rest)) :
    ∃ t, Pass (decodeGuard len) (decodeBody env again b) s t ∧ Ahead b len t rest ∧
      SameLetter s.cp t.cp ∧ t.allocs = s.allocs ∧ t.h = c.toNat / 16 ∧ t.l = c.toNat % 16 := by
  have known : tagCase env { s with i := s.i + 1 } .envelopeRandomPaddingLength = .copy 1 1 _ := rfl
  obtain ⟨pass, after⟩ := pass_field again ahead short small known rfl
  exact ⟨_, pass, after, ⟨rfl, rfl, rfl⟩, rfl, rfl, rfl⟩

theorem pass_paddingHigh (env : DecodeEnv) (again : DecodeCall)
    (ahead : Ahead b len s (Tag.envelopeRandomPaddingHigh.toByte :: v ++ rest)) (some : v ≠ [])
    (size : s.h = v.length) (fits : v.length ≤ 16) :
    ∃ t, Pass (decodeGuard len) (decodeBody env again b) s t ∧ Ahead b len t rest ∧
      SameLetter s.cp t.cp ∧ t.allocs = s.allocs ∧ t.h = s.h ∧ t.l = s.l := by
  have known : tagCase env { s with i := s.i + 1 } .envelopeRandomPaddingHigh = .copy v.length v.length
      (fun v s => do
        let p ← paddingAt s.cp.envelopeRandomPadding 0 v
        .ok { s with cp.envelopeRandomPadding := p }) := by
    simp [tagCase, TagCase.padding, size, some]
  obtain ⟨pass, after⟩ := pass_field again ahead short small known (by
    rw [paddingAt_fits _ (by omega : 0 + v.length ≤ 16)]
    rfl)
  exact ⟨_, pass, after, ⟨rfl, rfl, rfl⟩, rfl, rfl, rfl⟩

theorem pass_paddingLow (env : DecodeEnv) (again : DecodeCall)
    (ahead : Ahead b len s (Tag.envelopeRandomPaddingLow.toByte :: v ++ rest)) (some : v ≠ [])
    (size : s.l = v.length) (fits : s.h + v.length ≤ 16) :
    ∃ t, Pass (decodeGuard len) (decodeBody env again b) s t ∧ Ahead b len t rest ∧
      SameLetter s.cp t.cp ∧ t.allocs = s.allocs := by
  have known : tagCase env { s with i := s.i + 1 } .envelopeRandomPaddingLow = .copy v.length v.length
      (fun v s => do
        let p ← paddingAt s.cp.envelopeRandomPadding s.h v
        .ok { s with cp.envelopeRandomPadding := p }) := by
    simp [tagCase, TagCase.padding, size, some]
  obtain ⟨pass, after⟩ := pass_field again ahead short small known (by
    rw [paddingAt_fits _ (by simpa using fits)]
    rfl)
  exact ⟨_, pass, after, ⟨rfl, rfl, rfl⟩, rfl⟩

theorem pass_nonce (env : DecodeEnv) (again : DecodeCall) {nonce : Block 8}
    (ahead : Ahead b len s (Tag.nonce.toByte :: nonce.val ++ rest)) :
    ∃ t, Pass (decodeGuard len) (decodeBody env again b) s t ∧ Ahead b len t rest ∧
      t.cp.letter = { s.cp.letter with nonce := nonce } ∧ t.cp.serial = s.cp.serial ∧
      t.cp.payloadLength = s.cp.payloadLength ∧ t.allocs = s.allocs ∧ t.h = s.h ∧ t.l = s.l := by
  have known : tagCase env { s with i := s.i + 1 } .nonce = .field nonce.val.length
      (fun v cp => { cp with nonce := .ofBytes 8 v }) := by
    rw [Block.length_val]
    rfl
  obtain ⟨pass, after⟩ := pass_field again ahead short small known rfl
  exact ⟨_, pass, after, by simp [ChatPacket.letter], rfl, rfl, rfl, rfl, rfl⟩

end

theorem envelope_decodes (env : DecodeEnv) {pad : Padding}
    (padding : reply.envelopeRandomPaddingLength = pad.lengthByte)
    (pair : ChatFabricPairing) (cp : ChatPacket) (allocs : Nat) :
    ∃ fuel cp', chatPacketDecode env fuel cp allocs (envelopeBytes reply pair)
        (envelopeBytes reply pair).length = .returned 0 cp' allocs ∧
      cp'.letter = { cp.letter with nonce := pair.mynonce } ∧ cp'.serial = cp.serial ∧
      cp'.payloadLength = cp.payloadLength := by
  have bounds := pad.h_bounds
  have whole := envelopeBytes_eq padding pair
  have high : (reply.envelopeRandomPadding.val.take pad.h).length = pad.h := by simp; omega
  have low : (reply.envelopeRandomPadding.val.drop pad.h).length = pad.l := by simp [Padding.l]
  have sum : pad.h + pad.l = 16 := by simp only [Padding.l]; omega
  generalize envelopeBytes reply pair = b at whole ⊢
  have small : b.length < 2 ^ 32 := by
    rw [whole]
    simp
    omega
  have start : Ahead b b.length (.start cp allocs) _ :=
    ⟨⟨[], (List.append_nil _).symm.trans (congrArg (· ++ []) whole)⟩, by simp [Decoding.start, whole]⟩
  obtain ⟨s₁, first, ahead, same₁, allocs₁, h₁, l₁⟩ :=
    pass_paddingLength (Nat.le_refl _) small env (chatPacketDecode env 0) start
  rw [pad.h_lengthByte] at h₁
  rw [pad.l_lengthByte] at l₁
  obtain ⟨s₂, second, ahead, same₂, allocs₂, h₂, l₂⟩ :=
    pass_paddingHigh (Nat.le_refl _) small env (chatPacketDecode env 0) ahead
      (List.ne_nil_of_length_pos (by omega)) (by omega) (by omega)
  obtain ⟨s₃, third, ahead, letter, serial, payloadLength, allocs₃, h₃, l₃⟩ :=
    pass_nonce (Nat.le_refl _) small env (chatPacketDecode env 0) ahead
  obtain ⟨s₄, fourth, ahead, same₄, allocs₄⟩ :=
    pass_paddingLow (Nat.le_refl _) small env (chatPacketDecode env 0) ahead
      (List.ne_nil_of_length_pos (by omega)) (by omega) (by omega)
  obtain ⟨fuel, run⟩ := chatPacketDecode_done
    (.head first (.head second (.head third (.single fourth)))) (Nat.le_of_eq ahead.size.symm)
  refine ⟨fuel, s₄.cp, ?_, ?_, ?_, ?_⟩
  · rw [run, allocs₄, allocs₃, allocs₂, allocs₁]
    rfl
  · rw [same₄.letter, letter, same₂.letter, same₁.letter]
    rfl
  · rw [same₄.serial, serial, same₂.serial, same₁.serial]
    rfl
  · rw [same₄.payloadLength, payloadLength, same₂.payloadLength, same₁.payloadLength]
    rfl

def nonceFields (crypto : Crypto) (reply : ChatPacket) (pair : ChatFabricPairing) :
    List (UInt8 × TagData) :=
  [tagInt32 .envelopeLength 45,
   tagData8 .encryptedEnvelope
     (some (sealBytes crypto pair.sharedkey pair.nullnonce (envelopeBytes reply pair))) 45]

theorem nonceFields_fills (crypto : Crypto) {pad : Padding}
    (padding : reply.envelopeRandomPaddingLength = pad.lengthByte) (pair : ChatFabricPairing) :
    Fills (nonceFields crypto reply pair) 51 := by
  have size : (envelopeBytes reply pair).length = 29 := (envelopeFields_fills padding pair).size
  exact (Fills.int32 .envelopeLength 45).append
    (.data8 .encryptedEnvelope (by rw [length_sealBytes, size]; decide))

theorem encodeNonce_eq {crypto : Crypto} {pad : Padding}
    (padding : reply.envelopeRandomPaddingLength = pad.lengthByte) (pair : ChatFabricPairing) :
    encodeNonce crypto reply pair true = .ok (messageBytes reply (nonceFields crypto reply pair)) := by
  have fills := envelopeFields_fills padding pair
  have envelope := encodeFields_fills fills
  have message := encodeMessage_fills reply (nonceFields_fills crypto padding pair)
    (by decide : (headerLength + (envelopeRoom + 16 + 1 + 1 + 4)).toNat = 83 + 51)
  have room : envelopeRoom.toNat = 29 := rfl
  simp only [encodeNonce, room, envelope, bind, Except.bind, if_true]
  exact message

theorem body_envelope (env : DecodeEnv) (again : DecodeCall) {s : Decoding} {rest : Bytes}
    (ahead : Ahead b len s (Tag.encryptedEnvelope.toByte :: rest)) (small : len < 2 ^ 32) :
    s.i < len ∧ Ahead b len { s with i := s.i + 1 } rest ∧
      decodeBody env again b s =
        enterSection again afterEnvelope (openEnvelope env b { s with i := s.i + 1 }) := by
  have tagged := ahead.atTag small
  exact ⟨tagged.inside, tagged.behind, tagged.body env again⟩

theorem nonceFields_bytes {crypto : Crypto} {pad : Padding}
    (padding : reply.envelopeRandomPaddingLength = pad.lengthByte) (pair : ChatFabricPairing) :
    messageBytes reply (nonceFields crypto reply pair) =
      (headerStored reply ++ [lengthStored 45]).flatMap Field.bytes ++
        Tag.encryptedEnvelope.toByte ::
          sealBytes crypto pair.sharedkey pair.nullnonce (envelopeBytes reply pair) := by
  have size : (envelopeBytes reply pair).length = 29 := (envelopeFields_fills padding pair).size
  have all := List.take_of_length_le (i := 45)
    (l := sealBytes crypto pair.sharedkey pair.nullnonce (envelopeBytes reply pair))
    (Nat.le_of_eq (by rw [length_sealBytes, size]))
  rw [headerStored_bytes]
  simp [nonceFields, plainFields, fieldBytes, lengthStored, Field.bytes, tagInt32, tagData8,
    TagData.plain, all]

section
variable {cp : ChatPacket} {allocs : Nat} (short : len ≤ b.length) (small : len < 2 ^ 32)
include short small

theorem decodes_command (env : DecodeEnv)
    (whole : Ahead b len (.start cp allocs) (messageBytes reply [])) :
    ∃ fuel, chatPacketDecode env fuel cp allocs b len = .returned 0 (withHeader cp reply) allocs := by
  rw [headerStored_bytes] at whole
  rw [← headerStored_foldl]
  exact decodes_fields (headerStored_known reply)
    (by simpa [fieldBytes, plainFields] using whole) short small

theorem decodes_publickey (env : DecodeEnv) (whole : Ahead b len (.start cp allocs)
      (messageBytes reply [tagData8 .publickey (some reply.publickey.val) 32])) :
    ∃ fuel, chatPacketDecode env fuel cp allocs b len =
      .returned 0 { withHeader cp reply with publickey := reply.publickey } allocs := by
  rw [headerStored_bytes] at whole
  have all : ∀ f ∈ headerStored reply ++ [publickeyStored reply], f.Known env := by
    intro f member
    rcases List.mem_append.mp member with header | last
    · exact headerStored_known reply f header
    · rw [List.mem_singleton.mp last]
      exact publickeyStored_known reply
  have read := decodes_fields all (by
    simpa [fieldBytes, plainFields, publickeyStored, Field.bytes, tagData8, TagData.plain] using whole)
    short small
  rw [List.foldl_append, headerStored_foldl] at read
  simpa [publickeyStored] using read

theorem decodes_nonce (env : DecodeEnv) {pad : Padding}
    (padding : reply.envelopeRandomPaddingLength = pad.lengthByte)
    {pair : ChatFabricPairing} (key : env.pair.sharedkey = pair.sharedkey)
    (nullnonce : env.pair.nullnonce = pair.nullnonce)
    (whole : Ahead b len (.start cp allocs)
      (messageBytes reply (nonceFields env.crypto reply pair))) :
    ∃ fuel,
      ((∃ n, env.alloc n = false) ∧ chatPacketDecode env fuel cp allocs b len = .fault .nullPointer) ∨
        ∃ cp' allocs', chatPacketDecode env fuel cp allocs b len = .returned 0 cp' allocs' ∧
          cp'.letter = { (withHeader cp reply).letter with nonce := pair.mynonce } ∧
          cp'.serial = reply.serial ∧ cp'.payloadLength = cp.payloadLength := by
  have size : (envelopeBytes reply pair).length = 29 := (envelopeFields_fills padding pair).size
  have all : ∀ f ∈ headerStored reply ++ [lengthStored 45], f.Known env := by
    intro f member
    rcases List.mem_append.mp member with header | last
    · exact headerStored_known reply f header
    · rw [List.mem_singleton.mp last]
      exact lengthStored_known 45
  rw [nonceFields_bytes padding] at whole
  -- the fuel of the call on the envelope, whatever the packet it is given
  obtain ⟨fuel, cp', nested, letter, serial, payloadLength⟩ := envelope_decodes env padding pair
    { withHeader cp reply with envelopeLength := 45, wasEncrypted := cp.wasEncrypted ||| 0x02 }
    (allocs + 2)
  obtain ⟨i, reach, ahead⟩ := reads_fields (chatPacketDecode env fuel) all whole short small
  rw [List.foldl_append, Decoding.start, headerStored_foldl] at reach ahead
  obtain ⟨more, inside, leave⟩ := body_envelope env (chatPacketDecode env fuel)
    ahead small
  rw [← key, ← nullnonce] at inside
  have opened := openEnvelope_sealed inside short (by rw [size]; simp [lengthStored])
    (List.ne_nil_of_length_pos (by omega))
  rw [opened] at leave
  by_cases allocated : env.alloc (allocs + 1) = true ∧ env.alloc allocs = true
  · rw [if_pos allocated] at leave
    simp only [enterSection, lengthStored, List.foldl_cons, List.foldl_nil, ofBe32_be32] at leave nested
    rw [show (withHeader cp reply).wasEncrypted = cp.wasEncrypted from rfl, nested] at leave
    obtain ⟨enough, run⟩ := chatPacketDecode_exit reach more leave (by simp)
    exact ⟨enough, .inr ⟨cp', allocs + 2, run, letter, serial, payloadLength⟩⟩
  · rw [if_neg allocated] at leave
    obtain ⟨enough, run⟩ := chatPacketDecode_exit reach more leave (by simp)
    refine ⟨enough, .inl ⟨?_, run⟩⟩
    by_contra none
    have every : ∀ n, env.alloc n = true := by simpa using none
    exact allocated ⟨every _, every _⟩

end

/-- The datagram a reply without application data becomes. -/
def wire (crypto : Crypto) (reply : ChatPacket) (pair : ChatFabricPairing) : Bytes :=
  messageBytes reply (match replyPacketType reply.cmd with
    | .publickey => [tagData8 .publickey (some reply.publickey.val) 32]
    | .nonce => nonceFields crypto reply pair
    | _ => [])

theorem chatPacketEncode_wire (crypto : Crypto) {pad : Padding}
    (padding : reply.envelopeRandomPaddingLength = pad.lengthByte) (pair : ChatFabricPairing)
    (noData : replyPacketType reply.cmd ≠ .data) :
    chatPacketEncode crypto reply pair true (replyPacketType reply.cmd) =
      .ok ⟨wire crypto reply pair, pair, none⟩ := by
  cases type : replyPacketType reply.cmd with
  | data => exact absurd type noData
  | command => simp [chatPacketEncode, wire, type, encodeCommand_eq, Except.map]
  | publickey => simp [chatPacketEncode, wire, type, encodePublickey_eq, Except.map]
  | nonce => simp [chatPacketEncode, wire, type, encodeNonce_eq padding, Except.map]

def wireLetter (reply : ChatPacket) (pair : ChatFabricPairing) : Letter where
  cmd := reply.cmd
  flags := reply.flags
  toUuid := reply.toUuid
  fromUuid := reply.fromUuid
  publickey := if replyPacketType reply.cmd = .publickey then reply.publickey else .zero 32
  nonce := if replyPacketType reply.cmd = .nonce then pair.mynonce else .zero 8

theorem length_messageBytes {fields : List (UInt8 × TagData)} {n : Nat} (fills : Fills fields n) :
    (messageBytes reply fields).length = 83 + n :=
  ((headerFields_fills reply).append fills).size

theorem length_wire (crypto : Crypto) {pad : Padding}
    (padding : reply.envelopeRandomPaddingLength = pad.lengthByte) (pair : ChatFabricPairing) :
    (wire crypto reply pair).length ≤ bufferSize := by
  unfold wire
  split
  · rw [length_messageBytes (.data8 .publickey (by simp))]
    decide
  · rw [length_messageBytes (nonceFields_fills crypto padding pair)]
    decide
  · rw [length_messageBytes .nil]
    decide

theorem ahead_receiveBuffer {datagram : Bytes} (fits : datagram.length ≤ bufferSize)
    (cp : ChatPacket) (allocs : Nat) :
    Ahead (receiveBuffer datagram) (min datagram.length bufferSize) (.start cp allocs) datagram where
  here := by
    refine ⟨(List.replicate bufferSize 0).take (bufferSize - datagram.length), ?_⟩
    simp [receiveBuffer, Decoding.start, List.take_append, List.take_of_length_le fits]
  size := by simp [Decoding.start, Nat.min_eq_left fits]

theorem length_receiveBuffer (datagram : Bytes) : (receiveBuffer datagram).length = bufferSize := by
  simp [receiveBuffer]

theorem received_short (datagram : Bytes) :
    min datagram.length bufferSize ≤ (receiveBuffer datagram).length := by
  rw [length_receiveBuffer]
  exact Nat.min_le_right _ _

theorem received_small (datagram : Bytes) : min datagram.length bufferSize < 2 ^ 32 :=
  Nat.lt_of_le_of_lt (Nat.min_le_right _ _) (by decide)

theorem decodes_wire (env : DecodeEnv) {pad : Padding}
    (padding : reply.envelopeRandomPaddingLength = pad.lengthByte) {pair : ChatFabricPairing}
    (noData : replyPacketType reply.cmd ≠ .data)
    (key : replyPacketType reply.cmd = .nonce →
      env.pair.sharedkey = pair.sharedkey ∧ env.pair.nullnonce = pair.nullnonce)
    (random : PacketRandom) :
    ∃ fuel r, chatPacketDecode env fuel (chatPacketInit0 random) 0
        (receiveBuffer (wire env.crypto reply pair))
        (min (wire env.crypto reply pair).length bufferSize) = r ∧
      (((∃ n, env.alloc n = false) ∧ r = .fault .nullPointer) ∨
        ∃ cp allocs, r = .returned 0 cp allocs ∧ cp.letter = wireLetter reply pair ∧
          cp.payloadLength = 0) := by
  have whole := ahead_receiveBuffer (length_wire env.crypto padding pair) (chatPacketInit0 random) 0
  have short := received_short (wire env.crypto reply pair)
  have small := received_small (wire env.crypto reply pair)
  generalize receiveBuffer (wire env.crypto reply pair) = b at whole short ⊢
  generalize min (wire env.crypto reply pair).length bufferSize = len at whole short small ⊢
  unfold wire at whole
  cases type : replyPacketType reply.cmd with
  | data => exact absurd type noData
  | command =>
    simp only [type] at whole
    obtain ⟨fuel, run⟩ := decodes_command short small env whole
    exact ⟨fuel, _, run, .inr ⟨_, _, rfl, by
      simp [wireLetter, type, withHeader, ChatPacket.letter, chatPacketInit0], rfl⟩⟩
  | publickey =>
    simp only [type] at whole
    obtain ⟨fuel, run⟩ := decodes_publickey short small env whole
    exact ⟨fuel, _, run, .inr ⟨_, _, rfl, by
      simp [wireLetter, type, withHeader, ChatPacket.letter, chatPacketInit0], rfl⟩⟩
  | nonce =>
    simp only [type] at whole
    obtain ⟨fuel, ⟨none, run⟩ | ⟨cp, allocs, run, letter, _, payloadLength⟩⟩ :=
      decodes_nonce short small env padding (key type).1 (key type).2 whole
    · exact ⟨fuel, _, run, .inl ⟨none, rfl⟩⟩
    · refine ⟨fuel, _, run, .inr ⟨cp, allocs, rfl, ?_, payloadLength⟩⟩
      rw [letter]
      simp [wireLetter, type, withHeader, ChatPacket.letter, chatPacketInit0]

structure Receives (crypto : Crypto) (pair : ChatFabricPairing) (datagram : Bytes) (letter : Letter) :
    Prop where
  only : ∀ (w : World) b cp received, receivePacket crypto w pair b datagram = .ok (cp, received) →
    cp.letter = letter
  some : ∀ (w : World) b, (∀ n, w.alloc n = true) → ∃ fuel cp received,
    receivePacket crypto { w with fuel := fuel } pair b datagram = .ok (cp, received)

theorem receives_wire {crypto : Crypto} {pad : Padding}
    (padding : reply.envelopeRandomPaddingLength = pad.lengthByte) {receiver pair : ChatFabricPairing}
    (noData : replyPacketType reply.cmd ≠ .data)
    (key : replyPacketType reply.cmd = .nonce →
      receiver.sharedkey = pair.sharedkey ∧ receiver.nullnonce = pair.nullnonce) :
    Receives crypto receiver (wire crypto reply pair) (wireLetter reply pair) := by
  constructor
  · intro w b cp received run
    obtain ⟨fuel, r, decodes, ends⟩ := decodes_wire (decodeEnv crypto w receiver) padding
      noData key w.random
    have stops : r ≠ .endless := by rcases ends with ⟨_, rfl⟩ | ⟨_, _, rfl, _⟩ <;> simp
    unfold receivePacket at run
    rcases chatPacketDecode_unique w.fuel decodes stops with same | stuck
    · rw [show (decodeEnv crypto w receiver).crypto = crypto from rfl] at same
      rw [same] at run
      rcases ends with ⟨_, rfl⟩ | ⟨cp', allocs, rfl, letter, noPayload⟩
      · cases run
      · simp only [fillPayload, noPayload] at run
        cases run
        exact letter
    · rw [show (decodeEnv crypto w receiver).crypto = crypto from rfl] at stuck
      rw [stuck] at run
      cases run
  · intro w b memory
    obtain ⟨fuel, r, decodes, ⟨⟨n, none⟩, _⟩ | ⟨cp, allocs, rfl, letter, noPayload⟩⟩ :=
      decodes_wire (decodeEnv crypto w receiver) padding noData key w.random
    · simp [decodeEnv, memory] at none
    · refine ⟨fuel, cp, fillAction cp { b with length := 0 }, ?_⟩
      have same : chatPacketDecode (decodeEnv crypto { w with fuel := fuel } receiver) fuel
          (chatPacketInit0 w.random) 0 (receiveBuffer (wire crypto reply pair))
          (min (wire crypto reply pair).length bufferSize) = .returned 0 cp allocs := decodes
      simp only [receivePacket, same, fillPayload, noPayload]
      rfl

end ChatFabric
