import ChatFabric.TableDecode

/- A DATA packet at its receiver: the sealed section opens, and the packet ends as the call
   on the opened section does. -/
namespace ChatFabric
open ByteStrings WhileLoop TagStream

variable {env : DecodeEnv} {again : DecodeCall} {b : Bytes} {len : Nat} {s t : Decoding}
  {reply : ChatPacket} {plain rest : Bytes}

theorem openPayload_sealed
    (ahead : Ahead b len s (sealBytes env.crypto env.pair.sharedkey
      (chatPacketCalcNonce s.cp.serial env.pair.mynonce) plain))
    (short : len ≤ b.length) (size : s.cp.payloadLength.toNat = plain.length + 16) (some : plain ≠ []) :
    openPayload env b s =
      if env.alloc s.allocs ∧ env.alloc (s.allocs + 1) ∧ env.alloc (s.allocs + 2) then
        .ok (.section { s with
          i := advance s.i s.cp.payloadLength.toNat
          cp.wasEncrypted := s.cp.wasEncrypted ||| 0x01
          dangling := true
          allocs := s.allocs + 3 } plain)
      else .error .nullPointer := by
  rw [← List.append_nil (sealBytes ..)] at ahead
  simp only [openPayload, verifySection_sealed ahead short size,
    decryptSection_sealed ahead short size _ some, bind, Except.bind]
  cases env.alloc s.allocs <;> cases env.alloc (s.allocs + 1) <;> cases env.alloc (s.allocs + 2) <;>
    simp

def sectionPacket (env : DecodeEnv) (cp : ChatPacket) (allocs : Nat) (reply : ChatPacket)
    (length : UInt32) : ChatPacket :=
  { withHeader cp reply with
    payload := env.calloc allocs length.toNat
    payloadLength := length
    wasEncrypted := cp.wasEncrypted ||| 0x01 }

def sectionEnd : DecodeEnd → DecodeEnd
  | .returned ret cp allocs => .returned (if ret = 0 then 0 else -1) cp allocs
  | stop => stop

theorem messageBytes_section (reply : ChatPacket) {length : UInt32} {bytes : Bytes}
    (all : bytes.length = length.toNat) :
    messageBytes reply (sectionFields length length bytes) =
      (headerStored reply).flatMap Field.bytes ++
        (Tag.payloadLength.toByte :: be32 length ++ (Tag.encryptedPayload.toByte :: bytes)) := by
  have whole : bytes.take length.toNat = bytes := List.take_of_length_le (Nat.le_of_eq all)
  rw [headerStored_bytes, sectionFields, plain_int32, plain_data8, whole]
  simp [plainFields, fieldBytes]

theorem body_payload (env : DecodeEnv) (again : DecodeCall)
    (ahead : Ahead b len s (Tag.encryptedPayload.toByte :: rest)) (small : len < 2 ^ 32) :
    s.i < len ∧ Ahead b len { s with i := s.i + 1 } rest ∧
      decodeBody env again b s =
        enterSection again afterPayload (openPayload env b { s with i := s.i + 1 }) := by
  have tagged := ahead.atTag small
  exact ⟨tagged.inside, tagged.behind, tagged.body env again⟩

section
variable (env again)
variable (short : len ≤ b.length) (small : len < 2 ^ 32)
include short small

/-- The declared length of a section is longer than that of the fresh packet, so a buffer
    for a payload is allocated. -/
theorem reads_sectionLength {length : UInt32}
    (ahead : Ahead b len s (Tag.payloadLength.toByte :: be32 length ++ rest))
    (more : s.cp.payloadLength < length) :
    ∃ i, Reads env again b len s { s with
      i := i
      cp.payload := env.calloc s.allocs length.toNat
      cp.payloadLength := length
      allocs := s.allocs + 1 } rest := by
  apply reads_field env again (t := { s with
      cp.payload := env.calloc s.allocs length.toNat
      cp.payloadLength := length
      allocs := s.allocs + 1 }) short small ahead (fun i => rfl)
  intro i
  simp [more]

theorem decodes_section {cp : ChatPacket} {allocs : Nat} {pair : ChatFabricPairing} {length : UInt32}
    (key : env.pair.sharedkey = pair.sharedkey) (nonce : env.pair.mynonce = pair.nonce)
    (fresh : cp.payloadLength = 0) (size : length.toNat = plain.length + 16) (some : plain ≠ [])
    (whole : Ahead b len (.start cp allocs) (messageBytes reply (sectionFields length length
      (sealBytes env.crypto pair.sharedkey (chatPacketCalcNonce reply.serial pair.nonce) plain))))
    {fuel : Nat} {r : DecodeEnd} (nested : chatPacketDecode env fuel
      (sectionPacket env cp allocs reply length) (allocs + 4) plain plain.length = r)
    (ends : r ≠ .endless) :
    ∃ enough, chatPacketDecode env enough cp allocs b len =
      if env.alloc (allocs + 1) ∧ env.alloc (allocs + 2) ∧ env.alloc (allocs + 3) then sectionEnd r
      else .fault .nullPointer := by
  rw [messageBytes_section reply (by rw [length_sealBytes, size])] at whole
  obtain ⟨i, reach, ahead⟩ := reads_fields (chatPacketDecode env fuel) (headerStored_known reply) whole
    short small
  rw [Decoding.start, headerStored_foldl] at reach ahead
  have more : (withHeader cp reply).payloadLength < length := by
    rw [show (withHeader cp reply).payloadLength = 0 from fresh, UInt32.lt_iff_toNat_lt]
    simp [size]
  obtain ⟨j, declared⟩ := reads_sectionLength env (chatPacketDecode env fuel) short
    small ahead more
  obtain ⟨here, inside, leave⟩ := body_payload env (chatPacketDecode env fuel) declared.ahead small
  rw [← key, ← nonce] at inside
  have end' := inside.size
  simp only [length_sealBytes] at end'
  rw [openPayload_sealed inside short size some] at leave
  have reached := reach.trans declared.reach
  split
  · rename_i allocated
    rw [if_pos allocated] at leave
    simp only [enterSection] at leave
    generalize call : chatPacketDecode env fuel _ _ plain plain.length = q at leave
    have same : q = r := call.symm.trans nested
    subst same
    cases q with
    | endless => exact absurd rfl ends
    | fault f => exact chatPacketDecode_exit reached here leave (by simp [sectionEnd])
    | returned ret cp' allocs' =>
      simp only [afterPayload] at leave
      split at leave
      · rename_i ok
        have moved : advance (j + 1) length.toNat = j + 1 + length.toNat := by
          apply Nat.mod_eq_of_lt
          omega
        obtain ⟨enough, run⟩ := chatPacketDecode_done
          (.tail reached ⟨decide_eq_true here, leave⟩) (by
            simp only [moved]
            omega)
        exact ⟨enough, by simp [run, sectionEnd, ok]⟩
      · rename_i failed
        obtain ⟨enough, run⟩ := chatPacketDecode_exit reached here leave (by simp)
        exact ⟨enough, by simp [run, sectionEnd, failed]⟩
  · rename_i none
    rw [if_neg none] at leave
    exact chatPacketDecode_exit reached here leave (by simp)

end

end ChatFabric
