import ChatFabric.TagEncoder

/- The pairing record and its file, cfPairConfig.c and uuuid2_gen_nil, on a
   little-endian host. -/
namespace ChatFabric
open ByteStrings TagStream

/-- sizeof(u->bytes) is 16, so this returns before it clears anything. -/
def uuuid2GenNil (u : Block 16) : Block 16 :=
  if u.val.length = 16 then u else .zero 16

/-- The random bytes arc4random_buf puts into mynonce are an argument. -/
def cfPairInit (pair : ChatFabricPairing) (random : Block 8) : ChatFabricPairing :=
  { pair with
    hasPublicKey := 0
    hasNonce := 0
    serial := 0
    uuid := ⟨uuuid2GenNil pair.uuid.u0, uuuid2GenNil pair.uuid.u1⟩
    state := .unconfigured
    nullnonce := .zero 8
    nonce := .zero 8
    mynonce := random }

/-- The byte memcpy takes from, or puts into, the start of a 32-bit word. -/
def lowByte (w : UInt32) : UInt8 := UInt8.ofNat w.toNat
def withLowByte (w : UInt32) (b : UInt8) : UInt32 := UInt32.ofNat (w.toNat / 256 * 256 + b.toNat)

def pairStringLength : Nat :=
  (1 + 32) + (1 + 8) + (1 + 8) + (1 + 16) + (1 + 16) + (1 + 1) + (1 + 1) + (1 + 1) +
    (1 + 4) + (1 + 4) + (1 + 4) + (1 + 4)

def pairFields (pair : ChatFabricPairing) : List (UInt8 × TagData) :=
  [(CfTag.header.toByte, .int32 0),
   (CfTag.pairs.toByte, .int32 1),
   (CfTag.pairLength.toByte, .int32 (UInt32.ofNat pairStringLength)),
   (CfTag.hasPublicKey.toByte, .data8 (some [lowByte pair.hasPublicKey]) 1),
   (CfTag.hasNonce.toByte, .data8 (some [lowByte pair.hasNonce]) 1),
   (CfTag.state.toByte, .data8 (some [lowByte pair.state.toCode]) 1),
   (CfTag.serial.toByte, .int32 pair.serial),
   (CfTag.uuid0.toByte, .uuid pair.uuid.u0),
   (CfTag.uuid1.toByte, .uuid pair.uuid.u1),
   (CfTag.publickey.toByte, .data8 (some pair.publickey.val) 32),
   (CfTag.mynonce.toByte, .data8 (some pair.mynonce.val) 8),
   (CfTag.nonce.toByte, .data8 (some pair.nonce.val) 8)]

def pairFileBytes (pair : ChatFabricPairing) : Except Fault Bytes :=
  (encodeFields (.calloc pairStringLength) (pairFields pair)).map OutBuf.msg

/-- The reader sets the record and config->hasPairs. -/
structure PairReading where
  hasPairs : Int32
  pair : ChatFabricPairing

def cfPairTagCase : CfTag → Case PairReading
  | .header => .jump 4
  | .pairLength => .limit 4 fun v => (ofBe32 v).toInt32.toInt
  | .pairs => .field 4 fun _ r => { r with hasPairs := 1 }
  | .publickey => .field 32 fun v r =>
      { r with pair.publickey := .ofBytes 32 v, pair.state := .paired }
  | .nonce => .field 8 fun v r => { r with pair.nonce := .ofBytes 8 v }
  | .mynonce => .field 8 fun v r => { r with pair.mynonce := .ofBytes 8 v }
  | .serial => .field 4 fun v r => { r with pair.serial := ofBe32 v }
  | .uuid0 => .field 16 fun v r => { r with pair.uuid.u0 := .ofBytes 16 v }
  | .uuid1 => .field 16 fun v r => { r with pair.uuid.u1 := .ofBytes 16 v }
  | .hasPublicKey => .field 1 fun v r =>
      { r with pair.hasPublicKey := withLowByte r.pair.hasPublicKey (v.headD 0) }
  | .hasNonce => .field 1 fun v r =>
      { r with pair.hasNonce := withLowByte r.pair.hasNonce (v.headD 0) }
  | .state => .field 1 fun v r =>
      { r with pair.state := .ofCode (withLowByte r.pair.state.toCode (v.headD 0)) }
  | _ => .pass

def cfPairCase (t : UInt8) : Case PairReading :=
  match CfTag.ofByte t with
  | some tag => cfPairTagCase tag
  | none => .pass

@[simp] theorem cfPairCase_toByte (tag : CfTag) : cfPairCase tag.toByte = cfPairTagCase tag := by
  simp [cfPairCase]

/-- A pair file that cannot be opened leaves everything as it is. -/
def cfPairRead (crypto : Crypto) (config : ChatFabricConfig) (pair : ChatFabricPairing)
    (file : Option Bytes) : Except Fault (ChatFabricConfig × ChatFabricPairing) :=
  match file with
  | none => .ok (config, pair)
  | some str =>
    match readAll cfPairCase str str.length ⟨config.hasPairs, pair⟩ with
    | .ok r => .ok ({ config with hasPairs := r.hasPairs },
        { r.pair with sharedkey := crypto.curve25519Donna config.privatekey r.pair.publickey })
    | .error .readPastEnd => .error .inputRead

theorem pairFields_present (pair : ChatFabricPairing) :
    ∀ f ∈ pairFields pair, f.2.bytes = .ok f.2.plain := by
  simp [pairFields, TagData.bytes, TagData.plain]

def pairBytes (pair : ChatFabricPairing) : Bytes := fieldBytes (plainFields (pairFields pair))

theorem length_pairBytes (pair : ChatFabricPairing) : (pairBytes pair).length = pairStringLength := by
  simp [pairBytes, pairFields, plainFields, fieldBytes, TagData.plain, pairStringLength]

theorem pairFileBytes_eq (pair : ChatFabricPairing) : pairFileBytes pair = .ok (pairBytes pair) := by
  have encoded := encodeFields_ok (encodes_plain (pairFields_present pair))
    (b := .calloc pairStringLength) (by
      change 0 + (pairBytes pair).length ≤ pairStringLength
      rw [length_pairBytes]
      omega)
  rw [pairFileBytes, encoded]
  change Except.ok (pairBytes pair ++ List.replicate (pairStringLength - (pairBytes pair).length) 0) = _
  rw [length_pairBytes]
  simp

/-- What reading a written record makes of another: the key field, which comes after the
    state, sets the state itself. -/
def pairReadBack (crypto : Crypto) (config : ChatFabricConfig) (written old : ChatFabricPairing) :
    ChatFabricPairing :=
  { old with
    hasPublicKey := withLowByte old.hasPublicKey (lowByte written.hasPublicKey)
    hasNonce := withLowByte old.hasNonce (lowByte written.hasNonce)
    state := .paired
    serial := written.serial
    uuid := written.uuid
    publickey := written.publickey
    mynonce := written.mynonce
    nonce := written.nonce
    sharedkey := crypto.curve25519Donna config.privatekey written.publickey }

theorem readFrom_pairBytes {cases : UInt8 → Case PairReading} {limit : Bytes → Int}
    (fields : ∀ tag, tag ≠ CfTag.pairLength → cases tag.toByte = cfPairTagCase tag)
    (bounded : cases CfTag.pairLength.toByte = .limit 4 limit) (start : Nat)
    (reach : limit (be32 (UInt32.ofNat pairStringLength)) = (start + pairStringLength : Nat))
    {str rest : Bytes} {written : ChatFabricPairing} (here : str.drop start = pairBytes written ++ rest)
    (first : Int) (long : (start + pairStringLength : Nat) ≤ first) (crypto : Crypto)
    (config : ChatFabricConfig) (r : PairReading) :
    readFrom cases str ⟨start, first, r⟩ =
      .ok ⟨start + pairStringLength, (start + pairStringLength : Nat),
        ⟨1, { pairReadBack crypto config written r.pair with sharedkey := r.pair.sharedkey }⟩⟩ := by
  let early := [(CfTag.pairs.toByte, be32 1)]
  let late := (plainFields (pairFields written)).drop 3
  let declared := be32 (UInt32.ofNat pairStringLength)
  have complete : ∀ f ∈ early ++ late, Complete cases f := by
    simp [early, late, plainFields, pairFields, Complete, fields, cfPairTagCase, TagData.plain]
  simp only [List.forall_mem_append] at complete
  obtain ⟨completeEarly, completeLate⟩ := complete
  have whole : pairBytes written = CfTag.header.toByte :: (be32 0 ++
      (fieldBytes early ++ (CfTag.pairLength.toByte :: declared ++ fieldBytes late))) := by
    simp [pairBytes, fieldBytes, plainFields, pairFields, TagData.plain, early, late, declared]
  have atHeader : str.drop start = (CfTag.header.toByte :: be32 0) ++ (fieldBytes early ++
      (CfTag.pairLength.toByte :: declared ++ (fieldBytes late ++ rest))) := by
    rw [here, whole]
    simp
  -- where each part of the record starts
  have atEarly := drop_after atHeader
  have atLimit := drop_after atEarly
  have atLate := drop_after atLimit
  have headerSize : (CfTag.header.toByte :: be32 0).length = 5 := rfl
  have earlySize : (fieldBytes early).length = 5 := rfl
  have declaredSize : declared.length = 4 := rfl
  have lateSize : (fieldBytes late).length = 96 := by
    simp [late, plainFields, pairFields, fieldBytes, TagData.plain]
  have size : pairStringLength = 111 := rfl
  have skipped : cases CfTag.header.toByte = .jump 4 := fields .header (by decide)
  have known : cases CfTag.pairLength.toByte = .limit declared.length limit := bounded
  have reached : limit declared = (start + pairStringLength : Nat) := reach
  have behind : start + 1 + 4 + (fieldBytes early).length + 1 + declared.length +
      (fieldBytes late).length = start + pairStringLength := by omega
  have stored : late.foldl (storeField cases) ⟨1, r.pair⟩ =
      ⟨1, { pairReadBack crypto config written r.pair with sharedkey := r.pair.sharedkey }⟩ := by
    simp [late, plainFields, pairFields, TagData.plain, storeField, fields, cfPairTagCase,
      pairReadBack]
  have counted : early.foldl (storeField cases) r = ⟨1, r.pair⟩ := by
    simp [early, storeField, fields, cfPairTagCase]
  rw [readFrom_jump skipped (s := ⟨start, first, r⟩) atHeader (by simp only; omega),
    readFrom_fields completeEarly atEarly (by simp only; omega),
    readFrom_limit known atLimit (by simp only; omega),
    readFrom_fields completeLate atLate (by simp only [reached]; omega),
    readFrom_done (by simp only [reached]; omega), counted, stored, reached]
  simp only [behind]

theorem cfPairRead_written (crypto : Crypto) (config : ChatFabricConfig)
    (written old : ChatFabricPairing) :
    cfPairRead crypto config old (some (pairBytes written)) =
      .ok ({ config with hasPairs := 1 }, pairReadBack crypto config written old) := by
  have fields : ∀ tag, tag ≠ CfTag.pairLength → cfPairCase tag.toByte = cfPairTagCase tag :=
    fun tag _ => cfPairCase_toByte tag
  have here : (pairBytes written).drop 0 = pairBytes written ++ [] := by simp
  have long : ((0 + pairStringLength : Nat) : Int) ≤ (pairBytes written).length :=
    Int.le_of_eq (by rw [length_pairBytes, Nat.zero_add])
  have read := readFrom_pairBytes fields rfl 0 (by decide) here _ long crypto config ⟨config.hasPairs, old⟩
  simp only [cfPairRead, readAll, read, Except.map, pairReadBack]

end ChatFabric
