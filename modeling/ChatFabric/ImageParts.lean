import ChatFabric.ConfigRoundTrip
import ChatFabric.EspDevice

/- The two parts of the ESP8266 image, which the config and the pairing record are written into
   and which is saved as a whole with either. -/
namespace Esp8266
open ChatFabric ByteStrings TagStream ConfigRoundTrip

variable {Flash : Type} {crypto : Crypto} {sdk : ParamArea Flash} {m : Chip Flash}

def store (sdk : ParamArea Flash) (m : Chip Flash) (start : Nat) (bytes : Bytes) : Chip Flash :=
  let image := m.flashConfig.patch start bytes
  { m with flashConfig := image, flash := sdk.save m.flash image }

theorem cfConfigWrite_eq (sdk : ParamArea Flash) (m : Chip Flash) :
    cfConfigWrite sdk m = .ok (store sdk m 0 (fileBytes m.config)) := by
  have fits := length_fileBytes m.config
  rw [fileBytes] at fits
  have keys : (m.flashConfig.patch 0 (configString m.config)).patch (configString m.config).length
      (keyBytes m.config) = m.flashConfig.patch 0 (configString m.config ++ keyBytes m.config) := by
    have both := Block.patch_patch m.flashConfig 0 (configString m.config) (keyBytes m.config)
      (by simp only [List.length_append, imageSize] at fits ⊢; omega)
    rwa [Nat.zero_add] at both
  have eof := Block.patch_patch m.flashConfig 0 (configString m.config ++ keyBytes m.config)
    [CfTag.eof.toByte] (by rw [fits, imageSize]; omega)
  rw [Nat.zero_add, List.length_append] at eof
  simp only [cfConfigWrite, createConfigString_eq, createKeyString_eq, bind, Except.bind, keys, eof,
    store, fileBytes]

theorem pairBytes_fit (pair : ChatFabricPairing) :
    pairStart + (pairBytes pair).length ≤ imageSize := by
  rw [length_pairBytes]
  decide

theorem encodePair_eq (image : Block imageSize) (pair : ChatFabricPairing) :
    encodeFields ⟨imageSize, image.val.take pairStart⟩ (pairFields pair) =
      .ok ⟨imageSize, image.val.take pairStart ++ pairBytes pair⟩ := by
  have front : (image.val.take pairStart).length = pairStart := by
    simp [pairStart, imageSize]
  have fits := pairBytes_fit pair
  exact encodeFields_ok (encodes_plain (pairFields_present pair))
    (b := ⟨imageSize, image.val.take pairStart⟩) (by rwa [front])

theorem cfPairWrite_eq (sdk : ParamArea Flash) (m : Chip Flash) :
    cfPairWrite sdk m = .ok (store sdk m pairStart (pairBytes m.pair)) := by
  have front : (m.flashConfig.val.take pairStart).length = pairStart := by
    simp [pairStart, imageSize]
  have fits := pairBytes_fit m.pair
  have image : m.flashConfig.patch 0 (m.flashConfig.val.take pairStart ++ pairBytes m.pair) =
      m.flashConfig.patch pairStart (pairBytes m.pair) := by
    apply Subtype.ext
    rw [Block.patch_val _ (by rwa [Nat.zero_add, List.length_append, front]), Block.patch_val _ fits]
    simp [front]
  simp only [cfPairWrite, encodePair_eq, bind, Except.bind, image, store]

theorem headed_eq (image : Block imageSize) (start : Nat) :
    headed image start = decide ((image.val.drop start)[0]? = some CfTag.header.toByte) := by
  simp [headed]

theorem config_in_front (image : Block imageSize) (c : ChatFabricConfig) :
    fileBytes c <+: (image.patch 0 (fileBytes c)).val ∧
      (image.patch 0 (fileBytes c)).val.drop pairStart = image.val.drop pairStart := by
  have size := length_fileBytes c
  have fits : 0 + (fileBytes c).length ≤ imageSize := by
    rw [size]
    decide
  refine ⟨⟨_, (Block.drop_patch_start image fits).symm⟩, Block.drop_patch image fits ?_⟩
  rw [size]
  decide

theorem headed_config (image : Block imageSize) (c : ChatFabricConfig) :
    headed (image.patch 0 (fileBytes c)) 0 = true := by
  obtain ⟨⟨rest, whole⟩, _⟩ := config_in_front image c
  have first : (fileBytes c)[0]? = some CfTag.header.toByte := rfl
  simp only [headed, decide_eq_true_eq, ← whole]
  rw [List.getElem?_append_left (by rw [length_fileBytes]; decide), first]

/-- No config of this build ever holds an IPv6 address. -/
def NoIpv6 (c : ChatFabricConfig) : Prop := ∀ v ∈ unread c, v = .zero 16

theorem NoIpv6.tagFree {c : ChatFabricConfig} (none : NoIpv6 c) : TagFree c := by
  intro v mem b byte
  rw [none v mem] at byte
  obtain rfl := List.eq_of_mem_replicate byte
  rfl

theorem NoIpv6.of_unread {c d : ChatFabricConfig} (none : NoIpv6 c) (same : unread d = unread c) :
    NoIpv6 d := by
  rwa [NoIpv6, same]

theorem noIpv6_cfConfigInit (crypto : Crypto) (boot : Boot) (config : ChatFabricConfig) :
    NoIpv6 (cfConfigInit crypto boot config) := by
  simp [NoIpv6, unread, cfConfigInit]

inductive Write where
  | config (c : ChatFabricConfig)
  | pair (p : ChatFabricPairing)

def write (sdk : ParamArea Flash) (m : Chip Flash) : Write → Except Fault (Chip Flash)
  | .config c => cfConfigWrite sdk { m with config := c }
  | .pair p => cfPairWrite sdk { m with pair := p }

def writeAll (sdk : ParamArea Flash) : Chip Flash → List Write → Except Fault (Chip Flash)
  | m, [] => .ok m
  | m, w :: ws => do
    let m ← write sdk m w
    writeAll sdk m ws

structure KeepsApart (sdk : ParamArea Flash) (m : Chip Flash) (w : Write) : Prop where
  inside : match w with
    | .config c => ∃ str keys, createConfigString c = .ok str ∧ createKeyString c = .ok keys ∧
        str.length + keys.length + 1 ≤ imageSize
    | .pair p => ∃ str, encodeFields ⟨imageSize, m.flashConfig.val.take pairStart⟩ (pairFields p) = .ok str ∧
        str.out.length ≤ imageSize
  others : ∃ m', write sdk m w = .ok m' ∧ match w with
    | .config _ => ∀ i, pairStart ≤ i → m'.flashConfig.val[i]? = m.flashConfig.val[i]?
    | .pair _ => ∀ i, i < pairStart → m'.flashConfig.val[i]? = m.flashConfig.val[i]?

def EveryWrite (sdk : ParamArea Flash) (meets : Chip Flash → Write → Prop) : Chip Flash → List Write → Prop
  | _, [] => True
  | m, w :: ws => meets m w ∧ ∀ m', write sdk m w = .ok m' → EveryWrite sdk meets m' ws

def lastPair : Option ChatFabricPairing → List Write → Option ChatFabricPairing
  | last, [] => last
  | last, .config _ :: ws => lastPair last ws
  | _, .pair p :: ws => lastPair (some p) ws

theorem take_pairStored (image : Block imageSize) (pair : ChatFabricPairing) :
    (image.patch pairStart (pairBytes pair)).val.take pairStart = image.val.take pairStart := by
  have front : (image.val.take pairStart).length = pairStart := by
    simp [pairStart, imageSize]
  rw [Block.patch_val _ (pairBytes_fit pair), List.append_assoc, List.take_left' front]

theorem write_eq (sdk : ParamArea Flash) (m : Chip Flash) (w : Write) :
    write sdk m w = .ok (match w with
      | .config c => store sdk { m with config := c } 0 (fileBytes c)
      | .pair p => store sdk { m with pair := p } pairStart (pairBytes p)) := by
  cases w with
  | config c => exact cfConfigWrite_eq sdk { m with config := c }
  | pair p => exact cfPairWrite_eq sdk { m with pair := p }

theorem keepsApart (sdk : ParamArea Flash) (m : Chip Flash) (w : Write) : KeepsApart sdk m w := by
  refine ⟨?_, _, write_eq sdk m w, ?_⟩
  · cases w with
    | config c =>
      refine ⟨_, _, createConfigString_eq c, createKeyString_eq c, ?_⟩
      have size := length_fileBytes c
      simp only [fileBytes, List.length_append, List.length_singleton] at size
      rw [size]
      decide
    | pair p =>
      refine ⟨_, encodePair_eq m.flashConfig p, ?_⟩
      have fits := pairBytes_fit p
      simp only [List.length_append, List.length_take, Block.length_val]
      omega
  · cases w with
    | config c =>
      intro i behind
      have same := congrArg (·[i - pairStart]?) (config_in_front m.flashConfig c).2
      simp only [List.getElem?_drop, Nat.add_sub_cancel' behind] at same
      exact same
    | pair p =>
      intro i before
      have same := congrArg (·[i]?) (take_pairStored m.flashConfig p)
      simp only [List.getElem?_take, before, if_true] at same
      exact same

theorem every_write {meets : Chip Flash → Write → Prop} (each : ∀ m w, meets m w) (m : Chip Flash)
    (ws : List Write) : EveryWrite sdk meets m ws := by
  induction ws generalizing m with
  | nil => trivial
  | cons w ws ih => exact ⟨each m w, fun m' _ => ih m'⟩

/-- The flash holds the image, that begins with a config, and has the record in its place. -/
structure Holds (sdk : ParamArea Flash) (m : Chip Flash) (last : Option ChatFabricPairing) : Prop where
  saved : sdk.load m.flash = m.flashConfig
  header : headed m.flashConfig 0 = true
  record : ∀ p ∈ last, ∃ rest, m.flashConfig.val.drop pairStart = pairBytes p ++ rest

theorem Holds.config {last : Option ChatFabricPairing} (c : ChatFabricConfig)
    (record : ∀ p ∈ last, ∃ rest, m.flashConfig.val.drop pairStart = pairBytes p ++ rest) :
    Holds sdk (store sdk { m with config := c } 0 (fileBytes c)) last := by
  refine ⟨sdk.load_save _ _, headed_config _ c, ?_⟩
  intro p mem
  obtain ⟨rest, here⟩ := record p mem
  exact ⟨rest, (config_in_front m.flashConfig c).2.trans here⟩

theorem Holds.pair {last : Option ChatFabricPairing} (holds : Holds sdk m last) (p : ChatFabricPairing) :
    Holds sdk (store sdk { m with pair := p } pairStart (pairBytes p)) (some p) := by
  refine ⟨sdk.load_save _ _, ?_, ?_⟩
  · have first := congrArg (·[0]?) (take_pairStored m.flashConfig p)
    have inside : 0 < pairStart := by decide
    simp only [List.getElem?_take, inside, if_true] at first
    have header := holds.header
    simp only [headed, store, first] at header ⊢
    exact header
  · rintro q ⟨⟩
    exact ⟨_, Block.drop_patch_start m.flashConfig (pairBytes_fit p)⟩

theorem writeAll_holds {last : Option ChatFabricPairing} (holds : Holds sdk m last) (ws : List Write) :
    ∃ m', writeAll sdk m ws = .ok m' ∧ Holds sdk m' (lastPair last ws) := by
  induction ws generalizing m last with
  | nil => exact ⟨m, rfl, holds⟩
  | cons w ws ih =>
    simp only [writeAll, write_eq, bind, Except.bind]
    cases w with
    | config c => exact ih (Holds.config c holds.record)
    | pair p => exact ih (holds.pair p)

structure Recovers (crypto : Crypto) (sdk : ParamArea Flash) (m : Chip Flash) (p : ChatFabricPairing) :
    Prop where
  read : ∃ done, cfPairRead crypto sdk m = .ok done ∧ done.pair.uuid = p.uuid ∧
    done.pair.publickey = p.publickey ∧ done.pair.serial = p.serial ∧
    done.pair.mynonce = p.mynonce ∧ done.pair.nonce = p.nonce

theorem readPair_stored {image : Block imageSize} {p : ChatFabricPairing} {rest : Bytes}
    (here : image.val.drop pairStart = pairBytes p ++ rest) (crypto : Crypto) (config : ChatFabricConfig)
    (r : PairReading) : readPair image r =
      .ok ⟨pairStart + pairStringLength, (pairStart + pairStringLength : Nat),
        ⟨1, { pairReadBack crypto config p r.pair with sharedkey := r.pair.sharedkey }⟩⟩ := by
  have fields : ∀ tag, tag ≠ CfTag.pairLength → cfPairCase tag.toByte = cfPairTagCase tag := by
    intro tag other
    simp only [cfPairCase, CfTag.ofByte_toByte]
  exact readFrom_pairBytes fields rfl pairStart (by decide) here imageSize (by decide) crypto config r

theorem Holds.recovers {p : ChatFabricPairing} (holds : Holds sdk m (some p)) (crypto : Crypto)
    {later : Chip Flash} (same : later.flash = m.flash) : Recovers crypto sdk later p := by
  obtain ⟨rest, here⟩ := holds.record p rfl
  have read := readPair_stored here crypto later.config ⟨later.config.hasPairs, later.pair⟩
  have loaded : sdk.load later.flash = m.flashConfig := by rw [same, holds.saved]
  constructor
  simp only [cfPairRead, loaded, holds.header, if_true, read]
  exact ⟨_, rfl, rfl, rfl, rfl, rfl, rfl⟩

/-- Whatever is saved after a first config, and in which order: no save reaches into the part of
    the other, and a read of the record, by whatever chip the flash is in then, brings back the
    record that was saved last. -/
theorem parts_apart (crypto : Crypto) (sdk : ParamArea Flash) (m : Chip Flash) (c : ChatFabricConfig)
    (ws : List Write) :
    EveryWrite sdk (KeepsApart sdk) m (.config c :: ws) ∧
      ∃ m', writeAll sdk m (.config c :: ws) = .ok m' ∧
        ∀ p ∈ lastPair none ws, ∀ later : Chip Flash, later.flash = m'.flash → Recovers crypto sdk later p := by
  refine ⟨every_write (keepsApart sdk) m _, ?_⟩
  have first : Holds sdk (store sdk { m with config := c } 0 (fileBytes c)) none :=
    Holds.config c (by simp)
  obtain ⟨m', written, holds⟩ := writeAll_holds first ws
  refine ⟨m', ?_, ?_⟩
  · simpa [writeAll, write_eq, bind, Except.bind] using written
  · intro p last later same
    rw [Option.mem_def.mp last] at holds
    exact holds.recovers crypto same

end Esp8266
