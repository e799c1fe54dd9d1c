import ChatFabric.ConfigFile

/- Reading back a config file. The writer and the reader are two lists kept by
   hand, and six of the tags written have no case in the reader: their values are
   not restored, and the bytes of those values are taken for tags. -/
namespace ConfigRoundTrip
open ByteStrings TagStream ChatFabric

/-- d holds in every field that is written what c holds. -/
structure Restored (c d : ChatFabricConfig) : Prop where
  hasPairs : d.hasPairs = c.hasPairs
  debug : d.debug = c.debug
  uuid : d.uuid = c.uuid
  mode : d.mode = c.mode
  wifiApSwitch : d.wifiApSwitch = c.wifiApSwitch
  wifiApDhcpsSwitch : d.wifiApDhcpsSwitch = c.wifiApDhcpsSwitch
  wifiStaSwitch : d.wifiStaSwitch = c.wifiStaSwitch
  dhcpClientSwitch : d.dhcpClientSwitch = c.dhcpClientSwitch
  dhcpsRangeLow : d.dhcpsRangeLow = c.dhcpsRangeLow
  dhcpsRangeHigh : d.dhcpsRangeHigh = c.dhcpsRangeHigh
  staIpv4 : d.staIpv4 = c.staIpv4
  staIpv4netmask : d.staIpv4netmask = c.staIpv4netmask
  staIpv4gw : d.staIpv4gw = c.staIpv4gw
  staIpv4ns1 : d.staIpv4ns1 = c.staIpv4ns1
  staIpv4ns2 : d.staIpv4ns2 = c.staIpv4ns2
  ntpv4 : d.ntpv4 = c.ntpv4
  apIpv4 : d.apIpv4 = c.apIpv4
  apIpv4netmask : d.apIpv4netmask = c.apIpv4netmask
  apIpv4gw : d.apIpv4gw = c.apIpv4gw
  apIpv4ns1 : d.apIpv4ns1 = c.apIpv4ns1
  apIpv4ns2 : d.apIpv4ns2 = c.apIpv4ns2
  staIpv6 : d.staIpv6 = c.staIpv6
  staIpv6netmask : d.staIpv6netmask = c.staIpv6netmask
  staIpv6gw : d.staIpv6gw = c.staIpv6gw
  staIpv6ns1 : d.staIpv6ns1 = c.staIpv6ns1
  staIpv6ns2 : d.staIpv6ns2 = c.staIpv6ns2
  ntpv6 : d.ntpv6 = c.ntpv6
  apIpv6 : d.apIpv6 = c.apIpv6
  apIpv6netmask : d.apIpv6netmask = c.apIpv6netmask
  apIpv6gw : d.apIpv6gw = c.apIpv6gw
  apIpv6ns1 : d.apIpv6ns1 = c.apIpv6ns1
  apIpv6ns2 : d.apIpv6ns2 = c.apIpv6ns2
  hostname : d.hostname.val.take 32 = c.hostname.val.take 32
  wifiApSsid : d.wifiApSsid.val.take 32 = c.wifiApSsid.val.take 32
  wifiApPasswd : d.wifiApPasswd.val.take 64 = c.wifiApPasswd.val.take 64
  wifiStaSsid : d.wifiStaSsid.val.take 32 = c.wifiStaSsid.val.take 32
  wifiStaPasswd : d.wifiStaPasswd.val.take 64 = c.wifiStaPasswd.val.take 64
  publickey : d.publickey = c.publickey
  privatekey : d.privatekey = c.privatekey

/-- Reading the file written for c into c0 ends, and restores every field written. -/
def RestoredFrom (c c0 : ChatFabricConfig) : Prop :=
  ∃ str d, configFileBytes c = .ok str ∧ cfConfigRead c0 str str.length = .ok d ∧ Restored c d

/-- The fields written under a tag the reader has no case for. -/
def unread (c : ChatFabricConfig) : List (Block 16) :=
  [c.staIpv6ns1, c.staIpv6ns2, c.ntpv6, c.apIpv6, c.apIpv6netmask, c.apIpv6gw]

/-- No byte of those fields is a tag the reader has a case for. -/
def TagFree (c : ChatFabricConfig) : Prop := ∀ v ∈ unread c, ∀ b ∈ v.val, cfConfigCase b = .pass

instance (c : Case ChatFabricConfig) : Decidable (c = .pass) :=
  match c with
  | .pass => isTrue rfl
  | .jump _ | .field .. | .limit .. | .stop => isFalse nofun

instance (c : ChatFabricConfig) : Decidable (TagFree c) :=
  inferInstanceAs (Decidable (∀ v ∈ unread c, ∀ b ∈ v.val, cfConfigCase b = .pass))

def fieldsBefore (c : ChatFabricConfig) : List (UInt8 × TagData) :=
  [int32Field .hasPairs c.hasPairs.toUInt32,
   int32Field .debug c.debug.toUInt32,
   uuidField .uuid0 c.uuid.u0,
   uuidField .uuid1 c.uuid.u1,
   int32Field .mode c.mode.toUInt32,
   int32Field .wifiAp c.wifiApSwitch.toUInt32,
   int32Field .wifiApDhcps c.wifiApDhcpsSwitch.toUInt32,
   int32Field .wifiSta c.wifiStaSwitch.toUInt32,
   int32Field .wifiStaDhcpc c.dhcpClientSwitch.toUInt32,
   int32Field .dhcpsRangeLow c.dhcpsRangeLow,
   int32Field .dhcpsRangeHigh c.dhcpsRangeHigh,
   int32Field .staIpv4 c.staIpv4,
   int32Field .staIpv4netmask c.staIpv4netmask,
   int32Field .staIpv4gw c.staIpv4gw,
   int32Field .staIpv4ns1 c.staIpv4ns1,
   int32Field .staIpv4ns2 c.staIpv4ns2,
   int32Field .staNtpv4 c.ntpv4,
   int32Field .apIpv4 c.apIpv4,
   int32Field .apIpv4netmask c.apIpv4netmask,
   int32Field .apIpv4gw c.apIpv4gw,
   int32Field .apIpv4ns1 c.apIpv4ns1,
   int32Field .apIpv4ns2 c.apIpv4ns2,
   data8Field .staIpv6 c.staIpv6.val 16,
   data8Field .staIpv6netmask c.staIpv6netmask.val 16,
   data8Field .staIpv6gw c.staIpv6gw.val 16]

def fieldsUnread (c : ChatFabricConfig) : List (UInt8 × TagData) :=
  [data8Field .staIpv6ns1 c.staIpv6ns1.val 16,
   data8Field .staIpv6ns2 c.staIpv6ns2.val 16,
   data8Field .staNtpv6 c.ntpv6.val 16,
   data8Field .apIpv6 c.apIpv6.val 16,
   data8Field .apIpv6netmask c.apIpv6netmask.val 16,
   data8Field .apIpv6gw c.apIpv6gw.val 16]

def fieldsAfter (c : ChatFabricConfig) : List (UInt8 × TagData) :=
  [data8Field .apIpv6ns1 c.apIpv6ns1.val 16,
   data8Field .apIpv6ns2 c.apIpv6ns2.val 16,
   data8Field .hostname c.hostname.val 32,
   data8Field .wifiApSsid c.wifiApSsid.val 32,
   data8Field .wifiApPasswd c.wifiApPasswd.val 64,
   data8Field .wifiStaSsid c.wifiStaSsid.val 32,
   data8Field .wifiStaPasswd c.wifiStaPasswd.val 64]

theorem configFields_split (c : ChatFabricConfig) :
    configFields c =
      int32Field .header 0 :: (fieldsBefore c ++ fieldsUnread c ++ fieldsAfter c) := rfl

def readBack (c c0 : ChatFabricConfig) : ChatFabricConfig :=
  (plainFields (fieldsBefore c ++ fieldsAfter c ++ keyFields c)).foldl (storeField cfConfigCase) c0

theorem readBack_restored (c c0 : ChatFabricConfig) (agree : unread c0 = unread c) :
    Restored c (readBack c c0) := by
  simp only [unread, List.cons.injEq, and_true] at agree
  simp only [readBack, plainFields, fieldsBefore, fieldsAfter, keyFields, int32Field, uuidField,
    data8Field, List.cons_append, List.nil_append, List.map_cons, List.map_nil, List.foldl_cons,
    List.foldl_nil, storeField, cfConfigCase_toByte, cfConfigTagCase, TagData.plain]
  constructor <;> simp [agree, Block.patch_zero_take]

def unreadBytes (c : ChatFabricConfig) : Bytes := fieldBytes (plainFields (fieldsUnread c))

theorem unreadBytes_passed {c : ChatFabricConfig} (free : TagFree c) :
    ∀ b ∈ unreadBytes c, cfConfigCase b = .pass := by
  have pass : ∀ tag ∈ [CfTag.staIpv6ns1, .staIpv6ns2, .staNtpv6, .apIpv6, .apIpv6netmask, .apIpv6gw],
      cfConfigCase tag.toByte = .pass := by
    simp [cfConfigTagCase]
  simp only [TagFree, unread, List.forall_mem_cons] at free pass
  simp only [unreadBytes, fieldsUnread, data8Field, plainFields, fieldBytes, TagData.plain,
    List.map_cons, List.map_nil, List.flatMap_cons, List.flatMap_nil, List.mem_append,
    List.mem_cons, Option.getD_some]
  rintro b ((rfl | h) | (rfl | h) | (rfl | h) | (rfl | h) | (rfl | h) | (rfl | h) | h)
  all_goals first
    | exact pass.1 | exact pass.2.1 | exact pass.2.2.1 | exact pass.2.2.2.1
    | exact pass.2.2.2.2.1 | exact pass.2.2.2.2.2.1
    | exact free.1 _ (List.mem_of_mem_take h) | exact free.2.1 _ (List.mem_of_mem_take h)
    | exact free.2.2.1 _ (List.mem_of_mem_take h) | exact free.2.2.2.1 _ (List.mem_of_mem_take h)
    | exact free.2.2.2.2.1 _ (List.mem_of_mem_take h)
    | exact free.2.2.2.2.2.1 _ (List.mem_of_mem_take h)
    | cases h

theorem fields_complete (c : ChatFabricConfig) :
    ∀ f ∈ plainFields (fieldsBefore c ++ fieldsAfter c ++ keyFields c), Complete cfConfigCase f := by
  simp [plainFields, fieldsBefore, fieldsAfter, keyFields, int32Field, uuidField, data8Field,
    Complete, cfConfigTagCase, TagData.plain]

theorem length_fileBytes (c : ChatFabricConfig) : (fileBytes c).length = 627 := by
  simp [fileBytes, configString, length_configBytes, length_keyBytes]

theorem read_fileBytes {c : ChatFabricConfig} (free : TagFree c) (c0 : ChatFabricConfig) {str : Bytes}
    (front : fileBytes c <+: str) {filesize : Int} (long : (fileBytes c).length ≤ filesize) :
    cfConfigRead c0 str filesize = .ok (readBack c c0) := by
  obtain ⟨rest, split⟩ := front
  let before := plainFields (fieldsBefore c)
  let after := plainFields (fieldsAfter c)
  let keys := plainFields (keyFields c)
  let tail := fieldBytes keys ++ CfTag.eof.toByte :: rest
  let middle := fieldBytes after ++ (List.replicate 5 0 ++ tail)
  have complete : ∀ f ∈ before ++ after ++ keys, Complete cfConfigCase f := by
    simpa [before, after, keys, plainFields] using fields_complete c
  simp only [List.forall_mem_append] at complete
  obtain ⟨⟨completeBefore, completeAfter⟩, completeKeys⟩ := complete
  have file : fileBytes c = CfTag.header.toByte :: (be32 0 ++ (fieldBytes before ++ (unreadBytes c ++
      (fieldBytes after ++ (List.replicate 5 0 ++ (fieldBytes keys ++ [CfTag.eof.toByte])))))) := by
    simp [fileBytes, configString, configBytes, keyBytes, configFields_split, plainFields, fieldBytes,
      int32Field, TagData.plain, before, after, keys, unreadBytes]
  have whole : str =
      CfTag.header.toByte :: (be32 0 ++ (fieldBytes before ++ (unreadBytes c ++ middle))) := by
    rw [← split, file]
    simp [middle, tail]
  have size := congrArg List.length file
  simp only [List.length_cons, List.length_append, length_be32, List.length_nil,
    List.length_replicate] at size
  generalize (fileBytes c).length = filled at size long
  clear split file
  -- where each part of the file starts
  have atBefore : str.drop 5 = fieldBytes before ++ (unreadBytes c ++ middle) := by
    rw [whole]
    rfl
  have atUnread := drop_after atBefore
  have atAfter := drop_after atUnread
  have atZeros := drop_after atAfter
  have atKeys := drop_after atZeros
  have atEof := drop_after atKeys
  simp only [List.length_replicate] at atKeys atEof
  have stored : readBack c c0 = keys.foldl (storeField cfConfigCase)
      (after.foldl (storeField cfConfigCase) (before.foldl (storeField cfConfigCase) c0)) := by
    simp [readBack, plainFields, before, after, keys, List.foldl_append]
  have headerJumps : cfConfigCase CfTag.header.toByte = .jump 4 := rfl
  have zerosPassed : ∀ b ∈ List.replicate 5 (0 : UInt8), cfConfigCase b = .pass := by
    simp [cfConfigCase, CfTag.ofByte]
  rw [cfConfigRead, readAll,
    readFrom_jump headerJumps (s := ⟨0, filesize, c0⟩) whole (by simp only; omega),
    readFrom_fields completeBefore atBefore (by simp only; omega),
    readFrom_passes (unreadBytes_passed free) atUnread (by simp only; omega),
    readFrom_fields completeAfter atAfter (by simp only; omega),
    readFrom_passes zerosPassed atZeros
      (by simp only [List.length_replicate]; omega),
    readFrom_fields completeKeys atKeys (by simp only [List.length_replicate]; omega),
    readFrom_stop rfl atEof (by simp only [List.length_replicate]; omega)]
  simp only [Except.map, stored]

theorem read_keeps_unread {c0 d : ChatFabricConfig} {str : Bytes} {filesize : Int}
    (result : cfConfigRead c0 str filesize = .ok d) : unread d = unread c0 := by
  refine cfConfigRead_keeps ?_ result
  intro tag width store known v c
  cases tag <;> simp only [cfConfigTagCase, Case.field.injEq, reduceCtorEq] at known <;>
    obtain ⟨rfl, rfl⟩ := known <;> rfl

theorem restored_unread {c d : ChatFabricConfig} (restored : Restored c d) : unread d = unread c := by
  simp [unread, restored.staIpv6ns1, restored.staIpv6ns2, restored.ntpv6, restored.apIpv6,
    restored.apIpv6netmask, restored.apIpv6gw]

/-- The value an unread field has after reading is the one it had before. So no config is
    restored into every starting config; one whose unread fields hold no tag of the reader
    is restored exactly into the starting configs that agree with it in those fields. -/
theorem restored_exactly_where_unread_agree (c : ChatFabricConfig) :
    (¬ ∀ c0, RestoredFrom c c0) ∧
      (∀ c0, RestoredFrom c c0 → unread c0 = unread c) ∧
      (TagFree c → ∀ c0, RestoredFrom c c0 ↔ unread c0 = unread c) := by
  have agrees : ∀ c0, RestoredFrom c c0 → unread c0 = unread c := by
    rintro c0 ⟨str, d, _, result, restored⟩
    exact (read_keeps_unread result).symm.trans (restored_unread restored)
  refine ⟨?_, agrees, ?_⟩
  · intro all
    have zero := agrees _ (all { c with ntpv6 := .ofBytes 16 [0] })
    have one := agrees _ (all { c with ntpv6 := .ofBytes 16 [1] })
    have same : Block.ofBytes 16 [0] = Block.ofBytes 16 [1] := by
      simp only [unread, List.cons.injEq] at zero one
      exact zero.2.2.1.trans one.2.2.1.symm
    exact absurd same (by decide)
  · intro free c0
    refine ⟨agrees c0, fun agree => ?_⟩
    exact ⟨fileBytes c, readBack c c0, configFileBytes_eq c,
      read_fileBytes free c0 (List.prefix_refl _) (Int.le_refl _), readBack_restored c c0 agree⟩

def namedConfig : ChatFabricConfig :=
  { (default : ChatFabricConfig) with
    hostname := .ofBytes 33 [100, 101, 115, 107]
    wifiStaPasswd := .ofBytes 65 [112, 119]
    ntpv6 := .ofBytes 16 [0xFE, 0x80] }

theorem restored_exactly_where_unread_agree_named :
    RestoredFrom namedConfig { (default : ChatFabricConfig) with ntpv6 := .ofBytes 16 [0xFE, 0x80] } ∧
      ¬ RestoredFrom namedConfig default := by
  have free : TagFree namedConfig := by decide +kernel
  have exactly := (restored_exactly_where_unread_agree namedConfig).2.2 free
  exact ⟨(exactly _).mpr rfl, fun restored => absurd ((exactly _).mp restored) (by decide)⟩

/-- An ntpv6 value beginning with the byte of the end tag: the hostname behind it is lost. -/
def endTagConfig : ChatFabricConfig :=
  { (default : ChatFabricConfig) with
    ntpv6 := .ofBytes 16 [CfTag.eof.toByte], hostname := .ofBytes 33 [100] }

theorem endTagConfig_not_restored :
    ¬ RestoredFrom endTagConfig { endTagConfig with hostname := default } := by
  rintro ⟨str, d, written, result, restored⟩
  have lost : (configFileBytes endTagConfig).bind (fun str =>
      (cfConfigRead { endTagConfig with hostname := default } str str.length).map
        ChatFabricConfig.hostname) = .ok default := by
    decide +kernel
  simp only [written, Except.bind, result, Except.map, Except.ok.injEq] at lost
  have kept := restored.hostname
  rw [lost] at kept
  exact absurd kept (by decide)

end ConfigRoundTrip
