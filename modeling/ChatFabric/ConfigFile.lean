import ChatFabric.TagEncoder

/- The config file of cfConfig.c (host build): the fields it writes, in order, and
   the switch it reads them with. -/
namespace ChatFabric
open ByteStrings TagStream

def int32Field (tag : CfTag) (value : UInt32) : UInt8 × TagData := (tag.toByte, .int32 value)
def uuidField (tag : CfTag) (uuid : Block 16) : UInt8 × TagData := (tag.toByte, .uuid uuid)
def data8Field (tag : CfTag) (s : Bytes) (len : UInt32) : UInt8 × TagData :=
  (tag.toByte, .data8 (some s) len)

def configFields (config : ChatFabricConfig) : List (UInt8 × TagData) :=
  [int32Field .header 0,
   int32Field .hasPairs config.hasPairs.toUInt32,
   int32Field .debug config.debug.toUInt32,
   uuidField .uuid0 config.uuid.u0,
   uuidField .uuid1 config.uuid.u1,
   int32Field .mode config.mode.toUInt32,
   int32Field .wifiAp config.wifiApSwitch.toUInt32,
   int32Field .wifiApDhcps config.wifiApDhcpsSwitch.toUInt32,
   int32Field .wifiSta config.wifiStaSwitch.toUInt32,
   int32Field .wifiStaDhcpc config.dhcpClientSwitch.toUInt32,
   int32Field .dhcpsRangeLow config.dhcpsRangeLow,
   int32Field .dhcpsRangeHigh config.dhcpsRangeHigh,
   int32Field .staIpv4 config.staIpv4,
   int32Field .staIpv4netmask config.staIpv4netmask,
   int32Field .staIpv4gw config.staIpv4gw,
   int32Field .staIpv4ns1 config.staIpv4ns1,
   int32Field .staIpv4ns2 config.staIpv4ns2,
   int32Field .staNtpv4 config.ntpv4,
   int32Field .apIpv4 config.apIpv4,
   int32Field .apIpv4netmask config.apIpv4netmask,
   int32Field .apIpv4gw config.apIpv4gw,
   int32Field .apIpv4ns1 config.apIpv4ns1,
   int32Field .apIpv4ns2 config.apIpv4ns2,
   data8Field .staIpv6 config.staIpv6.val 16,
   data8Field .staIpv6netmask config.staIpv6netmask.val 16,
   data8Field .staIpv6gw config.staIpv6gw.val 16,
   data8Field .staIpv6ns1 config.staIpv6ns1.val 16,
   data8Field .staIpv6ns2 config.staIpv6ns2.val 16,
   data8Field .staNtpv6 config.ntpv6.val 16,
   data8Field .apIpv6 config.apIpv6.val 16,
   data8Field .apIpv6netmask config.apIpv6netmask.val 16,
   data8Field .apIpv6gw config.apIpv6gw.val 16,
   data8Field .apIpv6ns1 config.apIpv6ns1.val 16,
   data8Field .apIpv6ns2 config.apIpv6ns2.val 16,
   data8Field .hostname config.hostname.val 32,
   data8Field .wifiApSsid config.wifiApSsid.val 32,
   data8Field .wifiApPasswd config.wifiApPasswd.val 64,
   data8Field .wifiStaSsid config.wifiStaSsid.val 32,
   data8Field .wifiStaPasswd config.wifiStaPasswd.val 64]

def keyFields (config : ChatFabricConfig) : List (UInt8 × TagData) :=
  [data8Field .publickey config.publickey.val 32,
   data8Field .privatekey config.privatekey.val 32]

/-- One more word than is written is counted: the config length tag is commented out. -/
def configStringLength : Nat :=
  4 * (1 + 4) + 2 * (1 + 16) + (1 + 4) + 4 * (1 + 4) + 2 * (1 + 4) + 6 * (1 + 4) + 5 * (1 + 4) +
    6 * (1 + 16) + 5 * (1 + 16) + (1 + 32) + (1 + 32) + (1 + 64) + (1 + 32) + (1 + 64)

def keyStringLength : Nat := (1 + 32) + (1 + 32)

def createConfigString (config : ChatFabricConfig) : Except Fault Bytes :=
  (encodeFields (.calloc configStringLength) (configFields config)).map OutBuf.msg

def createKeyString (config : ChatFabricConfig) : Except Fault Bytes :=
  (encodeFields (.calloc keyStringLength) (keyFields config)).map OutBuf.msg

def configFileBytes (config : ChatFabricConfig) : Except Fault Bytes := do
  let configstr ← createConfigString config
  let keys ← createKeyString config
  .ok (configstr ++ keys ++ [CfTag.eof.toByte])

/-- The switch of _cfConfigRead. -/
def cfConfigTagCase : CfTag → Case ChatFabricConfig
  | .header => .jump 4
  | .configLength => .limit 4 fun v => (ofBe32 v).toInt32.toInt
  | .hasPairs => .field 4 fun v c => { c with hasPairs := (ofBe32 v).toInt32 }
  | .debug => .field 4 fun v c => { c with debug := (ofBe32 v).toInt32 }
  | .uuid0 => .field 16 fun v c => { c with uuid.u0 := .ofBytes 16 v }
  | .uuid1 => .field 16 fun v c => { c with uuid.u1 := .ofBytes 16 v }
  | .mode => .field 4 fun v c => { c with mode := (ofBe32 v).toInt32 }
  | .wifiAp => .field 4 fun v c => { c with wifiApSwitch := (ofBe32 v).toInt32 }
  | .wifiApDhcps => .field 4 fun v c => { c with wifiApDhcpsSwitch := (ofBe32 v).toInt32 }
  | .wifiSta => .field 4 fun v c => { c with wifiStaSwitch := (ofBe32 v).toInt32 }
  | .wifiStaDhcpc => .field 4 fun v c => { c with dhcpClientSwitch := (ofBe32 v).toInt32 }
  | .dhcpsRangeLow => .field 4 fun v c => { c with dhcpsRangeLow := ofBe32 v }
  | .dhcpsRangeHigh => .field 4 fun v c => { c with dhcpsRangeHigh := ofBe32 v }
  | .staIpv4 => .field 4 fun v c => { c with staIpv4 := ofBe32 v }
  | .staIpv4netmask => .field 4 fun v c => { c with staIpv4netmask := ofBe32 v }
  | .staIpv4gw => .field 4 fun v c => { c with staIpv4gw := ofBe32 v }
  | .staIpv4ns1 => .field 4 fun v c => { c with staIpv4ns1 := ofBe32 v }
  | .staIpv4ns2 => .field 4 fun v c => { c with staIpv4ns2 := ofBe32 v }
  | .staNtpv4 => .field 4 fun v c => { c with ntpv4 := ofBe32 v }
  | .apIpv4 => .field 4 fun v c => { c with apIpv4 := ofBe32 v }
  | .apIpv4netmask => .field 4 fun v c => { c with apIpv4netmask := ofBe32 v }
  | .apIpv4gw => .field 4 fun v c => { c with apIpv4gw := ofBe32 v }
  | .apIpv4ns1 => .field 4 fun v c => { c with apIpv4ns1 := ofBe32 v }
  | .apIpv4ns2 => .field 4 fun v c => { c with apIpv4ns2 := ofBe32 v }
  | .staIpv6 => .field 16 fun v c => { c with staIpv6 := .ofBytes 16 v }
  | .staIpv6netmask => .field 16 fun v c => { c with staIpv6netmask := .ofBytes 16 v }
  | .staIpv6gw => .field 16 fun v c => { c with staIpv6gw := .ofBytes 16 v }
  | .apIpv6ns1 => .field 16 fun v c => { c with apIpv6ns1 := .ofBytes 16 v }
  | .apIpv6ns2 => .field 16 fun v c => { c with apIpv6ns2 := .ofBytes 16 v }
  | .hostname => .field 32 fun v c => { c with hostname := c.hostname.patch 0 v }
  | .wifiApSsid => .field 32 fun v c => { c with wifiApSsid := c.wifiApSsid.patch 0 v }
  | .wifiApPasswd => .field 64 fun v c => { c with wifiApPasswd := c.wifiApPasswd.patch 0 v }
  | .wifiStaSsid => .field 32 fun v c => { c with wifiStaSsid := c.wifiStaSsid.patch 0 v }
  | .wifiStaPasswd => .field 64 fun v c => { c with wifiStaPasswd := c.wifiStaPasswd.patch 0 v }
  | .publickey => .field 32 fun v c => { c with publickey := .ofBytes 32 v }
  | .privatekey => .field 32 fun v c => { c with privatekey := .ofBytes 32 v }
  | .eof => .stop
  | _ => .pass

def cfConfigCase (t : UInt8) : Case ChatFabricConfig :=
  match CfTag.ofByte t with
  | some tag => cfConfigTagCase tag
  | none => .pass

@[simp] theorem cfConfigCase_toByte (tag : CfTag) : cfConfigCase tag.toByte = cfConfigTagCase tag := by
  simp [cfConfigCase]

theorem storeField_others {α : Type} {part : ChatFabricConfig → α} {tag : CfTag}
    (others : ∀ t, t ≠ tag → ∀ v c, part (storeField cfConfigCase c (t.toByte, v)) = part c)
    (f : UInt8 × Bytes) (c : ChatFabricConfig) (other : f.1 ≠ tag.toByte) :
    part (storeField cfConfigCase c f) = part c := by
  cases named : CfTag.ofByte f.1 with
  | none => simp [storeField, cfConfigCase, named]
  | some t =>
    have byte := CfTag.toByte_of_ofByte named
    have unlike : t ≠ tag := by
      rintro rfl
      exact other byte
    have same := others t unlike f.2 c
    rwa [← byte] at same

def cfConfigRead (config : ChatFabricConfig) (str : Bytes) (filesize : Int) :
    Except Fault ChatFabricConfig :=
  match readAll cfConfigCase str filesize config with
  | .ok config => .ok config
  | .error .readPastEnd => .error .inputRead

/-- cstr_len is an int: a length of 2^31 or more arrives negative. -/
def cfConfigSetFromStr (config : ChatFabricConfig) (cstr : Option Bytes) (cstrLen : UInt32) :
    Except Fault ChatFabricConfig :=
  cfConfigRead config (cstr.getD []) cstrLen.toInt32.toInt

def configBytes (c : ChatFabricConfig) : Bytes := fieldBytes (plainFields (configFields c))
def keyBytes (c : ChatFabricConfig) : Bytes := fieldBytes (plainFields (keyFields c))

theorem configFields_present (c : ChatFabricConfig) :
    ∀ f ∈ configFields c, f.2.bytes = .ok f.2.plain := by
  simp [configFields, int32Field, uuidField, data8Field, TagData.bytes, TagData.plain]

theorem length_configBytes (c : ChatFabricConfig) : (configBytes c).length = 555 := by
  simp [configBytes, configFields, plainFields, fieldBytes, int32Field, uuidField, data8Field,
    TagData.plain]

theorem length_keyBytes (c : ChatFabricConfig) : (keyBytes c).length = 66 := by
  simp [keyBytes, keyFields, plainFields, fieldBytes, data8Field, TagData.plain]

/-- The five bytes counted for the config length tag stay zero. -/
def configString (c : ChatFabricConfig) : Bytes := configBytes c ++ List.replicate 5 0

theorem createConfigString_eq (c : ChatFabricConfig) :
    createConfigString c = .ok (configString c) := by
  have encoded := encodeFields_ok (encodes_plain (configFields_present c))
    (b := .calloc configStringLength) (by
      change 0 + (configBytes c).length ≤ 560
      rw [length_configBytes]
      omega)
  rw [createConfigString, encoded]
  change Except.ok (configBytes c ++ List.replicate (560 - (configBytes c).length) 0) = _
  rw [length_configBytes]
  rfl

theorem createKeyString_eq (c : ChatFabricConfig) : createKeyString c = .ok (keyBytes c) := by
  have present : ∀ f ∈ keyFields c, f.2.bytes = .ok f.2.plain := by
    simp [keyFields, data8Field, TagData.bytes, TagData.plain]
  have encoded := encodeFields_ok (encodes_plain present)
    (b := .calloc keyStringLength) (by
      change 0 + (keyBytes c).length ≤ 66
      exact Nat.le_of_eq (by rw [length_keyBytes]))
  rw [createKeyString, encoded]
  change Except.ok (keyBytes c ++ List.replicate (66 - (keyBytes c).length) 0) = _
  rw [length_keyBytes]
  simp

def fileBytes (c : ChatFabricConfig) : Bytes :=
  configString c ++ keyBytes c ++ [CfTag.eof.toByte]

theorem configFileBytes_eq (c : ChatFabricConfig) : configFileBytes c = .ok (fileBytes c) := by
  simp only [configFileBytes, createConfigString_eq, createKeyString_eq, bind, Except.bind,
    fileBytes]

theorem cfConfigRead_keeps {α : Type} {part : ChatFabricConfig → α}
    (untouched : ∀ tag width store, cfConfigTagCase tag = .field width store →
      ∀ v c, part (store v c) = part c)
    {config read : ChatFabricConfig} {str : Bytes} {filesize : Int}
    (run : cfConfigRead config str filesize = .ok read) : part read = part config := by
  unfold cfConfigRead at run
  split at run
  · rename_i stored whole
    cases run
    refine readAll_keeps (fun c => part c = part config) ?_ rfl whole
    intro b width store known v c size same
    unfold cfConfigCase at known
    split at known
    · exact (untouched _ width store known v c).trans same
    · cases known
  · cases run

/-- The config read may be of a peer's making; the controls are no part of it. -/
theorem cfConfigRead_controlers {config read : ChatFabricConfig} {str : Bytes} {filesize : Int}
    (run : cfConfigRead config str filesize = .ok read) : read.controlers = config.controlers := by
  refine cfConfigRead_keeps ?_ run
  intro tag width store known v c
  cases tag <;> cases known <;> rfl

theorem cfConfigSetFromStr_controlers {config read : ChatFabricConfig} {cstr : Option Bytes}
    {cstrLen : UInt32} (run : cfConfigSetFromStr config cstr cstrLen = .ok read) :
    read.controlers = config.controlers :=
  cfConfigRead_controlers run

end ChatFabric
