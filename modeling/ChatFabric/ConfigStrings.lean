import ChatFabric.CStrings
import ChatFabric.EspDevice
import ChatFabric.HexText
import ChatFabric.Runs
import ChatFabric.TagFields

/- The five strings of the config, and where the ESP8266 build copies them by their length. The
   reader never writes a terminator; each array is one byte longer than what is read into it. -/
namespace ConfigStrings
open ByteStrings CStrings HexText TagStream Runs ChatFabric Esp8266

/-- strlen, which must not run out of the array. -/
def strlen (arr : Bytes) : Except Fault Nat :=
  if 0 ∈ arr then .ok (text arr).length else .error .sourceRead

/-- memcpy of a string's length, without the terminator. -/
def copyString {n : Nat} (dest : Block n) (arr : Bytes) : Except Fault (Block n) := do
  let len ← strlen arr
  if len ≤ n then .ok (dest.patch 0 (arr.take len)) else .error .localWrite

structure SoftapConfig where
  ssid : Block 32
  password : Block 64
  ssidLen : UInt8
  authmode : UInt8
  ssidHidden : UInt8
  maxConnection : UInt8

structure StationConfig where
  ssid : Block 32
  password : Block 64

def stationMode : Int32 := 1
def stationapMode : Int32 := 3
def authWpa2Psk : UInt8 := 3

def wifiMode (c : ChatFabricConfig) : Int32 :=
  if c.wifiApSwitch = 1 ∧ c.wifiStaSwitch = 0 then softapMode
  else if c.wifiApSwitch = 1 ∧ c.wifiStaSwitch = 1 then stationapMode
  else if c.wifiApSwitch = 0 ∧ c.wifiStaSwitch = 1 then stationMode
  else softapMode

/-- A name that is set for the access point goes over the hostname, and need not cover it. -/
def softapConfig (c : ChatFabricConfig) : Except Fault SoftapConfig := do
  let ssid ← copyString (.zero 32) c.hostname.val
  let len ← strlen c.hostname.val
  let (ssid, len) ←
    if c.wifiApSsid.val.head? ≠ some 0 then do
      let ssid ← copyString ssid c.wifiApSsid.val
      let len ← strlen c.wifiApSsid.val
      .ok (ssid, len)
    else .ok (ssid, len)
  let password ← copyString (.zero 64) c.wifiApPasswd.val
  .ok ⟨ssid, password, UInt8.ofNat len, authWpa2Psk, 0, 4⟩

def stationConfig (c : ChatFabricConfig) : Except Fault StationConfig := do
  let ssid ← copyString (.zero 32) c.wifiStaSsid.val
  let password ← copyString (.zero 64) c.wifiStaPasswd.val
  .ok ⟨ssid, password⟩

structure WiFi where
  config : ChatFabricConfig
  softap : Option SoftapConfig
  station : Option StationConfig

def espWiFiInit (c : ChatFabricConfig) : Except Fault WiFi := do
  let mode := wifiMode c
  let softap ← if mode = softapMode ∨ mode = stationapMode then (softapConfig c).map some else .ok none
  let station ← if mode = stationapMode ∨ mode = stationMode then (stationConfig c).map some else .ok none
  .ok ⟨{ c with mode := mode }, softap, station⟩

def hostnameMaxLength : Nat := 32

/-- cf-%02x:%02x:%02x:%02x:%02x:%02x -/
def macName (hwaddr : Block 6) : Bytes :=
  [99, 102, 45] ++ (hwaddr.val.flatMap fun b => 58 :: hex2 b).drop 1

def mdnsName (hwaddr : Block 6) (c : ChatFabricConfig) : Except Fault Bytes :=
  if c.hostname.val.head? = some 0 then .ok (macName hwaddr)
  else do
    let len ← strlen c.hostname.val
    .ok (c.hostname.val.take len)

/-- host_name, a copy of the buffer up to its terminator. -/
def espCfMdns (hwaddr : Block 6) (c : ChatFabricConfig) : Except Fault Bytes := do
  let name ← mdnsName hwaddr c
  let buffer2 ← sprintf .localWrite (List.replicate hostnameMaxLength 0) 0 name
  let len ← strlen buffer2
  .ok (buffer2.take (len + 1))

/-- One reading of a string, from the flash, a file or a payload. One that leaves its string
    leaves no config to go on with. -/
def read (c : ChatFabricConfig) (input : Bytes × Int) : ChatFabricConfig :=
  match ChatFabric.cfConfigRead c input.1 input.2 with
  | .ok d => d
  | .error _ => c

structure Terminated (c : ChatFabricConfig) : Prop where
  hostname : 0 ∈ c.hostname.val
  apSsid : 0 ∈ c.wifiApSsid.val
  apPasswd : 0 ∈ c.wifiApPasswd.val
  staSsid : 0 ∈ c.wifiStaSsid.val
  staPasswd : 0 ∈ c.wifiStaPasswd.val

structure Fitting (c : ChatFabricConfig) : Prop where
  strings : Terminated c
  wifi : ∃ done, espWiFiInit c = .ok done
  mdns : ∀ hwaddr, ∃ name, espCfMdns hwaddr c = .ok name

/-- The bytes that no reading writes. -/
structure Closed (c : ChatFabricConfig) : Prop where
  hostname : c.hostname.val[32]? = some 0
  apSsid : c.wifiApSsid.val[32]? = some 0
  apPasswd : c.wifiApPasswd.val[64]? = some 0
  staSsid : c.wifiStaSsid.val[32]? = some 0
  staPasswd : c.wifiStaPasswd.val[64]? = some 0

theorem Closed.terminated {c : ChatFabricConfig} (closed : Closed c) : Terminated c :=
  ⟨List.mem_of_getElem? closed.hostname, List.mem_of_getElem? closed.apSsid,
    List.mem_of_getElem? closed.apPasswd, List.mem_of_getElem? closed.staSsid,
    List.mem_of_getElem? closed.staPasswd⟩

theorem patch_behind {n k : Nat} (arr : Block n) {v : Bytes} (fits : v.length ≤ n) (behind : v.length ≤ k) :
    (arr.patch 0 v).val[k]? = arr.val[k]? := by
  have rest := congrArg (·[0]?) (Block.drop_patch arr (by omega : 0 + v.length ≤ n) (by omega : 0 + v.length ≤ k))
  simpa only [List.getElem?_drop, Nat.add_zero] using rest

theorem patch_last {n : Nat} {arr : Block (n + 1)} (last : arr.val[n]? = some 0) {v : Bytes}
    (size : v.length = n) : (arr.patch 0 v).val[n]? = some 0 :=
  (patch_behind arr (by omega) (Nat.le_of_eq size)).trans last

theorem strlen_closed {n : Nat} {arr : Block (n + 1)} (last : arr.val[n]? = some 0) :
    strlen arr.val = .ok (text arr.val).length ∧ (text arr.val).length ≤ n := by
  have here : 0 ∈ arr.val := List.mem_of_getElem? last
  have short := (length_text_lt_iff (Nat.le_of_eq arr.length_val.symm)).mpr (by simpa using here)
  exact ⟨if_pos here, by omega⟩

theorem copyString_fits {n : Nat} (dest : Block n) {arr : Block (n + 1)} (last : arr.val[n]? = some 0) :
    copyString dest arr.val = .ok (dest.patch 0 (arr.val.take (text arr.val).length)) := by
  obtain ⟨length, short⟩ := strlen_closed last
  simp only [copyString, length, bind, Except.bind, short, if_true]

theorem softapConfig_fits {c : ChatFabricConfig} (closed : Closed c) : ∃ ap, softapConfig c = .ok ap := by
  have name := (strlen_closed closed.hostname).1
  have ssid := (strlen_closed closed.apSsid).1
  unfold softapConfig
  simp only [copyString_fits _ closed.hostname, copyString_fits _ closed.apSsid,
    copyString_fits _ closed.apPasswd, name, ssid, bind, Except.bind]
  split
  · exact ⟨_, rfl⟩
  · exact ⟨_, rfl⟩

theorem stationConfig_fits {c : ChatFabricConfig} (closed : Closed c) :
    stationConfig c = .ok ⟨(Block.zero 32).patch 0 (c.wifiStaSsid.val.take (text c.wifiStaSsid.val).length),
      (Block.zero 64).patch 0 (c.wifiStaPasswd.val.take (text c.wifiStaPasswd.val).length)⟩ := by
  simp only [stationConfig, copyString_fits _ closed.staSsid, copyString_fits _ closed.staPasswd, bind,
    Except.bind]

theorem espWiFiInit_fits {c : ChatFabricConfig} (closed : Closed c) : ∃ done, espWiFiInit c = .ok done := by
  obtain ⟨ap, made⟩ := softapConfig_fits closed
  simp only [espWiFiInit, made, stationConfig_fits closed, Except.map, bind, Except.bind]
  split
  · split
    · exact ⟨_, rfl⟩
    · exact ⟨_, rfl⟩
  · split
    · exact ⟨_, rfl⟩
    · exact ⟨_, rfl⟩

theorem length_macName (hwaddr : Block 6) : (macName hwaddr).length = 20 := by
  have each : (hwaddr.val.flatMap fun b => 58 :: hex2 b).length = 18 := by
    simp [List.length_flatMap, hex2]
  simp [macName, each]

theorem mdnsName_eq {c : ChatFabricConfig} (closed : Closed c) (hwaddr : Block 6) :
    ∃ name, mdnsName hwaddr c = .ok name ∧
      (name.length < hostnameMaxLength ↔ (text c.hostname.val).length < hostnameMaxLength) := by
  unfold mdnsName
  split
  · rename_i empty
    obtain ⟨rest, same⟩ := List.head?_eq_some_iff.mp empty
    refine ⟨_, rfl, ?_⟩
    rw [length_macName, same, text_zero]
    decide
  · obtain ⟨length, short⟩ := strlen_closed closed.hostname
    simp only [length, bind, Except.bind]
    refine ⟨_, rfl, ?_⟩
    rw [List.length_take, Block.length_val, Nat.min_eq_left (by omega)]

theorem espCfMdns_ok_iff {c : ChatFabricConfig} (closed : Closed c) (hwaddr : Block 6) :
    (∃ name, espCfMdns hwaddr c = .ok name) ↔ 0 ∈ c.hostname.val.take hostnameMaxLength := by
  rw [← length_text_lt_iff (by rw [Block.length_val]; decide)]
  obtain ⟨name, named, size⟩ := mdnsName_eq closed hwaddr
  rw [← size]
  simp only [espCfMdns, named, bind, Except.bind]
  cases printed : sprintf Fault.localWrite (List.replicate hostnameMaxLength 0) 0 name with
  | error f =>
    have full := sprintf_full printed
    rw [List.length_replicate] at full
    exact iff_of_false (by simp) (by omega)
  | ok buffer2 =>
    have room := sprintf_room printed
    rw [List.length_replicate] at room
    have here : strlen buffer2 = .ok (text buffer2).length := if_pos (sprintf_terminated printed)
    simp only [here]
    exact iff_of_true ⟨_, rfl⟩ (by omega)

def HostnameEnds (input : Bytes × Int) : Prop :=
  ∀ fields v, fieldsRead cfConfigCase input.1 input.2 = .ok fields →
    lastField CfTag.hostname.toByte fields = some v → 0 ∈ v

theorem Closed.store {c : ChatFabricConfig} (closed : Closed c) {tag : CfTag} {width : Nat}
    {put : Bytes → ChatFabricConfig → ChatFabricConfig} (known : cfConfigTagCase tag = .field width put)
    {v : Bytes} (size : v.length = width) : Closed (put v c) := by
  cases tag with
  | hostname =>
    cases known
    exact { closed with hostname := patch_last closed.hostname size }
  | wifiApSsid =>
    cases known
    exact { closed with apSsid := patch_last closed.apSsid size }
  | wifiApPasswd =>
    cases known
    exact { closed with apPasswd := patch_last closed.apPasswd size }
  | wifiStaSsid =>
    cases known
    exact { closed with staSsid := patch_last closed.staSsid size }
  | wifiStaPasswd =>
    cases known
    exact { closed with staPasswd := patch_last closed.staPasswd size }
  | _ =>
    cases known <;>
      exact ⟨closed.hostname, closed.apSsid, closed.apPasswd, closed.staSsid, closed.staPasswd⟩

theorem read_cases (c : ChatFabricConfig) (input : Bytes × Int) :
    (∃ fields, fieldsRead cfConfigCase input.1 input.2 = .ok fields ∧
      (∀ f ∈ fields, Complete cfConfigCase f) ∧ read c input = fields.foldl (storeField cfConfigCase) c) ∨
    (∃ e, fieldsRead cfConfigCase input.1 input.2 = .error e ∧ read c input = c) := by
  have stored : readAll cfConfigCase input.1 input.2 c = _ := readAll_eq_stored input.2 c
  cases fields : fieldsRead cfConfigCase input.1 input.2 with
  | ok fs =>
    left
    refine ⟨fs, rfl, fieldsRead_complete fields, ?_⟩
    simp [read, ChatFabric.cfConfigRead, stored, fields, Except.map]
  | error e =>
    right
    cases e
    refine ⟨_, rfl, ?_⟩
    simp [read, ChatFabric.cfConfigRead, stored, fields, Except.map]

theorem Closed.stored {fields : List (UInt8 × Bytes)} (complete : ∀ f ∈ fields, Complete cfConfigCase f)
    {c : ChatFabricConfig} (closed : Closed c) : Closed (fields.foldl (storeField cfConfigCase) c) := by
  induction fields generalizing c with
  | nil => exact closed
  | cons f fields ih =>
    apply ih fun g mem => complete g (List.mem_cons_of_mem f mem)
    obtain ⟨put, known⟩ := complete f List.mem_cons_self
    have stores : storeField cfConfigCase c f = put f.2 c := by simp [storeField, known]
    rw [stores]
    unfold cfConfigCase at known
    split at known
    · exact closed.store known rfl
    · cases known

theorem Closed.read {c : ChatFabricConfig} (closed : Closed c) (input : Bytes × Int) :
    Closed (read c input) := by
  rcases read_cases c input with ⟨fields, _, complete, same⟩ | ⟨e, _, same⟩
  · rw [same]
    exact Closed.stored complete closed
  · rwa [same]

def hostnameField (c : ChatFabricConfig) : Bytes := c.hostname.val.take hostnameMaxLength

theorem hostname_stored {fields : List (UInt8 × Bytes)} (complete : ∀ f ∈ fields, Complete cfConfigCase f)
    (c : ChatFabricConfig) :
    hostnameField (fields.foldl (storeField cfConfigCase) c) =
      (lastField CfTag.hostname.toByte fields).getD (hostnameField c) := by
  have own : ∀ v x, (CfTag.hostname.toByte, v) ∈ fields →
      hostnameField (storeField cfConfigCase x (CfTag.hostname.toByte, v)) = id v := by
    intro v x mem
    obtain ⟨put, known⟩ := complete _ mem
    simp only [cfConfigCase_toByte, cfConfigTagCase, Case.field.injEq] at known
    have fits : hostnameMaxLength ≤ 33 := by decide
    have front := Block.patch_zero_take x.hostname known.1.symm fits
    simpa [storeField, cfConfigTagCase, hostnameField, hostnameMaxLength] using front
  have others : ∀ t, t ≠ CfTag.hostname → ∀ v c,
      hostnameField (storeField cfConfigCase c (t.toByte, v)) = hostnameField c := by
    intro t other v c
    cases t with
    | hostname => exact absurd rfl other
    | _ => simp [storeField, cfConfigTagCase, hostnameField]
  have last := stored_last fields own (storeField_others others) c
  simpa using last

theorem fitting_iff {c : ChatFabricConfig} (closed : Closed c) : Fitting c ↔ 0 ∈ hostnameField c := by
  constructor
  · intro fitting
    exact (espCfMdns_ok_iff closed (.zero 6)).mp (fitting.mdns _)
  · intro short
    exact ⟨closed.terminated, espWiFiInit_fits closed, fun hwaddr => (espCfMdns_ok_iff closed hwaddr).mpr short⟩

theorem fitting_read_iff {c : ChatFabricConfig} (closed : Closed c) (fitting : Fitting c)
    (input : Bytes × Int) : Fitting (read c input) ↔ HostnameEnds input := by
  have before := (fitting_iff closed).mp fitting
  rw [fitting_iff (closed.read input)]
  rcases read_cases c input with ⟨fields, brought, complete, same⟩ | ⟨e, failed, same⟩
  · rw [same, hostname_stored complete]
    simp only [HostnameEnds, brought, Except.ok.injEq]
    cases last : lastField CfTag.hostname.toByte fields with
    | none =>
      refine iff_of_true before ?_
      rintro _ v rfl here
      simp [last] at here
    | some v =>
      constructor
      · rintro ends _ w rfl here
        rw [last] at here
        exact Option.some.inj here ▸ ends
      · intro ends
        exact ends fields v rfl last
  · rw [same]
    refine iff_of_true before ?_
    intro fields v brought
    cases failed.symm.trans brought

theorem length_createHostMeta (hwaddr : Block 6) : (createHostMeta hwaddr).length = 17 := by
  simp [createHostMeta, List.length_flatMap, slice, hex2]

theorem hostname_started {boot : Boot} {k : Nat} (behind : 17 ≤ k) :
    ((Block.zero 33).patch 0 (createHostMeta boot.hwaddr)).val[k]? = (Block.zero 33).val[k]? := by
  have size := length_createHostMeta boot.hwaddr
  exact patch_behind _ (by omega) (by omega)

theorem closed_cfConfigInit (crypto : Crypto) (boot : Boot) (config : ChatFabricConfig) :
    Closed (cfConfigInit crypto boot config) :=
  ⟨hostname_started (by decide), rfl, rfl, rfl, rfl⟩

theorem fitting_cfConfigInit (crypto : Crypto) (boot : Boot) (config : ChatFabricConfig) :
    Fitting (cfConfigInit crypto boot config) := by
  rw [fitting_iff (closed_cfConfigInit crypto boot config)]
  have here : (cfConfigInit crypto boot config).hostname.val[17]? = some 0 := hostname_started (Nat.le_refl 17)
  have front : (hostnameField (cfConfigInit crypto boot config))[17]? = some 0 := by
    rw [hostnameField, List.getElem?_take, if_pos (by decide), here]
  exact List.mem_of_getElem? front

/-- Whatever is read from the start on, and in which order: every config fits exactly where every
    hostname that is brought ends within its 32 bytes. -/
theorem every_config_fits_iff (crypto : Crypto) (boot : Boot) (config : ChatFabricConfig)
    (inputs : List (Bytes × Int)) :
    (∀ c ∈ states read (cfConfigInit crypto boot config) inputs, Fitting c) ↔
      ∀ input ∈ inputs, HostnameEnds input := by
  have keep : ∀ c input, Closed c → Fitting c → Closed (read c input) :=
    fun c input closed _ => closed.read input
  have exact : ∀ c input, Closed c → Fitting c → (Fitting (read c input) ↔ HostnameEnds input) :=
    fun c input closed fitting => fitting_read_iff closed fitting input
  rw [every_state_iff_every_step keep exact (closed_cfConfigInit crypto boot config)
    (fitting_cfConfigInit crypto boot config), every_step_input]

def longHostname : Bytes × Int := (CfTag.hostname.toByte :: List.replicate 32 97, 33)

/-- The terminator of the name is printed behind the end of the buffer. -/
theorem longHostname_overflows :
    ¬ ∀ crypto boot config inputs, ∀ c ∈ states read (cfConfigInit crypto boot config) inputs, Fitting c := by
  intro always
  have fits := always default default default [longHostname]
    (read (cfConfigInit default default default) longHostname) (by simp [states])
  obtain ⟨name, announced⟩ := fits.mdns (.zero 6)
  have failed : (espCfMdns (.zero 6) (read (cfConfigInit default default default) longHostname)).isOk = false := by
    decide +kernel
  simp [announced, Except.isOk, Except.toBool] at failed

end ConfigStrings
