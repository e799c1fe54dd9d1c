import ChatFabric.Device
import ChatFabric.HexText

/- The ESP8266 build. The config and the pairing record lie in one image of 4096 bytes, the
   config at its start and the record at 2048; the image is held in RAM, as flashConfig, and
   saved to the flash as a whole. -/
namespace Esp8266
open ChatFabric ByteStrings TagStream

def imageSize : Nat := 4096
def pairStart : Nat := 2048

/-- system_param_save_with_protect and system_param_load, of which the SDK has the code: what
    was saved last is what is loaded. -/
structure ParamArea (Flash : Type) where
  save : Flash → Block imageSize → Flash
  load : Flash → Block imageSize
  load_save : ∀ flash image, load (save flash image) = image

attribute [simp] ParamArea.load_save

def cell : ParamArea (Block imageSize) := ⟨fun _ image => image, id, fun _ _ => rfl⟩

/-- The globals config, pair[0] and flashConfig, and the flash. -/
structure Chip (Flash : Type) where
  config : ChatFabricConfig
  pair : ChatFabricPairing
  flashConfig : Block imageSize
  flash : Flash

structure Boot where
  hwaddr : Block 6
  uuid : Block 16
  privatekey : Block 32
  mynonce : Block 8
  deriving Inhabited

/-- The columns of the control table that packets do not show: which controls are read only,
    and what their read function brings, where they have one. -/
structure Panel where
  readOnly : CfControl → Bool
  readFuction : CfControl → Option Int32

variable {Flash : Type}

/-- createHostMeta: cf-%02x%02x:%02x%02x:%02x%02x -/
def createHostMeta (hwaddr : Block 6) : Bytes :=
  let two (i : Nat) : Bytes := (slice hwaddr.val i 2).flatMap HexText.hex2
  [99, 102, 45] ++ two 0 ++ [58] ++ two 2 ++ [58] ++ two 4

def ip4Addr (a b c d : Nat) : UInt32 := UInt32.ofNat (d * 2 ^ 24 + c * 2 ^ 16 + b * 2 ^ 8 + a)

def softapMode : Int32 := 2

def cfConfigInit (crypto : Crypto) (boot : Boot) (config : ChatFabricConfig) : ChatFabricConfig :=
  let ap := ip4Addr 172 16 250 1
  let netmask := ip4Addr 255 255 255 0
  let sta := ip4Addr 192 168 100 2
  { config with
    controlers := []
    mode := softapMode
    hasPairs := 0
    uuid := ⟨uuuid2GenNil config.uuid.u0, boot.uuid⟩
    debug := 1
    hostname := (Block.zero 33).patch 0 (createHostMeta boot.hwaddr)
    apIpv4 := ap, apIpv4netmask := netmask, staIpv4netmask := netmask
    staIpv4 := sta, ntpv4 := sta
    apIpv4gw := ap, apIpv4ns1 := ap, apIpv4ns2 := ap
    staIpv4gw := sta, staIpv4ns1 := sta, staIpv4ns2 := sta
    staIpv6 := .zero 16, staIpv6netmask := .zero 16, staIpv6gw := .zero 16
    staIpv6ns1 := .zero 16, staIpv6ns2 := .zero 16, ntpv6 := .zero 16
    apIpv6 := .zero 16, apIpv6netmask := .zero 16, apIpv6gw := .zero 16
    apIpv6ns1 := .zero 16, apIpv6ns2 := .zero 16
    wifiApSwitch := 1, wifiApDhcpsSwitch := 1, wifiStaSwitch := 0, dhcpClientSwitch := 1
    wifiApSsid := .zero 33, wifiApPasswd := .zero 65
    wifiStaSsid := .zero 33, wifiStaPasswd := .zero 65
    privatekey := boot.privatekey
    publickey := crypto.curve25519Donna boot.privatekey (.ofBytes 32 [9]) }

def headed (image : Block imageSize) (start : Nat) : Bool := image.val[start]? = some CfTag.header.toByte

/-- An image without a header at its start holds no config. -/
def cfConfigRead (sdk : ParamArea Flash) (m : Chip Flash) : Except Fault (Chip Flash) := do
  let image := sdk.load m.flash
  if headed image 0 then
    let config ← ChatFabric.cfConfigRead m.config image.val imageSize
    .ok { m with config := config, flashConfig := image }
  else .ok { m with flashConfig := image }

def cfConfigWrite (sdk : ParamArea Flash) (m : Chip Flash) : Except Fault (Chip Flash) := do
  let configstr ← createConfigString m.config
  let keys ← createKeyString m.config
  let image := ((m.flashConfig.patch 0 configstr).patch configstr.length keys).patch
    (configstr.length + keys.length) [CfTag.eof.toByte]
  .ok { m with flashConfig := image, flash := sdk.save m.flash image }

/-- The fields are encoded into the image itself, from pairStart on. -/
def cfPairWrite (sdk : ParamArea Flash) (m : Chip Flash) : Except Fault (Chip Flash) := do
  let str ← encodeFields ⟨imageSize, m.flashConfig.val.take pairStart⟩ (pairFields m.pair)
  let image := m.flashConfig.patch 0 str.out
  .ok { m with flashConfig := image, flash := sdk.save m.flash image }

/-- The switch of the host build, but for where the record ends. -/
def cfPairCase (t : UInt8) : Case PairReading :=
  match CfTag.ofByte t with
  | some .pairLength => .limit 4 fun v => (2048 + ofBe32 v).toInt32.toInt
  | some tag => cfPairTagCase tag
  | none => .pass

def readPair (image : Block imageSize) (r : PairReading) : Except Overrun (Reading PairReading) :=
  readFrom cfPairCase image.val ⟨pairStart, imageSize, r⟩

def cfPairRead (crypto : Crypto) (sdk : ParamArea Flash) (m : Chip Flash) : Except Fault (Chip Flash) :=
  let image := sdk.load m.flash
  if headed image 0 then
    match readPair image ⟨m.config.hasPairs, m.pair⟩ with
    | .ok r => .ok { m with
        flashConfig := image
        config.hasPairs := r.value.hasPairs
        pair := { r.value.pair with
          sharedkey := crypto.curve25519Donna m.config.privatekey r.value.pair.publickey } }
    | .error .readPastEnd => .error .inputRead
  else .ok { m with flashConfig := image }

/-- The controls of an outlet; data, which none of these types has, was never set. -/
def outletControls : List CfControl :=
  [⟨0, 1, 0, 0, 1, 10, some [84, 111, 112, 32, 79, 117, 116, 108, 101, 116], none⟩,
   ⟨1, 1, 0, 0, 1, 13, some [66, 111, 116, 116, 111, 109, 32, 79, 117, 116, 108, 101, 116], none⟩,
   ⟨2, 3, 0, 0, 1024, 3, some [65, 68, 67], none⟩]

def apPassword : Bytes := [101, 115, 112, 56, 50, 54, 54, 33, 100, 101, 109, 111]
def ssidPassword : Bytes := [100, 101, 109, 111, 49, 50, 51, 52]
def ssid : Bytes := [100, 101, 109, 111]

def espCfConfigInit (crypto : Crypto) (sdk : ParamArea Flash) (boot : Boot) (m : Chip Flash) :
    Except Fault (Chip Flash) := do
  let config := cfConfigInit crypto boot m.config
  let m ← cfConfigRead sdk { m with config := { config with wifiApSwitch := 1, wifiStaSwitch := 0 } }
  .ok { m with config := { m.config with
    debug := 0
    wifiApPasswd := m.config.wifiApPasswd.patch 0 apPassword
    wifiStaPasswd := m.config.wifiStaPasswd.patch 0 ssidPassword
    wifiStaSsid := m.config.wifiStaSsid.patch 0 ssid
    controlers := outletControls } }

/-- user_init_stage2 up to espWiFiInit, which goes on to set config.mode: a start knows nothing but
    what the flash holds. -/
def userInitStage2 (crypto : Crypto) (sdk : ParamArea Flash) (boot : Boot) (flash : Flash) :
    Except Fault (Chip Flash) := do
  let m ← espCfConfigInit crypto sdk boot ⟨default, zeroPairing, .zero imageSize, flash⟩
  let m ← cfConfigWrite sdk m
  let m := { m with pair := cfPairInit m.pair boot.mynonce }
  if headed m.flashConfig pairStart then cfPairRead crypto sdk m else .ok m

/-- What one call of chatFabric_device works on. The packets come from a table whose entries
    keep what earlier packets left in them, so any packet may be the decoded one. -/
structure Received where
  cp : ChatPacket
  reply : ChatPacket
  replyCmd : Command
  panel : Panel

structure Handled (Flash : Type) where
  chip : Chip Flash
  reply : ChatPacket
  retval : Command

def commandSwitch (crypto : Crypto) (sdk : ParamArea Flash) (m : Chip Flash) (cp reply : ChatPacket) :
    Except Fault (Handled Flash) :=
  match cp.cmd with
  | .configGet => do
    let str ← createConfigString m.config
    .ok ⟨m, { reply with
      cmd := .configMessage
      payload := some str
      payloadLength := UInt32.ofNat str.length }, .sendReplyTrue⟩
  | .configSet => do
    let config ← cfConfigSetFromStr m.config cp.payload cp.payloadLength
    let m ← cfConfigWrite sdk { m with config := config }
    .ok ⟨m, { reply with cmd := .appMessageAck }, .sendReplyTrue⟩
  | _ =>
    let s := pairSwitch crypto m.config cp m.pair reply
    .ok ⟨{ m with pair := s.pair }, s.reply, s.retval⟩

def savePaired (sdk : ParamArea Flash) (previous : PairState) (m : Chip Flash) :
    Except Fault (Chip Flash) :=
  if m.pair.state ≠ previous ∧ m.pair.state = .paired then
    cfPairWrite sdk { m with config.hasPairs := 1 }
  else .ok m

def stateMachine (crypto : Crypto) (sdk : ParamArea Flash) (m : Chip Flash) (a : Received) :
    Except Fault (Chip Flash × Outcome) :=
  if misaddressed m.config a.cp then
    .ok (m, ⟨⟨m.config, m.pair, none, none⟩, a.reply, a.replyCmd, .invaildDest⟩)
  else do
    let reply := { a.reply with toUuid := a.cp.fromUuid, fromUuid := m.config.uuid }
    let handled ← commandSwitch crypto sdk m a.cp reply
    let m ← savePaired sdk m.pair.state handled.chip
    .ok (m, ⟨⟨m.config, m.pair, none, none⟩, handled.reply, handled.retval, .ok⟩)

def readControl (panel : Panel) (c : CfControl) : CfControl :=
  match panel.readFuction c with
  | some value => { c with value := value }
  | none => c

def showControl (cp : ChatPacket) (c : CfControl) (reply : ChatPacket) : ChatPacket :=
  { reply with
    action := actionRead
    actionControl := cp.actionControl
    actionType := c.type
    actionValue := c.value
    actionLength := 0 }

def actOn (panel : Panel) (cp : ChatPacket) (c : CfControl) (reply : ChatPacket) :
    CfControl × ChatPacket :=
  if c.control = cp.actionControl then
    if cp.action = actionGet then
      let c := readControl panel c
      (c, showControl cp c reply)
    else if cp.action = actionSet ∧ ¬ panel.readOnly c then
      let c := { c with value := cp.actionValue }
      (c, showControl cp c reply)
    else (c, reply)
  else (c, reply)

def deviceCallBackLoop (panel : Panel) (cp : ChatPacket) :
    List CfControl → ChatPacket → List CfControl × ChatPacket
  | [], reply => ([], reply)
  | c :: rest, reply =>
    let acted := actOn panel cp c reply
    let done := deviceCallBackLoop panel cp rest acted.2
    (acted.1 :: done.1, done.2)

def deviceCallBack (panel : Panel) : Callback := fun cp a =>
  let done := deviceCallBackLoop panel cp a.config.controlers a.reply
  { a with
    config.controlers := done.1
    reply := { done.2 with controlers := done.2.controlers.map fun _ => done.1 } }

def chatFabricDevice (crypto : Crypto) (sdk : ParamArea Flash) (m : Chip Flash) (a : Received) :
    Except Fault (Chip Flash) := do
  let (m, o) ← stateMachine crypto sdk m a
  let sent ← sendReply crypto (runCallback (some (deviceCallBack a.panel)) a.cp o)
  .ok { m with config := sent.1.config, pair := sent.1.pair }

inductive Input where
  | datagram (a : Received)
  | unpair (mynonce : Block 8)
  | saveconfig
  | readconfig
  | debug (on : Bool)
  | init (boot : Boot)
  | restart (boot : Boot)

def step (crypto : Crypto) (sdk : ParamArea Flash) (m : Chip Flash) :
    Input → Except Fault (Chip Flash)
  | .datagram a => chatFabricDevice crypto sdk m a
  | .unpair mynonce => .ok { m with pair := cfPairInit m.pair mynonce }
  | .saveconfig => cfConfigWrite sdk m
  | .readconfig => cfConfigRead sdk m
  | .debug on => .ok { m with config.debug := if on then 1 else 0 }
  | .init boot => do
    let m ← cfConfigWrite sdk { m with flashConfig := .zero imageSize }
    userInitStage2 crypto sdk boot m.flash
  | .restart boot => userInitStage2 crypto sdk boot m.flash

/-- A step that faults leaves no state to go on with. -/
def next (crypto : Crypto) (sdk : ParamArea Flash) (m : Chip Flash) (a : Input) : Chip Flash :=
  match step crypto sdk m a with
  | .ok m => m
  | .error _ => m

end Esp8266
