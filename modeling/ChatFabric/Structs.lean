import ChatFabric.ByteStrings

/- The records and enumerations of cfstructs.h. An enumeration that the code keeps
   in a 32-bit word has a case for the words it gives no name, so every word is
   one value of the type and no two values are one word. -/
namespace ChatFabric
open ByteStrings

/-- chatPacketCommands -/
inductive Command where
  | invaildCmd | hello | helloAck | pairRequest | pairRequestAck | pairRequestReset
  | nonceRequest | nonceSend | nonceAck | nonceReset | publickeyRequest | publickeySend
  | publickeyAck | publickeyReset | verifySyn | verifySynack | verifyAck | appMessage
  | appMessageAck | appRegister | appList | appListAck | configGet | configSet
  | configMessage | configDeligate | configPair | sendReplyFalse | sendReplyTrue | packetDecryptFailed
  | fail
  | other (code : UInt32) (unnamed : 31 ≤ code.toNat)
  deriving DecidableEq

namespace Command

def toCode : Command → UInt32
  | .invaildCmd => 0
  | .hello => 1
  | .helloAck => 2
  | .pairRequest => 3
  | .pairRequestAck => 4
  | .pairRequestReset => 5
  | .nonceRequest => 6
  | .nonceSend => 7
  | .nonceAck => 8
  | .nonceReset => 9
  | .publickeyRequest => 10
  | .publickeySend => 11
  | .publickeyAck => 12
  | .publickeyReset => 13
  | .verifySyn => 14
  | .verifySynack => 15
  | .verifyAck => 16
  | .appMessage => 17
  | .appMessageAck => 18
  | .appRegister => 19
  | .appList => 20
  | .appListAck => 21
  | .configGet => 22
  | .configSet => 23
  | .configMessage => 24
  | .configDeligate => 25
  | .configPair => 26
  | .sendReplyFalse => 27
  | .sendReplyTrue => 28
  | .packetDecryptFailed => 29
  | .fail => 30
  | .other code _ => code

def ofCode (code : UInt32) : Command :=
  match found : code.toNat with
  | 0 => .invaildCmd
  | 1 => .hello
  | 2 => .helloAck
  | 3 => .pairRequest
  | 4 => .pairRequestAck
  | 5 => .pairRequestReset
  | 6 => .nonceRequest
  | 7 => .nonceSend
  | 8 => .nonceAck
  | 9 => .nonceReset
  | 10 => .publickeyRequest
  | 11 => .publickeySend
  | 12 => .publickeyAck
  | 13 => .publickeyReset
  | 14 => .verifySyn
  | 15 => .verifySynack
  | 16 => .verifyAck
  | 17 => .appMessage
  | 18 => .appMessageAck
  | 19 => .appRegister
  | 20 => .appList
  | 21 => .appListAck
  | 22 => .configGet
  | 23 => .configSet
  | 24 => .configMessage
  | 25 => .configDeligate
  | 26 => .configPair
  | 27 => .sendReplyFalse
  | 28 => .sendReplyTrue
  | 29 => .packetDecryptFailed
  | 30 => .fail
  | _ + 31 => .other code (by omega)

@[simp] theorem ofCode_toCode (c : Command) : ofCode c.toCode = c := by
  cases c with
  | other code unnamed =>
    simp only [toCode, ofCode]
    split <;> first | omega | rfl
  | _ => rfl

@[simp] theorem toCode_ofCode (code : UInt32) : (ofCode code).toCode = code := by
  unfold ofCode
  split
  all_goals apply UInt32.toNat_inj.mp; simp_all [toCode]

theorem toCode_injective {a b : Command} (same : a.toCode = b.toCode) : a = b := by
  rw [← ofCode_toCode a, same, ofCode_toCode]

end Command

/-- chatPacketStates -/
inductive PairState where
  | unconfigured | publickeySetup | pairingSetup | nonceSetup | configured | configuredSyn
  | configuredSynack | paired
  | other (code : UInt32) (unnamed : 8 ≤ code.toNat)
  deriving DecidableEq, Inhabited

namespace PairState

def toCode : PairState → UInt32
  | .unconfigured => 0
  | .publickeySetup => 1
  | .pairingSetup => 2
  | .nonceSetup => 3
  | .configured => 4
  | .configuredSyn => 5
  | .configuredSynack => 6
  | .paired => 7
  | .other code _ => code

def ofCode (code : UInt32) : PairState :=
  match found : code.toNat with
  | 0 => .unconfigured
  | 1 => .publickeySetup
  | 2 => .pairingSetup
  | 3 => .nonceSetup
  | 4 => .configured
  | 5 => .configuredSyn
  | 6 => .configuredSynack
  | 7 => .paired
  | _ + 8 => .other code (by omega)

@[simp] theorem ofCode_toCode (c : PairState) : ofCode c.toCode = c := by
  cases c with
  | other code unnamed =>
    simp only [toCode, ofCode]
    split <;> first | omega | rfl
  | _ => rfl

@[simp] theorem toCode_ofCode (code : UInt32) : (ofCode code).toCode = code := by
  unfold ofCode
  split
  all_goals apply UInt32.toNat_inj.mp; simp_all [toCode]

theorem toCode_injective {a b : PairState} (same : a.toCode = b.toCode) : a = b := by
  rw [← ofCode_toCode a, same, ofCode_toCode]

end PairState

/-- chatPacketTags -/
inductive Tag where
  | noop | nonceLength | nonce | envelopeLength | encryptedEnvelope | envelope
  | envelopeRandomPaddingLength | envelopeRandomPaddingHigh | envelopeRandomPaddingLow
  | to0 | to1 | from0 | from1 | flags | payloadLength
  | payloadRandomPaddingLength | payloadRandomPaddingHigh | payloadRandomPaddingLow
  | encryptedPayload | payload | publickeyId | publickey | configLength | config
  | mac | serial | action | actionType | actionValue | actionControl
  | actionLength | actionData | appControls | appControlI | appControlType | appControlValue
  | appControlRangeLow | appControlRangeHigh | appControlLabelLength | appControlLabel
  | appControlData | endtag | cmd
  deriving DecidableEq

namespace Tag

def toByte : Tag → UInt8
  | .noop => 0
  | .nonceLength => 1
  | .nonce => 2
  | .envelopeLength => 3
  | .encryptedEnvelope => 4
  | .envelope => 5
  | .envelopeRandomPaddingLength => 6
  | .envelopeRandomPaddingHigh => 7
  | .envelopeRandomPaddingLow => 8
  | .to0 => 9
  | .to1 => 10
  | .from0 => 11
  | .from1 => 12
  | .flags => 13
  | .payloadLength => 14
  | .payloadRandomPaddingLength => 15
  | .payloadRandomPaddingHigh => 16
  | .payloadRandomPaddingLow => 17
  | .encryptedPayload => 18
  | .payload => 19
  | .publickeyId => 20
  | .publickey => 21
  | .configLength => 22
  | .config => 23
  | .mac => 24
  | .serial => 25
  | .action => 26
  | .actionType => 27
  | .actionValue => 28
  | .actionControl => 29
  | .actionLength => 30
  | .actionData => 31
  | .appControls => 32
  | .appControlI => 33
  | .appControlType => 34
  | .appControlValue => 35
  | .appControlRangeLow => 36
  | .appControlRangeHigh => 37
  | .appControlLabelLength => 38
  | .appControlLabel => 39
  | .appControlData => 40
  | .endtag => 41
  | .cmd => 255

def ofByte (b : UInt8) : Option Tag :=
  match b.toNat with
  | 0 => some .noop
  | 1 => some .nonceLength
  | 2 => some .nonce
  | 3 => some .envelopeLength
  | 4 => some .encryptedEnvelope
  | 5 => some .envelope
  | 6 => some .envelopeRandomPaddingLength
  | 7 => some .envelopeRandomPaddingHigh
  | 8 => some .envelopeRandomPaddingLow
  | 9 => some .to0
  | 10 => some .to1
  | 11 => some .from0
  | 12 => some .from1
  | 13 => some .flags
  | 14 => some .payloadLength
  | 15 => some .payloadRandomPaddingLength
  | 16 => some .payloadRandomPaddingHigh
  | 17 => some .payloadRandomPaddingLow
  | 18 => some .encryptedPayload
  | 19 => some .payload
  | 20 => some .publickeyId
  | 21 => some .publickey
  | 22 => some .configLength
  | 23 => some .config
  | 24 => some .mac
  | 25 => some .serial
  | 26 => some .action
  | 27 => some .actionType
  | 28 => some .actionValue
  | 29 => some .actionControl
  | 30 => some .actionLength
  | 31 => some .actionData
  | 32 => some .appControls
  | 33 => some .appControlI
  | 34 => some .appControlType
  | 35 => some .appControlValue
  | 36 => some .appControlRangeLow
  | 37 => some .appControlRangeHigh
  | 38 => some .appControlLabelLength
  | 39 => some .appControlLabel
  | 40 => some .appControlData
  | 41 => some .endtag
  | 255 => some .cmd
  | _ => none

@[simp] theorem ofByte_toByte (t : Tag) : ofByte t.toByte = some t := by
  cases t <;> rfl

theorem toByte_of_ofByte {b : UInt8} {t : Tag} (known : ofByte b = some t) : b = t.toByte := by
  unfold ofByte at known
  split at known
  all_goals first | cases known; apply UInt8.toNat_inj.mp; assumption | cases known

end Tag

/-- chatFabricConfigTags -/
inductive CfTag where
  | publickey | privatekey | nonce | mynonce | uuid0 | uuid1
  | hasPublicKey | hasNonce | state | serial | hasPairs | debug
  | port | hostname | wifiAp | wifiApSsid | wifiApPasswd | wifiApDhcps
  | dhcpsRangeLow | dhcpsRangeHigh | wifiSta | wifiStaSsid | wifiStaPasswd | wifiStaDhcpc
  | apIpv4 | apIpv4netmask | apIpv4gw | apIpv4ns1 | apIpv4ns2 | apIpv6
  | apIpv6netmask | apIpv6gw | apIpv6ns1 | apIpv6ns2 | staIpv4 | staIpv4netmask
  | staIpv4gw | staIpv4ns1 | staIpv4ns2 | staNtpv4 | staIpv6 | staIpv6netmask
  | staIpv6gw | staIpv6ns1 | staIpv6ns2 | staNtpv6 | mode | header
  | configLength | pairLength | pairs | eof
  deriving DecidableEq

namespace CfTag

def toByte : CfTag → UInt8
  | .publickey => 1
  | .privatekey => 2
  | .nonce => 3
  | .mynonce => 4
  | .uuid0 => 5
  | .uuid1 => 6
  | .hasPublicKey => 7
  | .hasNonce => 8
  | .state => 9
  | .serial => 10
  | .hasPairs => 11
  | .debug => 12
  | .port => 13
  | .hostname => 14
  | .wifiAp => 15
  | .wifiApSsid => 16
  | .wifiApPasswd => 17
  | .wifiApDhcps => 18
  | .dhcpsRangeLow => 19
  | .dhcpsRangeHigh => 20
  | .wifiSta => 21
  | .wifiStaSsid => 22
  | .wifiStaPasswd => 23
  | .wifiStaDhcpc => 24
  | .apIpv4 => 25
  | .apIpv4netmask => 26
  | .apIpv4gw => 27
  | .apIpv4ns1 => 28
  | .apIpv4ns2 => 29
  | .apIpv6 => 30
  | .apIpv6netmask => 31
  | .apIpv6gw => 32
  | .apIpv6ns1 => 33
  | .apIpv6ns2 => 34
  | .staIpv4 => 35
  | .staIpv4netmask => 36
  | .staIpv4gw => 37
  | .staIpv4ns1 => 38
  | .staIpv4ns2 => 39
  | .staNtpv4 => 40
  | .staIpv6 => 41
  | .staIpv6netmask => 42
  | .staIpv6gw => 43
  | .staIpv6ns1 => 44
  | .staIpv6ns2 => 45
  | .staNtpv6 => 46
  | .mode => 47
  | .header => 165
  | .configLength => 240
  | .pairLength => 241
  | .pairs => 242
  | .eof => 250

def ofByte (b : UInt8) : Option CfTag :=
  match b.toNat with
  | 1 => some .publickey
  | 2 => some .privatekey
  | 3 => some .nonce
  | 4 => some .mynonce
  | 5 => some .uuid0
  | 6 => some .uuid1
  | 7 => some .hasPublicKey
  | 8 => some .hasNonce
  | 9 => some .state
  | 10 => some .serial
  | 11 => some .hasPairs
  | 12 => some .debug
  | 13 => some .port
  | 14 => some .hostname
  | 15 => some .wifiAp
  | 16 => some .wifiApSsid
  | 17 => some .wifiApPasswd
  | 18 => some .wifiApDhcps
  | 19 => some .dhcpsRangeLow
  | 20 => some .dhcpsRangeHigh
  | 21 => some .wifiSta
  | 22 => some .wifiStaSsid
  | 23 => some .wifiStaPasswd
  | 24 => some .wifiStaDhcpc
  | 25 => some .apIpv4
  | 26 => some .apIpv4netmask
  | 27 => some .apIpv4gw
  | 28 => some .apIpv4ns1
  | 29 => some .apIpv4ns2
  | 30 => some .apIpv6
  | 31 => some .apIpv6netmask
  | 32 => some .apIpv6gw
  | 33 => some .apIpv6ns1
  | 34 => some .apIpv6ns2
  | 35 => some .staIpv4
  | 36 => some .staIpv4netmask
  | 37 => some .staIpv4gw
  | 38 => some .staIpv4ns1
  | 39 => some .staIpv4ns2
  | 40 => some .staNtpv4
  | 41 => some .staIpv6
  | 42 => some .staIpv6netmask
  | 43 => some .staIpv6gw
  | 44 => some .staIpv6ns1
  | 45 => some .staIpv6ns2
  | 46 => some .staNtpv6
  | 47 => some .mode
  | 165 => some .header
  | 240 => some .configLength
  | 241 => some .pairLength
  | 242 => some .pairs
  | 250 => some .eof
  | _ => none

@[simp] theorem ofByte_toByte (t : CfTag) : ofByte t.toByte = some t := by
  cases t <;> rfl

theorem toByte_of_ofByte {b : UInt8} {t : CfTag} (known : ofByte b = some t) : b = t.toByte := by
  unfold ofByte at known
  split at known
  all_goals first | cases known; apply UInt8.toNat_inj.mp; assumption | cases known

end CfTag

/-- chatPacketPacketTypes -/
inductive PacketType where
  | command | publickey | nonce | data
  deriving DecidableEq

/-- chatFabricErrors -/
inductive FabricError where
  | ok | socket | chatPacketDecoding | invaildDest
  deriving DecidableEq

/-- chatPacketActions, which the packet keeps as plain words. -/
def actionNull : UInt32 := 0
def actionGet : UInt32 := 1
def actionSet : UInt32 := 2
def actionRead : UInt32 := 5

/-- chatPacketActionsType -/
def actionTypeData : UInt32 := 4

structure UuidTuple where
  u0 : Block 16
  u1 : Block 16
  deriving DecidableEq, Inhabited

/-- cfControl. A NULL pointer is none; labels and data are the bytes they point to. -/
structure CfControl where
  control : UInt32
  type : UInt32
  value : Int32
  rangeLow : Int32
  rangeHigh : Int32
  labelLength : UInt32
  label : Option Bytes
  data : Option Bytes
  deriving DecidableEq

structure ChatPacket where
  cmd : Command
  flags : UInt32
  payloadLength : UInt32
  serial : UInt32
  wasEncrypted : UInt32
  controlers : Option (List CfControl)
  numOfControllers : Int32
  nonce : Block 8
  envelopeLength : UInt32
  envelopeRandomPaddingLength : UInt8
  envelopeRandomPadding : Block 16
  toUuid : UuidTuple
  fromUuid : UuidTuple
  publickey : Block 32
  payloadRandomPaddingLength : UInt8
  payloadRandomPadding : Block 16
  payload : Option Bytes
  action : UInt32
  actionControl : UInt32
  actionType : UInt32
  actionValue : Int32
  actionLength : UInt32
  actionData : Option Bytes
  deriving DecidableEq

structure ChatFabricPairing where
  hasPublicKey : UInt32
  hasNonce : UInt32
  serial : UInt32
  state : PairState
  uuid : UuidTuple
  publickey : Block 32
  sharedkey : Block 32
  nullnonce : Block 8
  nonce : Block 8
  mynonce : Block 8
  deriving DecidableEq, Inhabited

/-- chatFabricConfig, without the command line's own fields. The controls are the
    first numOfControllers entries of the table. -/
structure ChatFabricConfig where
  controlers : List CfControl
  hasPairs : Int32
  uuid : UuidTuple
  debug : Int32
  mode : Int32
  hostname : Block 33
  staIpv4 : UInt32
  staIpv4netmask : UInt32
  staIpv4gw : UInt32
  staIpv4ns1 : UInt32
  staIpv4ns2 : UInt32
  ntpv4 : UInt32
  staIpv6 : Block 16
  staIpv6netmask : Block 16
  staIpv6gw : Block 16
  staIpv6ns1 : Block 16
  staIpv6ns2 : Block 16
  ntpv6 : Block 16
  apIpv4 : UInt32
  apIpv4netmask : UInt32
  apIpv4gw : UInt32
  apIpv4ns1 : UInt32
  apIpv4ns2 : UInt32
  apIpv6 : Block 16
  apIpv6netmask : Block 16
  apIpv6gw : Block 16
  apIpv6ns1 : Block 16
  apIpv6ns2 : Block 16
  wifiApSwitch : Int32
  wifiApSsid : Block 33
  wifiApPasswd : Block 65
  wifiApDhcpsSwitch : Int32
  dhcpsRangeLow : UInt32
  dhcpsRangeHigh : UInt32
  wifiStaSwitch : Int32
  wifiStaSsid : Block 33
  wifiStaPasswd : Block 65
  dhcpClientSwitch : Int32
  publickey : Block 32
  privatekey : Block 32
  deriving DecidableEq, Inhabited

end ChatFabric
