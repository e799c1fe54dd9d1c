import ChatFabric.TagEncoder

/- chatPacket_decode. The cursor and the lengths are 32-bit words, kept as numbers and
   reduced where the code's additions wrap. What a tag does at the cursor is looked up
   first, so that one loop body serves all of them; the encrypted sections call the
   decoder again on what they decrypt. -/
namespace ChatFabric
open ByteStrings WhileLoop

/-- What a call depends on besides its arguments cp, b and len. `alloc n` tells whether the
    n-th allocation succeeds, and `junk n` what malloc leaves in a table it hands out. -/
structure DecodeEnv where
  crypto : Crypto
  pair : ChatFabricPairing
  alloc : Nat → Bool
  junk : Nat → Nat → CfControl

structure Decoding where
  i : Nat
  h : Nat
  l : Nat
  hp : Nat
  lp : Nat
  curControler : UInt32
  dangling : Bool     -- the pointer `decrypted` was freed and still holds its address
  cp : ChatPacket
  allocs : Nat

inductive DecodeEnd where
  | returned (ret : Int) (cp : ChatPacket) (allocs : Nat)
  | fault (f : Fault)
  | endless           -- not finished within the fuel
  deriving DecidableEq

def advance (i k : Nat) : Nat := (i + k) % 2 ^ 32

/-- crypto_secretbox_MACBYTES is unsigned, so the difference wraps below sixteen. -/
def lessMac (length : UInt32) : Nat := (length - 16).toNat

/-- A copy of `count` bytes out of b, starting at `start`. Copying nothing reads nothing. -/
def readAt (b : Bytes) (start count : Nat) : Except Fault Bytes :=
  if count = 0 ∨ start + count ≤ b.length then .ok (slice b start count) else .error .inputRead

def memcpyTo (overflow : Fault) (dest : Option Bytes) (v : Bytes) : Except Fault (Option Bytes) :=
  if v = [] then .ok dest
  else match dest with
    | none => .error .nullPointer
    | some d => if v.length ≤ d.length then .ok (some (v ++ d.drop v.length)) else .error overflow

namespace DecodeEnv

def calloc (env : DecodeEnv) (n size : Nat) : Option Bytes :=
  if env.alloc n then some (List.replicate size 0) else none

def mallocControls (env : DecodeEnv) (n : Nat) (count : Int32) : Option (List CfControl) :=
  if 0 ≤ count ∧ env.alloc n then some ((List.range count.toInt.toNat).map (env.junk n)) else none

end DecodeEnv

namespace Decoding

def start (cp : ChatPacket) (allocs : Nat) : Decoding := ⟨0, 0, 0, 0, 0, 0, false, cp, allocs⟩

def setControl (f : CfControl → CfControl) (s : Decoding) : Except Fault Decoding :=
  match s.cp.controlers with
  | none => .error .nullPointer
  | some table =>
    if s.curControler.toNat < table.length then
      .ok { s with cp.controlers := some (table.modify s.curControler.toNat f) }
    else .error .controlAccess

def control (s : Decoding) : Except Fault CfControl :=
  match s.cp.controlers with
  | none => .error .nullPointer
  | some table =>
    match table[s.curControler.toNat]? with
    | some c => .ok c
    | none => .error .controlAccess

end Decoding

/-- What the switch does at a tag: a copy of `width` bytes after which the cursor moves by
    `move`, one of the encrypted sections, a return of -1, or a fault before any copy. -/
inductive TagCase where
  | copy (width move : Nat) (store : Bytes → Decoding → Except Fault Decoding)
  | encryptedEnvelope
  | encryptedPayload
  | reject
  | fault (f : Fault)

namespace TagCase

def field (width : Nat) (store : Bytes → ChatPacket → ChatPacket) : TagCase :=
  .copy width width fun v s => .ok { s with cp := store v s.cp }

def controlField (store : UInt32 → CfControl → CfControl) : TagCase :=
  .copy 4 4 fun v => Decoding.setControl (store (ofBe32 v))

def padding (size : Nat) (store : Bytes → Decoding → Except Fault Decoding) : TagCase :=
  if size = 0 then .reject else .copy size size store

/-- A copy of the control's own bytes: the entry is read for their number first. -/
def ofControl (s : Decoding) (copy : CfControl → TagCase) : TagCase :=
  match s.control with
  | .ok c => copy c
  | .error f => .fault f

end TagCase

def paddingAt (b : Block 16) (start : Nat) (v : Bytes) : Except Fault (Block 16) :=
  if start + v.length ≤ 16 then .ok (b.patch start v) else .error .paddingWrite

def tagCase (env : DecodeEnv) (s : Decoding) : Tag → TagCase
  | .cmd => .field 4 fun v cp => { cp with cmd := .ofCode (ofBe32 v) }
  | .serial => .field 4 fun v cp => { cp with serial := ofBe32 v }
  | .nonce => .field 8 fun v cp => { cp with nonce := .ofBytes 8 v }
  | .envelopeLength => .field 4 fun v cp => { cp with envelopeLength := ofBe32 v }
  | .encryptedEnvelope => .encryptedEnvelope
  | .envelopeRandomPaddingLength => .copy 1 1 fun v s =>
      let b := v.headD 0
      .ok { s with
        cp.envelopeRandomPaddingLength := b
        h := b.toNat / 16
        l := b.toNat % 16 }
  | .envelopeRandomPaddingHigh => .padding s.h fun v s => do
      let p ← paddingAt s.cp.envelopeRandomPadding 0 v
      .ok { s with cp.envelopeRandomPadding := p }
  | .envelopeRandomPaddingLow => .padding s.l fun v s => do
      let p ← paddingAt s.cp.envelopeRandomPadding s.h v
      .ok { s with cp.envelopeRandomPadding := p }
  | .to0 => .field 16 fun v cp => { cp with toUuid.u0 := .ofBytes 16 v }
  | .to1 => .field 16 fun v cp => { cp with toUuid.u1 := .ofBytes 16 v }
  | .from0 => .field 16 fun v cp => { cp with fromUuid.u0 := .ofBytes 16 v }
  | .from1 => .field 16 fun v cp => { cp with fromUuid.u1 := .ofBytes 16 v }
  | .flags => .field 4 fun v cp => { cp with flags := ofBe32 v }
  | .payloadLength => .copy 4 4 fun v s =>
      let length := ofBe32 v
      if s.cp.payloadLength < length then
        .ok { s with
          cp.payload := env.calloc s.allocs length.toNat
          cp.payloadLength := length
          allocs := s.allocs + 1 }
      else .ok { s with cp.payloadLength := length }
  | .payloadRandomPaddingLength => .copy 1 1 fun v s =>
      let b := v.headD 0
      .ok { s with
        cp.payloadRandomPaddingLength := b
        hp := b.toNat / 16
        lp := b.toNat % 16 }
  | .payloadRandomPaddingHigh => .padding s.hp fun v s => do
      let p ← paddingAt s.cp.payloadRandomPadding 0 v
      .ok { s with cp.payloadRandomPadding := p }
  -- this one writes into the padding of the envelope
  | .payloadRandomPaddingLow => .padding s.lp fun v s => do
      let p ← paddingAt s.cp.envelopeRandomPadding s.hp v
      .ok { s with cp.envelopeRandomPadding := p }
  | .encryptedPayload => .encryptedPayload
  | .payload => .copy s.cp.payloadLength.toNat s.cp.payloadLength.toNat fun v s => do
      let p ← memcpyTo .payloadWrite s.cp.payload v
      .ok { s with cp.payload := p }
  | .publickey => .field 32 fun v cp => { cp with publickey := .ofBytes 32 v }
  | .envelope => .field 0 fun _ cp => cp
  | .action => .field 4 fun v cp => { cp with action := ofBe32 v }
  | .actionControl => .field 4 fun v cp => { cp with actionControl := ofBe32 v }
  | .actionType => .field 4 fun v cp => { cp with actionType := ofBe32 v }
  | .actionValue => .field 4 fun v cp => { cp with actionValue := (ofBe32 v).toInt32 }
  | .actionLength => .copy 4 4 fun v s =>
      let length := ofBe32 v
      if 0 < length then
        .ok { s with
          cp.actionLength := length
          cp.actionData := env.calloc s.allocs length.toNat
          allocs := s.allocs + 1 }
      else .ok { s with cp.actionLength := length }
  -- the cursor moves by the length of another field
  | .actionData => .copy s.cp.actionLength.toNat s.cp.payloadLength.toNat fun v s => do
      let d ← memcpyTo .actionDataWrite s.cp.actionData v
      .ok { s with cp.actionData := d }
  | .appControls => .copy 4 4 fun v s =>
      let count := (ofBe32 v).toInt32
      .ok { s with
        curControler := 0 - 1
        cp.numOfControllers := count
        cp.controlers := env.mallocControls s.allocs count
        allocs := s.allocs + 1 }
  | .appControlI => .copy 4 4 fun v s =>
      { s with curControler := s.curControler + 1 }.setControl fun c => { c with control := ofBe32 v }
  | .appControlType => .controlField fun v c => { c with type := v }
  | .appControlValue => .controlField fun v c => { c with value := v.toInt32 }
  | .appControlRangeLow => .controlField fun v c => { c with rangeLow := v.toInt32 }
  | .appControlRangeHigh => .controlField fun v c => { c with rangeHigh := v.toInt32 }
  | .appControlLabelLength => .controlField fun v c => { c with labelLength := v }
  | .appControlLabel => .ofControl s fun c =>
      let size := (c.labelLength + 1).toNat
      if size ≠ 0 ∧ !env.alloc s.allocs then .fault .nullPointer
      else .copy c.labelLength.toNat c.labelLength.toNat fun v s =>
        if v.length < size then
          { s with allocs := s.allocs + 1 }.setControl fun c => { c with label := some (v ++ [0]) }
        else .error .labelWrite
  -- the bytes go to a word of the stack, not to the data; a negative value is a huge size_t
  | .appControlData => .ofControl s fun c =>
      let size := (c.value.toInt % 2 ^ 64).toNat
      .copy size size fun v s =>
        if v.length ≤ 4 then
          { s with allocs := s.allocs + 1 }.setControl fun c =>
            { c with data := if 0 ≤ c.value then env.calloc s.allocs size else none }
        else .error .localWrite
  | .noop | .nonceLength | .publickeyId | .configLength | .config | .mac | .endtag => .reject

/-- A byte that is not a tag of the packet is rejected like the tags without a case. -/
def byteCase (env : DecodeEnv) (s : Decoding) (c : UInt8) : TagCase :=
  match Tag.ofByte c with
  | some t => tagCase env s t
  | none => .reject

/-- The MAC over what lies at the cursor, compared with the bytes behind it. The n-th
    allocation holds the MAC, which is computed after its message is read. -/
def verifySection (env : DecodeEnv) (b : Bytes) (i : Nat) (length : UInt32) (n : Nat) :
    Except Fault Bool := do
  let message ← readAt b i (lessMac length)
  if env.alloc n then
    let mac ← readAt b (i + length.toNat - macBytes) macBytes
    .ok (poly1305Verify (env.crypto.poly1305Auth message env.pair.sharedkey) mac)
  else .error .nullPointer

/-- memcpy into the buffer of the n-th allocation, and s20_crypt there. -/
def decryptSection (env : DecodeEnv) (b : Bytes) (i : Nat) (length : UInt32) (n : Nat)
    (nonce : Block 8) : Except Fault Bytes := do
  let cipher ← readAt b i (lessMac length)
  if env.alloc n ∨ cipher = [] then .ok (s20Crypt env.pair.sharedkey nonce cipher)
  else .error .nullPointer

/-- chatPacket_decode on a decrypted section: cp, the allocations so far, b and len. -/
abbrev DecodeCall := ChatPacket → Nat → Bytes → Nat → DecodeEnd

inductive Opened where
  | refused (s : Decoding)
  | section (s : Decoding) (decrypted : Bytes)

/-- The calls of calloc here are for decrypted and mac. -/
def openEnvelope (env : DecodeEnv) (b : Bytes) (s : Decoding) : Except Fault Opened := do
  let n := s.allocs
  let s := { s with cp.wasEncrypted := s.cp.wasEncrypted ||| 0x02, allocs := n + 2 }
  let verified ← verifySection env b s.i s.cp.envelopeLength (n + 1)
  if verified then
    let decrypted ← decryptSection env b s.i s.cp.envelopeLength n env.pair.nullnonce
    .ok (.section { s with i := advance s.i s.cp.envelopeLength.toNat, dangling := false } decrypted)
  else .ok (.refused s)

/-- The calls of calloc here are for sessionNonce, mac and, once verified, decrypted. -/
def openPayload (env : DecodeEnv) (b : Bytes) (s : Decoding) : Except Fault Opened := do
  let n := s.allocs
  let s := { s with cp.wasEncrypted := s.cp.wasEncrypted ||| 0x01, allocs := n + 2 }
  if env.alloc n then
    let nonce := chatPacketCalcNonce s.cp.serial env.pair.mynonce
    let verified ← verifySection env b s.i s.cp.payloadLength (n + 1)
    if verified then
      let decrypted ← decryptSection env b s.i s.cp.payloadLength (n + 2) nonce
      .ok (.section { s with
        i := advance s.i s.cp.payloadLength.toNat
        dangling := env.alloc (n + 2)
        allocs := n + 3 } decrypted)
    -- free(decrypted) on the way out
    else if s.dangling then .error .doubleFree
    else .ok (.refused s)
  else .error .nullPointer

/-- An envelope that decodes without error ends the whole call with 0; one that does not
    leaves the loop going. -/
def afterEnvelope (s : Decoding) : DecodeEnd → Except DecodeEnd Decoding
  | .returned ret cp allocs =>
    if ret = 0 then .error (.returned 0 cp allocs) else .ok { s with cp := cp, allocs := allocs }
  | stop => .error stop

def afterPayload (s : Decoding) : DecodeEnd → Except DecodeEnd Decoding
  | .returned ret cp allocs =>
    if ret = 0 then .ok { s with cp := cp, allocs := allocs } else .error (.returned (-1) cp allocs)
  | stop => .error stop

def enterSection (again : DecodeCall) (after : Decoding → DecodeEnd → Except DecodeEnd Decoding) :
    Except Fault Opened → Except DecodeEnd Decoding
  | .ok (.section s decrypted) => after s (again s.cp s.allocs decrypted decrypted.length)
  | .ok (.refused s) => .error (.returned (-1) s.cp s.allocs)
  | .error f => .error (.fault f)

def decodeCopy (b : Bytes) (s : Decoding) (width move : Nat)
    (store : Bytes → Decoding → Except Fault Decoding) : Except Fault Decoding := do
  let v ← readAt b s.i width
  let t ← store v s
  .ok { t with i := advance s.i move }

def decodeGuard (len : Nat) (s : Decoding) : Bool := s.i < len

def decodeCase (env : DecodeEnv) (again : DecodeCall) (b : Bytes) (s : Decoding) :
    TagCase → Except DecodeEnd Decoding
  | .copy width move store => (decodeCopy b s width move store).mapError DecodeEnd.fault
  | .encryptedEnvelope => enterSection again afterEnvelope (openEnvelope env b s)
  | .encryptedPayload => enterSection again afterPayload (openPayload env b s)
  | .reject => .error (.returned (-1) s.cp s.allocs)
  | .fault f => .error (.fault f)

def decodeBody (env : DecodeEnv) (again : DecodeCall) (b : Bytes) (s : Decoding) :
    Except DecodeEnd Decoding :=
  match b[s.i]? with
  | none => .error (.fault .inputRead)
  | some c =>
    let s := { s with i := advance s.i 1 }
    decodeCase env again b s (byteCase env s c)

def decodeEnd : Option (Except DecodeEnd Decoding) → DecodeEnd
  | none => .endless
  | some (.ok s) => .returned 0 s.cp s.allocs
  | some (.error e) => e

/-- One fuel for the loop and for the depth of the nested calls. -/
def chatPacketDecode (env : DecodeEnv) : Nat → DecodeCall
  | 0, _, _, _, _ => .endless
  | fuel + 1, cp, allocs, b, len =>
    decodeEnd (iterate (decodeGuard len) (decodeBody env (chatPacketDecode env fuel) b) fuel
      (.start cp allocs))

end ChatFabric
