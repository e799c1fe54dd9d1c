import ChatFabric.ByteOrder
import ChatFabric.TagEncoder

/- Numbers on the wire in the host build and in the ESP8266 build, which names its own ntohl and
   htonl. Both machines store the lowest byte of a word first. -/
namespace TwoBuilds
open ByteStrings ByteOrder ChatFabric

inductive Build where
  | host | esp8266
  deriving DecidableEq

def be32dec : Bytes → UInt32
  | [p0, p1, p2, p3] => joined p0 p1 p2 p3
  | _ => 0

def le32dec : Bytes → UInt32
  | [p0, p1, p2, p3] => joined p3 p2 p1 p0
  | _ => 0

/-- Of the host, those of the C library: the word whose bytes are the number in network order. -/
def ntohl : Build → UInt32 → UInt32
  | .host, x => ofBe32 (stored x)
  | .esp8266, x => be32dec (stored x)

def htonl : Build → UInt32 → UInt32
  | .host, x => loaded (be32 x)
  | .esp8266, x => le32dec (stored x)

/-- What stands under #ifdef ESP8266 where a number is written. -/
def toNetwork : Build → UInt32 → UInt32
  | .host => htonl .host
  | .esp8266 => ntohl .esp8266

/-- memcpy of four bytes into a word, and of a word into an array -/
def readWord {n : Nat} (arr : Block n) (start : Nat) : UInt32 := loaded (slice arr.val start 4)
def writeWord {n : Nat} (arr : Block n) (start : Nat) (w : UInt32) : Block n := arr.patch start (stored w)

def chatPacketCalcNonce (build : Build) (serial : UInt32) (nonce : Block 8) : Block 8 :=
  let last4Bytes : Nat := 8 - 4
  let sessionNonce := (Block.zero 8).patch 0 nonce.val
  let ninc := ntohl build (readWord sessionNonce 0)
  let ninc2 := ntohl build (readWord sessionNonce last4Bytes) + serial
  let sessionNonce := writeWord sessionNonce 0 (toNetwork build ninc)
  writeWord sessionNonce last4Bytes (toNetwork build ninc2)

def fieldBytes (build : Build) : TagData → Except Fault Bytes
  | .int32 value => .ok (stored (toNetwork build value))
  | data => data.bytes

def cfTagEncoder (build : Build) (b : OutBuf) (tag : UInt8) (data : TagData) : Except Fault OutBuf := do
  let bytes ← fieldBytes build data
  if b.out.length + 1 + bytes.length ≤ b.room then
    .ok { b with out := b.out ++ tag :: bytes }
  else .error .bufferWrite

def decoded (build : Build) (bytes : Bytes) : UInt32 := ntohl build (loaded bytes)

theorem be32dec_eq {bytes : Bytes} (size : bytes.length = 4) : be32dec bytes = ofBe32 bytes := by
  match bytes, size with
  | [p0, p1, p2, p3], _ => exact joined_eq p0 p1 p2 p3

theorem le32dec_eq {bytes : Bytes} (size : bytes.length = 4) : le32dec bytes = loaded bytes := by
  match bytes, size with
  | [p0, p1, p2, p3], _ => exact joined_eq p3 p2 p1 p0

@[simp] theorem ntohl_eq (build : Build) (x : UInt32) : ntohl build x = ofBe32 (stored x) := by
  cases build with
  | host => rfl
  | esp8266 => exact be32dec_eq (length_stored x)

/-- The ESP8266's htonl does nothing, and so is not what numbers are written with. -/
theorem htonl_esp8266 (x : UInt32) : htonl .esp8266 x = x := by
  rw [htonl, le32dec_eq (length_stored x), loaded_stored]

@[simp] theorem stored_toNetwork (build : Build) (x : UInt32) : stored (toNetwork build x) = be32 x := by
  cases build with
  | host => exact stored_loaded rfl
  | esp8266 => rw [toNetwork, ntohl_eq, stored, be32_ofBe32 (length_stored x), stored, List.reverse_reverse]

theorem decoded_eq (build : Build) {bytes : Bytes} (size : bytes.length = 4) :
    decoded build bytes = ofBe32 bytes := by
  rw [decoded, ntohl_eq, stored_loaded size]

theorem fieldBytes_eq (build : Build) (data : TagData) : fieldBytes build data = data.bytes := by
  cases data with
  | int32 value => simp [fieldBytes, TagData.bytes]
  | data8 | uuid => rfl

theorem cfTagEncoder_eq (build : Build) : cfTagEncoder build = ChatFabric.cfTagEncoder := by
  funext b tag data
  simp only [cfTagEncoder, ChatFabric.cfTagEncoder, fieldBytes_eq]

theorem readWord_eq {n : Nat} (build : Build) (arr : Block n) (start : Nat) (inside : start + 4 ≤ n) :
    ntohl build (readWord arr start) = ofBe32 (slice arr.val start 4) := by
  have size : (slice arr.val start 4).length = 4 := length_slice (by rwa [Block.length_val])
  rw [ntohl_eq, readWord, stored_loaded size]

theorem calcNonce_eq (build : Build) (serial : UInt32) (nonce : Block 8) :
    chatPacketCalcNonce build serial nonce = ChatFabric.chatPacketCalcNonce serial nonce := by
  have copied : (Block.zero 8).patch 0 nonce.val = nonce := Block.patch_whole _ nonce.length_val
  have back : slice nonce.val 4 4 = nonce.val.drop 4 :=
    List.take_of_length_le (by simp)
  have both (first second : Bytes) (one : first.length = 4) (two : second.length = 4) :
      (nonce.patch 0 first).patch 4 second = ⟨first ++ second, by simp [one, two]⟩ := by
    have joint := nonce.patch_patch 0 first second (by simp [one, two])
    rw [one] at joint
    exact joint.trans (nonce.patch_whole _)
  simp only [chatPacketCalcNonce, Nat.reduceSub, copied, writeWord, stored_toNetwork,
    readWord_eq build nonce 0 (by decide), readWord_eq build nonce 4 (by decide),
    back, both _ _ (length_be32 _) (length_be32 _)]
  rfl

/-- Either build steps the last four bytes of the nonce by the serial and sends numbers in network
    order, and reads what either has sent. -/
theorem builds_agree :
    (∀ build serial nonce, (chatPacketCalcNonce build serial nonce).val.take 4 = nonce.val.take 4 ∧
      (ofBe32 ((chatPacketCalcNonce build serial nonce).val.drop 4)).toNat =
        ((ofBe32 (nonce.val.drop 4)).toNat + serial.toNat) % 2 ^ 32) ∧
    (∀ build nonce, Function.Injective fun serial => chatPacketCalcNonce build serial nonce) ∧
    (∀ build b tag value, cfTagEncoder build b tag (.int32 value) =
      if b.out.length + 5 ≤ b.room then .ok { b with out := b.out ++ tag :: be32 value }
      else .error .bufferWrite) ∧
    ∀ encoder decoder value,
      (fieldBytes encoder (.int32 value)).map (decoded decoder) = .ok value := by
  refine ⟨fun build serial nonce => ?_, fun build nonce s t same => ?_, fun build b tag value => ?_,
    fun encoder decoder value => ?_⟩
  · rw [calcNonce_eq]
    constructor
    · exact be32_ofBe32 (by simp)
    · rw [ChatFabric.chatPacketCalcNonce, List.drop_left' (length_be32 _), ofBe32_be32, UInt32.toNat_add]
  · simp only [calcNonce_eq] at same
    exact calcNonce_injective same
  · rw [cfTagEncoder_eq]
    rfl
  · rw [fieldBytes_eq, TagData.bytes, Except.map, decoded_eq decoder (length_be32 value), ofBe32_be32]

end TwoBuilds
