import ChatFabric.Structs
import ChatFabric.Salsa20
import ChatFabric.TagStream

/- The tag encoder and the cryptographic calls of the local build. The curve and
   the authenticator are parameters; the cipher is the one of the source. Memory
   is checked: an access outside its object ends the call with a fault, since C
   gives no meaning to what would follow. -/
namespace ChatFabric
open ByteStrings TagStream

inductive Fault where
  | inputRead        -- a read outside the received bytes
  | sourceRead       -- a copy from beyond the end of a caller's buffer
  | nullPointer
  | bufferWrite      -- an encoder write outside its buffer
  | payloadWrite
  | actionDataWrite
  | paddingWrite
  | labelWrite
  | controlAccess    -- an index outside the table of controls
  | localWrite       -- a copy larger than the local variable it goes to
  | doubleFree
  deriving DecidableEq

/-- curve25519_donna (private, public) and poly1305_auth (message, key). -/
structure Crypto where
  curve25519Donna : Block 32 → Block 32 → Block 32
  poly1305Auth : Bytes → Block 32 → Block 16
  deriving Inhabited

def poly1305Verify (mac : Block 16) (received : Bytes) : Bool := mac.val = received

def s20Crypt (key : Block 32) (nonce : Block 8) (buf : Bytes) : Bytes := Salsa20.crypt key nonce buf

/-- crypto_secretbox_MACBYTES and crypto_box_SEALBYTES -/
def macBytes : Nat := 16

def chatPacketCalcNonce (serial : UInt32) (nonce : Block 8) : Block 8 :=
  let ninc := ofBe32 (nonce.val.take 4)
  let ninc2 := ofBe32 (nonce.val.drop 4)
  ⟨be32 ninc ++ be32 (ninc2 + serial), rfl⟩

theorem calcNonce_injective {nonce : Block 8} {s t : UInt32}
    (same : chatPacketCalcNonce s nonce = chatPacketCalcNonce t nonce) : s = t := by
  have bytes := congrArg Subtype.val same
  simp only [chatPacketCalcNonce] at bytes
  exact (UInt32.add_right_inj _).mp (be32_injective (List.append_cancel_left bytes))

/-- What a field carries after its tag: the arguments value, s with len, and uuid. -/
inductive TagData where
  | int32 (value : UInt32)
  | data8 (s : Option Bytes) (len : UInt32)
  | uuid (bytes : Block 16)

def TagData.bytes : TagData → Except Fault Bytes
  | .int32 value => .ok (be32 value)
  | .data8 (some s) len => if len.toNat ≤ s.length then .ok (s.take len.toNat) else .error .sourceRead
  | .data8 none len => if len = 0 then .ok [] else .error .nullPointer
  | .uuid bytes => .ok bytes.val

/-- A zeroed buffer of `room` bytes, of which the first have been written. -/
structure OutBuf where
  room : Nat
  out : Bytes
  deriving DecidableEq

def OutBuf.calloc (room : Nat) : OutBuf := ⟨room, []⟩

def OutBuf.msg (b : OutBuf) : Bytes := b.out ++ List.replicate (b.room - b.out.length) 0

def cfTagEncoder (b : OutBuf) (tag : UInt8) (data : TagData) : Except Fault OutBuf := do
  let bytes ← data.bytes
  if b.out.length + 1 + bytes.length ≤ b.room then
    .ok { b with out := b.out ++ tag :: bytes }
  else .error .bufferWrite

def encodeFields (b : OutBuf) : List (UInt8 × TagData) → Except Fault OutBuf
  | [] => .ok b
  | (tag, data) :: rest => do
    let b ← cfTagEncoder b tag data
    encodeFields b rest

inductive Encodes : List (UInt8 × TagData) → Bytes → Prop where
  | nil : Encodes [] []
  | cons {tag : UInt8} {data : TagData} {bytes : Bytes} {rest : List (UInt8 × TagData)} {tail : Bytes}
      (field : data.bytes = .ok bytes) (fields : Encodes rest tail) :
      Encodes ((tag, data) :: rest) (tag :: bytes ++ tail)

theorem encodeFields_ok {fields : List (UInt8 × TagData)} {bytes : Bytes}
    (enc : Encodes fields bytes) {b : OutBuf} (fits : b.out.length + bytes.length ≤ b.room) :
    encodeFields b fields = .ok { b with out := b.out ++ bytes } := by
  induction enc generalizing b with
  | nil => simp [encodeFields]
  | @cons tag data value rest tail field fields ih =>
    simp only [List.length_append, List.length_cons] at fits
    have room : b.out.length + 1 + value.length ≤ b.room := by omega
    have first : cfTagEncoder b tag data = .ok { b with out := b.out ++ tag :: value } := by
      simp only [cfTagEncoder, field, bind, Except.bind]
      exact if_pos room
    have later := ih (b := { b with out := b.out ++ tag :: value })
      (by simp only [List.length_append, List.length_cons]; omega)
    simp only [encodeFields, first, bind, Except.bind]
    simpa using later

def TagData.plain : TagData → Bytes
  | .int32 value => be32 value
  | .data8 s len => (s.getD []).take len.toNat
  | .uuid bytes => bytes.val

def plainFields (fields : List (UInt8 × TagData)) : List (UInt8 × Bytes) :=
  fields.map fun f => (f.1, f.2.plain)

theorem encodes_plain {fields : List (UInt8 × TagData)}
    (present : ∀ f ∈ fields, f.2.bytes = .ok f.2.plain) :
    Encodes fields (fieldBytes (plainFields fields)) := by
  induction fields with
  | nil => exact .nil
  | cons f fields ih =>
    have head := present f (by simp)
    have tail := ih fun g mem => present g (by simp [mem])
    simpa [fieldBytes, plainFields] using Encodes.cons head tail

theorem length_msg {b : OutBuf} (fits : b.out.length ≤ b.room) : b.msg.length = b.room := by
  simp only [OutBuf.msg, List.length_append, List.length_replicate]
  omega

theorem bytes_plain {data : TagData} {v : Bytes} (present : data.bytes = .ok v) : v = data.plain := by
  cases data with
  | int32 | uuid => exact (Except.ok.inj present).symm
  | data8 s len =>
    cases s with
    | none =>
      simp only [TagData.bytes] at present
      split at present <;> cases present
      simp [TagData.plain]
    | some s =>
      simp only [TagData.bytes] at present
      split at present <;> cases present
      rfl

theorem encodeFields_written {fields : List (UInt8 × TagData)} {b done : OutBuf}
    (inside : b.out.length ≤ b.room) (run : encodeFields b fields = .ok done) :
    done.room = b.room ∧ done.out = b.out ++ fieldBytes (plainFields fields) ∧
      done.out.length ≤ done.room := by
  induction fields generalizing b with
  | nil =>
    cases run
    exact ⟨rfl, by simp [plainFields, fieldBytes], inside⟩
  | cons f fields ih =>
    simp only [encodeFields, cfTagEncoder, bind, Except.bind] at run
    cases present : f.2.bytes with
    | error stop => simp [present] at run
    | ok v =>
      simp only [present] at run
      split at run
      · cases run
      · rename_i next field
        split at field
        · rename_i fits
          cases field
          obtain ⟨room, out, within⟩ := ih (by simpa [Nat.add_assoc, Nat.add_comm 1] using fits) run
          refine ⟨room, ?_, within⟩
          rw [out, bytes_plain present]
          simp [plainFields, fieldBytes]
        · cases field

end ChatFabric
