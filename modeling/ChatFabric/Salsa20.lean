import ChatFabric.ByteStrings

/- Salsa20 with a 256-bit key, word for word as crypto/salsa20.c has it, for a
   message encrypted from its first byte on (si = 0). -/
namespace Salsa20
open ByteStrings

abbrev Words := Vector UInt32 16

def rotl (value : UInt32) (shift : UInt32) : UInt32 :=
  (value <<< shift) ||| (value >>> (32 - shift))

def quarterround (y : Words) (a b c d : Fin 16) : Words :=
  let y := y.set b (y[b] ^^^ rotl (y[a] + y[d]) 7)
  let y := y.set c (y[c] ^^^ rotl (y[b] + y[a]) 9)
  let y := y.set d (y[d] ^^^ rotl (y[c] + y[b]) 13)
  y.set a (y[a] ^^^ rotl (y[d] + y[c]) 18)

def rowround (y : Words) : Words :=
  let y := quarterround y 0 1 2 3
  let y := quarterround y 5 6 7 4
  let y := quarterround y 10 11 8 9
  quarterround y 15 12 13 14

def columnround (x : Words) : Words :=
  let x := quarterround x 0 4 8 12
  let x := quarterround x 5 9 13 1
  let x := quarterround x 10 14 2 6
  quarterround x 15 3 7 11

def doubleround (x : Words) : Words := rowround (columnround x)

def littleendian (b : Bytes) : UInt32 :=
  (b.getD 0 0).toUInt32 + ((b.getD 1 0).toUInt32 <<< 8) + ((b.getD 2 0).toUInt32 <<< 16) +
    ((b.getD 3 0).toUInt32 <<< 24)

def revLittleendian (w : UInt32) : Bytes :=
  [w.toUInt8, (w >>> 8).toUInt8, (w >>> 16).toUInt8, (w >>> 24).toUInt8]

def hash (seq : Bytes) : Bytes :=
  let x : Words := Vector.ofFn fun i => littleendian (slice seq (4 * i.val) 4)
  let z := (List.range 10).foldl (fun z _ => doubleround z) x
  (List.finRange 16).flatMap fun i => revLittleendian (z[i] + x[i])

/-- The string "expand 32-byte k", four bytes of it between the parts of the key block. -/
def sigma (i : Nat) : Bytes :=
  slice [101, 120, 112, 97, 110, 100, 32, 51, 50, 45, 98, 121, 116, 101, 32, 107] (4 * i) 4

def expand32 (k : Block 32) (n : Bytes) : Bytes :=
  hash (sigma 0 ++ k.val.take 16 ++ sigma 1 ++ n ++ sigma 2 ++ k.val.drop 16 ++ sigma 3)

def keystream (key : Block 32) (nonce : Block 8) (i : Nat) : UInt8 :=
  let n := nonce.val ++ revLittleendian (UInt32.ofNat (i / 64)) ++ List.replicate 4 0
  (expand32 key n).getD (i % 64) 0

def crypt (key : Block 32) (nonce : Block 8) (buf : Bytes) : Bytes :=
  buf.mapIdx fun i x => x ^^^ keystream key nonce i

@[simp] theorem length_crypt (key : Block 32) (nonce : Block 8) (buf : Bytes) :
    (crypt key nonce buf).length = buf.length := by
  simp [crypt]

@[simp] theorem crypt_crypt (key : Block 32) (nonce : Block 8) (buf : Bytes) :
    crypt key nonce (crypt key nonce buf) = buf := by
  apply List.ext_getElem
  · simp
  · intro i h₁ h₂
    simp only [crypt, List.getElem_mapIdx]
    rw [UInt8.xor_assoc, UInt8.xor_self, UInt8.xor_zero]

end Salsa20
