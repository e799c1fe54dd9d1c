import ChatFabric.ByteStrings

/- Poly1305 as crypto/poly1305-donna.c computes it, over the arithmetic of a header: poly1305-donna-32.h
   for the ESP8266, whose unsigned long has 32 bits, and poly1305-donna-64.h for the hosts. -/
namespace Poly1305
open ByteStrings

def blockSize : Nat := 16

def u8to (w n : Nat) (p : Bytes) : BitVec w :=
  (List.range n).foldl (fun v i ↦ v ||| ((p.getD i 0).toBitVec.setWidth w <<< (8 * i))) 0

def u8to32 (p : Bytes) : BitVec 32 := u8to 32 4 p
def u8to64 (p : Bytes) : BitVec 64 := u8to 64 8 p

def toU8 {w : Nat} (n : Nat) (v : BitVec w) : Bytes :=
  (List.range n).map fun i ↦ UInt8.ofBitVec ((v >>> (8 * i)).setWidth 8)

def u32to8 (v : BitVec 32) : Bytes := toU8 4 v
def u64to8 (v : BitVec 64) : Bytes := toU8 8 v

/-- What a header defines: the numbers of a state and the work on them. -/
class Arithmetic (Numbers : Type) where
  init : Block 32 → Numbers
  /-- One turn of the loop of poly1305_blocks. -/
  block (final : Bool) (numbers : Numbers) (m : Bytes) : Numbers
  /-- The part of poly1305_finish behind the last block. -/
  mac : Numbers → Bytes
  clear : Numbers → Numbers

/-- poly1305_state_internal_t -/
structure State (Numbers : Type) where
  numbers : Numbers
  leftover : Nat
  buffer : Block 16
  final : Bool

section
variable {Numbers : Type} [Arithmetic Numbers]

/-- The buffer is memory that poly1305_init leaves alone. -/
def poly1305Init (memory : Block 16) (key : Block 32) : State Numbers :=
  ⟨Arithmetic.init key, 0, memory, false⟩

/-- The turns of the loop of poly1305_blocks, of which each takes a block. -/
def blocksLoop (final : Bool) : Nat → Numbers → Bytes → Numbers
  | 0, numbers, _ => numbers
  | turns + 1, numbers, m =>
    blocksLoop final turns (Arithmetic.block final numbers (m.take blockSize)) (m.drop blockSize)

def poly1305Blocks (st : State Numbers) (m : Bytes) : State Numbers :=
  { st with numbers := blocksLoop st.final (m.length / blockSize) st.numbers m }

def updateBlocks (st : State Numbers) (m : Bytes) : State Numbers :=
  let want := if blockSize ≤ m.length then m.length / blockSize * blockSize else 0
  let st := if blockSize ≤ m.length then poly1305Blocks st (m.take want) else st
  let m := m.drop want
  if m = [] then st
  else { st with buffer := st.buffer.patch st.leftover m, leftover := st.leftover + m.length }

def poly1305Update (st : State Numbers) (m : Bytes) : State Numbers :=
  if st.leftover = 0 then updateBlocks st m
  else
    let want := min (blockSize - st.leftover) m.length
    let st := { st with
      buffer := st.buffer.patch st.leftover (m.take want)
      leftover := st.leftover + want }
    if st.leftover < blockSize then st
    else updateBlocks { poly1305Blocks st st.buffer.val with leftover := 0 } (m.drop want)

def poly1305Finish (st : State Numbers) : Bytes × State Numbers :=
  let st :=
    if st.leftover = 0 then st
    else
      let rest := 1 :: List.replicate (blockSize - (st.leftover + 1)) 0
      let st := { st with buffer := st.buffer.patch st.leftover rest, final := true }
      poly1305Blocks st st.buffer.val
  (Arithmetic.mac st.numbers, { st with numbers := Arithmetic.clear st.numbers })

variable (Numbers) in
def poly1305Auth (memory : Block 16) (m : Bytes) (key : Block 32) : Bytes :=
  (poly1305Finish (poly1305Update (poly1305Init memory key : State Numbers) m)).1

end

end Poly1305
