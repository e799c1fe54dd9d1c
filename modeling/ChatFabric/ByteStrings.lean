import Mathlib.Algebra.Group.Int.Defs
import Mathlib.Algebra.Group.Nat.Defs
import Mathlib.Data.List.Basic
import Mathlib.Tactic.SplitIfs

/- Byte strings, fixed-size byte blocks and 32-bit words in network order.
   A block carries its length, so a field of the wrong size cannot be built. -/
namespace ByteStrings

abbrev Bytes := List UInt8

def Block (n : Nat) := { bytes : Bytes // bytes.length = n }

namespace Block
variable {n : Nat}

instance : DecidableEq (Block n) := inferInstanceAs (DecidableEq { bytes : Bytes // bytes.length = n })

def zero (n : Nat) : Block n := ⟨List.replicate n 0, List.length_replicate⟩

instance : Inhabited (Block n) := ⟨zero n⟩

/-- The first n bytes of a string, padded with zeros when it is shorter. -/
def ofBytes (n : Nat) (bytes : Bytes) : Block n :=
  ⟨(bytes ++ List.replicate n 0).take n, by simp⟩

/-- Overwrites the bytes from position `start` on, as memcpy into an array does;
    what would lie beyond the array is cut off. -/
def patch (b : Block n) (start : Nat) (bytes : Bytes) : Block n :=
  ofBytes n (b.val.take start ++ bytes ++ b.val.drop (start + bytes.length))

@[simp] theorem length_val (b : Block n) : b.val.length = n := b.property

@[simp] theorem ofBytes_val (b : Block n) : ofBytes n b.val = b := by
  apply Subtype.ext
  simp [ofBytes]

theorem ofBytes_of_length {bytes : Bytes} (size : bytes.length = n) :
    ofBytes n bytes = ⟨bytes, size⟩ := by
  apply Subtype.ext
  simp [ofBytes, ← size]

@[simp] theorem take_val (b : Block n) : b.val.take n = b.val :=
  List.take_of_length_le (Nat.le_of_eq b.property)

theorem patch_val {bytes : Bytes} {start : Nat} (b : Block n) (fits : start + bytes.length ≤ n) :
    (b.patch start bytes).val =
      b.val.take start ++ bytes ++ b.val.drop (start + bytes.length) := by
  have whole : (b.val.take start ++ bytes ++ b.val.drop (start + bytes.length)).length = n := by
    simp only [List.length_append, List.length_take, List.length_drop, length_val]
    omega
  rw [patch, ofBytes_of_length whole]

theorem drop_patch_start {bytes : Bytes} {start : Nat} (b : Block n) (fits : start + bytes.length ≤ n) :
    (b.patch start bytes).val.drop start = bytes ++ b.val.drop (start + bytes.length) := by
  have front : (b.val.take start).length = start := by
    simp only [List.length_take, length_val]
    omega
  rw [patch_val b fits, List.append_assoc, List.drop_left' front]

theorem drop_patch {bytes : Bytes} {start k : Nat} (b : Block n) (fits : start + bytes.length ≤ n)
    (behind : start + bytes.length ≤ k) : (b.patch start bytes).val.drop k = b.val.drop k := by
  have rest := congrArg (List.drop bytes.length) (drop_patch_start b fits)
  rw [List.drop_left, List.drop_drop] at rest
  have later := congrArg (List.drop (k - (start + bytes.length))) rest
  rwa [List.drop_drop, List.drop_drop, Nat.add_sub_cancel' behind] at later

theorem patch_patch (b : Block n) (start : Nat) (first second : Bytes)
    (fits : start + (first ++ second).length ≤ n) :
    (b.patch start first).patch (start + first.length) second = b.patch start (first ++ second) := by
  rw [List.length_append] at fits
  have one : start + first.length ≤ n := by omega
  have two : start + first.length + second.length ≤ n := by omega
  apply Subtype.ext
  rw [patch_val _ two, drop_patch b one (by omega), patch_val b one, patch_val b (by simpa using fits)]
  have front : (b.val.take start ++ first).length = start + first.length := by
    simp only [List.length_append, List.length_take, length_val]
    omega
  rw [List.take_left' front]
  simp [Nat.add_assoc]

theorem patch_front_iff {k : Nat} (b other : Block n) (inside : k ≤ n) :
    b.patch 0 (other.val.take k) = other ↔ b.val.drop k = other.val.drop k := by
  have size : (other.val.take k).length = k := by
    simp only [List.length_take, length_val]
    omega
  have patched : (b.patch 0 (other.val.take k)).val = other.val.take k ++ b.val.drop k := by
    rw [patch_val b (by omega), size, List.take_zero, List.nil_append, Nat.zero_add]
  constructor
  · intro same
    rw [same] at patched
    have back := congrArg (List.drop k) patched
    rw [List.drop_left' size] at back
    exact back.symm
  · intro same
    apply Subtype.ext
    rw [patched, same, List.take_append_drop]

theorem patch_back_iff {k : Nat} (b other : Block n) (inside : k ≤ n) :
    b.patch k (other.val.drop k) = b ↔ b.val.drop k = other.val.drop k := by
  have size : k + (other.val.drop k).length = n := by
    simp only [List.length_drop, length_val]
    omega
  have patched : (b.patch k (other.val.drop k)).val = b.val.take k ++ other.val.drop k := by
    rw [patch_val b (by omega), size, List.drop_eq_nil_of_le (Nat.le_of_eq b.length_val),
      List.append_nil]
  have front : (b.val.take k).length = k := by
    simp only [List.length_take, length_val]
    omega
  constructor
  · intro same
    rw [same] at patched
    have back := congrArg (List.drop k) patched
    rwa [List.drop_left' front] at back
  · intro same
    apply Subtype.ext
    rw [patched, ← same, List.take_append_drop]

theorem patch_nil {start : Nat} (b : Block n) (inside : start ≤ n) : b.patch start [] = b := by
  apply Subtype.ext
  rw [patch_val b (by simpa using inside)]
  simp

theorem patch_whole {bytes : Bytes} (b : Block n) (size : bytes.length = n) :
    b.patch 0 bytes = ⟨bytes, size⟩ := by
  apply Subtype.ext
  rw [patch_val b (by omega), List.drop_eq_nil_of_le (by rw [length_val]; omega)]
  simp

theorem patch_prefix_iff {bytes : Bytes} (b : Block n) (fits : bytes.length ≤ n) :
    b.patch 0 bytes = b ↔ bytes <+: b.val := by
  have patched : (b.patch 0 bytes).val = bytes ++ b.val.drop bytes.length := by
    rw [patch_val b (by omega)]
    simp
  rw [List.prefix_iff_eq_append, ← patched]
  exact ⟨congrArg Subtype.val, Subtype.ext⟩

theorem patch_zero_take {bytes : Bytes} {k : Nat} (b : Block n) (size : bytes.length = k)
    (fits : k ≤ n) : (b.patch 0 bytes).val.take k = bytes := by
  subst size
  have whole : (bytes ++ b.val.drop bytes.length).length = n := by
    simp only [List.length_append, List.length_drop, length_val]
    omega
  simp [patch, ofBytes_of_length whole]

end Block

def be32 (w : UInt32) : Bytes :=
  [UInt8.ofNat (w.toNat / 2 ^ 24), UInt8.ofNat (w.toNat / 2 ^ 16),
   UInt8.ofNat (w.toNat / 2 ^ 8), UInt8.ofNat w.toNat]

def ofBe32 : Bytes → UInt32
  | [a, b, c, d] => UInt32.ofNat (a.toNat * 2 ^ 24 + b.toNat * 2 ^ 16 + c.toNat * 2 ^ 8 + d.toNat)
  | _ => 0

@[simp] theorem length_be32 (w : UInt32) : (be32 w).length = 4 := rfl

@[simp] theorem ofBe32_be32 (w : UInt32) : ofBe32 (be32 w) = w := by
  apply UInt32.toNat_inj.mp
  have bound := w.toNat_lt
  simp only [ofBe32, be32, UInt32.toNat_ofNat', UInt8.toNat_ofNat']
  omega

theorem be32_injective {v w : UInt32} (same : be32 v = be32 w) : v = w := by
  rw [← ofBe32_be32 v, same, ofBe32_be32]

/-- The bytes of a string from position `start` on, as far as `count` asks and the string goes. -/
def slice (bytes : Bytes) (start count : Nat) : Bytes := (bytes.drop start).take count

theorem length_slice {bytes : Bytes} {start count : Nat} (inside : start + count ≤ bytes.length) :
    (slice bytes start count).length = count := by
  simp only [slice, List.length_take, List.length_drop]
  omega

theorem slice_of_drop {bytes field rest : Bytes} {start : Nat}
    (here : bytes.drop start = field ++ rest) : slice bytes start field.length = field := by
  simp [slice, here]

theorem drop_after {bytes field rest : Bytes} {start : Nat}
    (here : bytes.drop start = field ++ rest) : bytes.drop (start + field.length) = rest := by
  rw [← List.drop_drop, here, List.drop_left]

theorem getElem?_of_drop {bytes rest : Bytes} {start : Nat} {b : UInt8}
    (here : bytes.drop start = b :: rest) : bytes[start]? = some b := by
  have first := congrArg (fun l => l[0]?) here
  simpa using first

theorem drop_succ_of_drop {bytes rest : Bytes} {start : Nat} {b : UInt8}
    (here : bytes.drop start = b :: rest) : bytes.drop (start + 1) = rest := by
  rw [← List.drop_drop, here]
  rfl

theorem inside_of_drop {bytes field rest : Bytes} {start : Nat} (short : start ≤ bytes.length)
    (here : bytes.drop start = field ++ rest) : start + field.length + rest.length = bytes.length := by
  have sizes := congrArg List.length here
  simp only [List.length_drop, List.length_append] at sizes
  omega

end ByteStrings
