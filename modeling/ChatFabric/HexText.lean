import ChatFabric.ByteStrings

/- Bytes as hexadecimal text. -/
namespace HexText
open ByteStrings

def digit (n : Nat) : UInt8 := UInt8.ofNat (if n < 10 then 48 + n else 87 + n)

/-- %02x of a byte -/
def hex2 (b : UInt8) : Bytes := [digit (b.toNat / 16), digit (b.toNat % 16)]

def value (c : UInt8) : Option Nat :=
  if 48 ≤ c ∧ c ≤ 57 then some (c.toNat - 48)
  else if 97 ≤ c ∧ c ≤ 102 then some (c.toNat - 87)
  else if 65 ≤ c ∧ c ≤ 70 then some (c.toNat - 55)
  else none

theorem value_digit {n : Nat} (small : n < 16) : value (digit n) = some n := by
  revert n
  decide

theorem value_lt {c : UInt8} {n : Nat} (known : value c = some n) : n < 16 := by
  simp only [value, UInt8.le_iff_toNat_le, UInt8.reduceToNat] at known
  grind

@[simp] theorem length_hex2 (b : UInt8) : (hex2 b).length = 2 := rfl

theorem hex2_values (b : UInt8) : (hex2 b).map value = [some (b.toNat / 16), some (b.toNat % 16)] := by
  have bound := b.toNat_lt
  rw [hex2, List.map_cons, List.map_cons, List.map_nil, value_digit (by omega), value_digit (by omega)]

theorem value_of_mem_hex2 {b c : UInt8} (member : c ∈ hex2 b) : (value c).isSome := by
  have image := List.mem_map_of_mem (f := value) member
  rw [hex2_values] at image
  simp only [List.mem_cons, List.not_mem_nil, or_false] at image
  rcases image with first | second
  · rw [first]
    rfl
  · rw [second]
    rfl

end HexText
