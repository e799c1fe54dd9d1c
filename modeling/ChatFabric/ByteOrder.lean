import ChatFabric.ByteStrings

/- Words in the memory of a little-endian machine, and how their bytes are put together by
   shifts. -/
namespace ByteOrder
open ByteStrings

/-- The bytes of a word as they lie in memory, the lowest first. -/
def stored (w : UInt32) : Bytes := (be32 w).reverse

def loaded (bytes : Bytes) : UInt32 := ofBe32 bytes.reverse

def joined (a b c d : UInt8) : UInt32 :=
  a.toUInt32 <<< 24 ||| b.toUInt32 <<< 16 ||| c.toUInt32 <<< 8 ||| d.toUInt32

@[simp] theorem length_stored (w : UInt32) : (stored w).length = 4 := rfl

@[simp] theorem loaded_stored (w : UInt32) : loaded (stored w) = w := by
  rw [loaded, stored, List.reverse_reverse, ofBe32_be32]

theorem be32_ofBe32 {bytes : Bytes} (size : bytes.length = 4) : be32 (ofBe32 bytes) = bytes := by
  match bytes, size with
  | [a, b, c, d], _ =>
    have ha := a.toNat_lt
    have hb := b.toNat_lt
    have hc := c.toNat_lt
    have hd := d.toNat_lt
    have word : (ofBe32 [a, b, c, d]).toNat =
        a.toNat * 2 ^ 24 + b.toNat * 2 ^ 16 + c.toNat * 2 ^ 8 + d.toNat := by
      simp only [ofBe32, UInt32.toNat_ofNat']
      omega
    simp only [be32, word, List.cons.injEq, and_true, ← UInt8.toNat_inj, UInt8.toNat_ofNat']
    omega

theorem stored_loaded {bytes : Bytes} (size : bytes.length = 4) : stored (loaded bytes) = bytes := by
  rw [stored, loaded, be32_ofBe32 (by simpa using size), List.reverse_reverse]

theorem shifted {k : Nat} (a : UInt8) (low : k < 25) :
    (a.toUInt32 <<< UInt32.ofNat k).toNat = a.toNat * 2 ^ k := by
  have bound := a.toNat_lt
  have top : 2 ^ k ≤ 2 ^ 24 := Nat.pow_le_pow_right (by decide) (by omega)
  have room : a.toNat * 2 ^ k < 2 ^ 32 := by
    calc a.toNat * 2 ^ k ≤ 255 * 2 ^ 24 := Nat.mul_le_mul (by omega) top
      _ < 2 ^ 32 := by decide
  have amount : (UInt32.ofNat k).toNat % 32 = k := by
    simp only [UInt32.toNat_ofNat']
    omega
  rw [UInt32.toNat_shiftLeft, amount, UInt8.toNat_toUInt32, Nat.shiftLeft_eq, Nat.mod_eq_of_lt room]

theorem or_eq_add {k v : Nat} (a : Nat) (small : v < 2 ^ k) : a * 2 ^ k ||| v = a * 2 ^ k + v := by
  rw [← Nat.shiftLeft_eq, Nat.shiftLeft_add_eq_or_of_lt small]

theorem joined_eq (a b c d : UInt8) : joined a b c d = ofBe32 [a, b, c, d] := by
  have ha := a.toNat_lt
  have hb := b.toNat_lt
  have hc := c.toNat_lt
  have hd := d.toNat_lt
  apply UInt32.toNat_inj.mp
  have shifts : (joined a b c d).toNat =
      a.toNat * 2 ^ 24 ||| b.toNat * 2 ^ 16 ||| c.toNat * 2 ^ 8 ||| d.toNat := by
    have top := shifted a (k := 24) (by decide)
    have second := shifted b (k := 16) (by decide)
    have third := shifted c (k := 8) (by decide)
    simp only [joined, UInt32.toNat_or, UInt8.toNat_toUInt32]
    exact congrArg₂ (· ||| ·) (congrArg₂ (· ||| ·) (congrArg₂ (· ||| ·) top second) third) rfl
  rw [shifts, Nat.or_assoc, Nat.or_assoc, or_eq_add c.toNat hd,
    or_eq_add b.toNat (by omega), or_eq_add a.toNat (by omega)]
  simp only [ofBe32, UInt32.toNat_ofNat']
  omega

end ByteOrder
