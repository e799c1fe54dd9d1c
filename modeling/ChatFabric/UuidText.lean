import ChatFabric.CStrings
import ChatFabric.TagEncoder
import ChatFabric.TextFormat

/- uuuid2_to_str and uuuid2_from_str of the host build. -/
namespace UuidText
open ByteStrings CStrings HexText TextFormat ChatFabric

/-- %02x%02x%02x%02x-%02x%02x-%02x%02x-%02x%02x-%02x%02x%02x%02x%02x%02x, in both functions -/
def uuidFormat : List Directive :=
  [.hex2, .hex2, .hex2, .hex2, .char 45, .hex2, .hex2, .char 45, .hex2, .hex2, .char 45, .hex2, .hex2,
   .char 45, .hex2, .hex2, .hex2, .hex2, .hex2, .hex2]

/-- The buffer with what snprintf writes at its front, and the result. -/
def uuuid2ToStr (buf : Bytes) (size : Nat) (id : Block 16) : Except Fault (Bytes × Bool) :=
  let s := print uuidFormat id.val
  let w := written size s
  if w.length ≤ buf.length then .ok (w ++ buf.drop w.length, s.length + 1 ≤ size)
  else .error .bufferWrite

def inByte (v : Int32) : Bool := 0 ≤ v ∧ v ≤ 255

/-- The loop over b, from index i on. -/
def storeBytes (valid : Bool) : Nat → List Int32 → Block 16 → Block 16 × Bool
  | _, [], id => (id, valid)
  | i, v :: b, id =>
    if inByte v then storeBytes valid (i + 1) b (id.patch i [v.toUInt32.toUInt8]) else (id, false)

/-- The array b, zero where sscanf stores nothing. -/
def filledUp (read : List Int32) : List Int32 := read ++ List.replicate (16 - read.length) 0

/-- sscanf returns how many numbers it stored, or EOF where it met the end before the first. -/
def uuuid2FromStr (id : Block 16) (buf : Bytes) : Block 16 × Bool :=
  let read := scan uuidFormat (text buf)
  storeBytes (read.length = 16) 0 (filledUp read) id

/-- A text of 36 characters: hex digits of either case, grouped 8-4-4-4-12 with dashes. -/
def WellFormed (s : Bytes) : Prop :=
  let digits (n : Nat) := List.replicate n isDigit
  let dash : List (UInt8 → Bool) := [fun c => c = 45]
  HasShape (digits 8 ++ dash ++ digits 4 ++ dash ++ digits 4 ++ dash ++ digits 4 ++ dash ++ digits 12) s

theorem wellFormed_iff (s : Bytes) : WellFormed s ↔ HasShape (uuidFormat.flatMap Directive.shape) s := Iff.rfl

theorem WellFormed.length {s : Bytes} (valid : WellFormed s) : s.length = 36 := (List.Forall₂.length_eq valid).symm

theorem wellFormed_print (u : Block 16) : WellFormed (print uuidFormat u.val) :=
  (wellFormed_iff _).mpr (print_shape (by rw [Block.length_val]; rfl))

def stored (b : List Int32) : Bytes := (b.takeWhile inByte).map fun v => v.toUInt32.toUInt8

theorem storeBytes_eq {valid : Bool} {i : Nat} {b : List Int32} {id : Block 16}
    (fits : i + b.length ≤ 16) :
    storeBytes valid i b id = (id.patch i (stored b), valid && b.all inByte) := by
  induction b generalizing i id with
  | nil =>
    have same : id.patch i (stored []) = id := id.patch_nil (by simpa using fits)
    simp [storeBytes, same]
  | cons v b ih =>
    have inside : i + 1 + b.length ≤ 16 := by
      simp only [List.length_cons] at fits
      omega
    by_cases byte : inByte v = true
    · have front : stored (v :: b) = [v.toUInt32.toUInt8] ++ stored b := by simp [stored, byte]
      have short : (stored b).length ≤ b.length := by
        rw [stored, List.length_map]
        exact (List.takeWhile_prefix _).length_le
      have joint := id.patch_patch i [v.toUInt32.toUInt8] (stored b) (by simp; omega)
      simp only [storeBytes, byte, if_true, ih inside, List.all_cons, Bool.true_and, front, ← joint]
      rfl
    · have nothing : stored (v :: b) = [] := by simp [stored, byte]
      simp [storeBytes, byte, nothing, id.patch_nil (by omega : i ≤ 16)]

theorem length_filledUp {read : List Int32} (short : read.length ≤ 16) : (filledUp read).length = 16 := by
  simp only [filledUp, List.length_append, List.length_replicate]
  omega

def accepted (vs : List Int32) : Bool := decide (vs.length = 16) && vs.all inByte

theorem fromStr_eq (id : Block 16) {buf : Bytes} {vs : List Int32}
    (begins : Begins uuidFormat (text buf) vs) :
    uuuid2FromStr id buf = (id.patch 0 (stored (filledUp vs)), accepted vs) := by
  have read : scan uuidFormat (text buf) = vs := scan_iff.mpr begins
  have short : vs.length ≤ 16 := by
    rw [← read]
    exact length_scan_le uuidFormat (text buf)
  have whole := length_filledUp short
  rw [uuuid2FromStr, read, storeBytes_eq (by omega), accepted]
  by_cases all : vs.length = 16
  · simp [all, filledUp]
  · simp [all]

theorem length_stored_le (vs : List Int32) (short : vs.length ≤ 16) :
    (stored (filledUp vs)).length ≤ 16 := by
  rw [stored, List.length_map, ← length_filledUp short]
  exact (List.takeWhile_prefix _).length_le

theorem inByte_ofNat {n : Nat} (small : n < 256) : inByte (Int32.ofNat n) = true := by
  have number : (Int32.ofNat n).toInt = n := Int32.toInt_ofNat_of_lt (by omega)
  have zero : (0 : Int32).toInt = 0 := rfl
  have top : (255 : Int32).toInt = 255 := rfl
  rw [inByte, decide_eq_true_eq, Int32.le_iff_toInt_le, Int32.le_iff_toInt_le, number, zero, top]
  omega

theorem accepted_of_wellFormed {s : Bytes} (valid : WellFormed s) : accepted (scan uuidFormat s) = true := by
  obtain ⟨count, each⟩ := scan_shape ((wellFormed_iff s).mp valid)
  have all : (scan uuidFormat s).all inByte = true := by
    rw [List.all_eq_true]
    intro v member
    obtain ⟨n, small, rfl⟩ := each v member
    exact inByte_ofNat small
  have sixteen : (scan uuidFormat s).length = 16 := count
  simp [accepted, sixteen, all]

theorem filledUp_whole {vs : List Int32} (sixteen : vs.length = 16) : filledUp vs = vs := by
  simp [filledUp, sixteen]

theorem all_bytes (bs : Bytes) : (bs.map fun b => Int32.ofNat b.toNat).all inByte = true := by
  rw [List.all_eq_true]
  intro v member
  obtain ⟨b, _, rfl⟩ := List.mem_map.mp member
  exact inByte_ofNat b.toNat_lt

theorem stored_bytes (bs : Bytes) : stored (bs.map fun b => Int32.ofNat b.toNat) = bs := by
  rw [stored, List.takeWhile_eq_self_iff.mpr (List.all_eq_true.mp (all_bytes bs)), List.map_map]
  have each : (fun v : Int32 => v.toUInt32.toUInt8) ∘ (fun b : UInt8 => Int32.ofNat b.toNat) = id := by
    funext b
    simp
  rw [each, List.map_id]

theorem fromStr_print (id u : Block 16) {buf : Bytes} (shows : text buf = print uuidFormat u.val) :
    uuuid2FromStr id buf = (u, true) := by
  have read : scan uuidFormat (text buf) = u.val.map fun b => Int32.ofNat b.toNat := by
    rw [shows]
    exact scan_print (by rw [Block.length_val]; rfl)
  have sixteen : (u.val.map fun b => Int32.ofNat b.toNat).length = 16 := by
    rw [List.length_map, Block.length_val]
  rw [fromStr_eq id (scan_iff.mp read), filledUp_whole sixteen, stored_bytes, id.patch_whole u.length_val,
    accepted, all_bytes, sixteen]
  rfl

theorem WellFormed.free {s : Bytes} (valid : WellFormed s) : 0 ∉ s :=
  shape_free valid (by decide)

/-- The formatter fits its buffer exactly from 37 bytes on, and the scanner inverts it. -/
theorem toStr_roundTrip (u : Block 16) (buf beyond : Bytes) :
    ∃ out, uuuid2ToStr (buf ++ beyond) buf.length u = .ok (out ++ beyond, decide (37 ≤ buf.length)) ∧
      out.length = buf.length ∧
      (37 ≤ buf.length → ∀ id, uuuid2FromStr id (out ++ beyond) = (u, true)) := by
  have shape := wellFormed_print u
  have size := shape.length
  have short : (written buf.length (print uuidFormat u.val)).length ≤ buf.length := by
    unfold written
    split
    · simp
    · simp only [List.length_append, List.length_take, List.length_cons, List.length_nil]
      omega
  refine ⟨written buf.length (print uuidFormat u.val) ++
    buf.drop (written buf.length (print uuidFormat u.val)).length, ?_, ?_, fun enough id => ?_⟩
  · rw [uuuid2ToStr, if_pos (by rw [List.length_append]; omega), size,
      List.drop_append_of_le_length short, List.append_assoc]
  · rw [List.length_append, List.length_drop]
    omega
  · have whole : written buf.length (print uuidFormat u.val) = print uuidFormat u.val ++ [0] := by
      rw [written, if_neg (by omega), List.take_of_length_le (by omega)]
    apply fromStr_print
    rw [whole, List.append_assoc, List.append_assoc, text_append shape.free]
    simp

/-- What is taken for a uuid is one, and what is not leaves the uuid as it was. -/
def Strict (id : Block 16) (buf : Bytes) : Prop :=
  ((uuuid2FromStr id buf).2 = true → WellFormed (text buf)) ∧
    ((uuuid2FromStr id buf).2 = false → (uuuid2FromStr id buf).1 = id)

/-- The scanner is strict where the text is a uuid, or is refused and spells, up to the first number
    that is no byte, what stands at the front of the uuid already, with zeros behind. -/
theorem fromStr_strict_iff (id : Block 16) (buf : Bytes) :
    Strict id buf ↔ WellFormed (text buf) ∨ ∃ vs, Begins uuidFormat (text buf) vs ∧
      accepted vs = false ∧ stored (filledUp vs) <+: id.val := by
  obtain ⟨vs, begins⟩ : ∃ vs, Begins uuidFormat (text buf) vs := ⟨_, begins_scan _ _⟩
  have read : scan uuidFormat (text buf) = vs := scan_iff.mpr begins
  have short : vs.length ≤ 16 := read ▸ length_scan_le uuidFormat (text buf)
  have result := fromStr_eq id begins
  have kept : id.patch 0 (stored (filledUp vs)) = id ↔ stored (filledUp vs) <+: id.val :=
    id.patch_prefix_iff (length_stored_le vs short)
  rw [Strict, result]
  constructor
  · rintro ⟨taken, left⟩
    cases took : accepted vs with
    | true => exact .inl (taken took)
    | false => exact .inr ⟨vs, begins, took, kept.mp (left took)⟩
  · rintro (valid | ⟨ws, others, refused, same⟩)
    · have took : accepted vs = true := read ▸ accepted_of_wellFormed valid
      exact ⟨fun _ => valid, fun refused => absurd (took.symm.trans refused) (by decide)⟩
    · obtain rfl : ws = vs := (scan_iff.mpr others).symm.trans read
      exact ⟨fun took => absurd (refused.symm.trans took) (by decide), fun _ => kept.mpr same⟩

/-- ca32aa22-0e7c-11e5-8e8b-00a0988afcc9 -/
def clientText : Bytes :=
  [99, 97, 51, 50, 97, 97, 50, 50, 45, 48, 101, 55, 99, 45, 49, 49, 101, 53, 45, 56, 101, 56, 98, 45,
   48, 48, 97, 48, 57, 56, 56, 97, 102, 99, 99, 57]

/-- An empty text clears the uuid; a text with something behind its 36 characters is taken. -/
theorem laxText_taken :
    ¬ Strict ⟨List.replicate 16 7, rfl⟩ [0] ∧ ¬ Strict (.zero 16) (clientText ++ [120, 0]) := by
  constructor
  · intro strict
    have refused : (uuuid2FromStr ⟨List.replicate 16 7, rfl⟩ [0]).2 = false := by decide +kernel
    exact absurd (congrArg Subtype.val (strict.2 refused)) (by decide +kernel)
  · intro strict
    have taken : (uuuid2FromStr (.zero 16) (clientText ++ [120, 0])).2 = true := by decide +kernel
    exact absurd (strict.1 taken).length (by decide +kernel)

end UuidText
