import ChatFabric.CStrings
import ChatFabric.HexText

/- util_debug_bin2hex and util_bin2hex, which print bytes in groups of four. Memory and signed
   arithmetic are checked; malloc succeeds. -/
namespace HexDump
open ByteStrings CStrings HexText

inductive Stop where
  | bufferWrite | sourceRead | intOverflow
  deriving DecidableEq

/-- The result of an operation on int, none of which is negative here. -/
def int (n : Nat) : Except Stop Nat := if n < 2 ^ 31 then .ok n else .error .intOverflow

/-- l, one less than the size of the buffer. -/
def bufferLength (len : Nat) : Except Stop Nat := do
  let double ← int (len * 2)
  let l ← int (len / 4 + double)
  if 0 < len % 4 then int (l + 1) else .ok l

structure Dump where
  utilbuffer : Bytes
  z : Nat

def dumpByte (x : Bytes) (d : Dump) (i : Nat) : Except Stop Dump :=
  match x[i]? with
  | none => .error .sourceRead
  | some byte => do
    let buffer ← sprintf .bufferWrite d.utilbuffer d.z (hex2 byte)
    let z ← int (d.z + 2)
    let next ← int (i + 1)
    if 0 < i ∧ next % 4 = 0 then do
      let buffer ← sprintf .bufferWrite buffer z [32]
      let z ← int (z + 1)
      .ok ⟨buffer, z⟩
    else .ok ⟨buffer, z⟩

def fillBuffer (x : Bytes) (len : Nat) : Except Stop Bytes := do
  let l ← bufferLength len
  let size ← int (l + 1)
  let d ← (List.range len).foldlM (dumpByte x) ⟨List.replicate size 0, 0⟩
  .ok d.utilbuffer

/-- %ns -/
def padded (n : Nat) (s : Bytes) : Bytes := List.replicate (n - s.length) 32 ++ s

/-- What is printed behind the file, function and line. -/
def utilDebugBin2hex (label x : Bytes) (len : Nat) : Except Stop Bytes := do
  let buffer ← fillBuffer x len
  .ok (padded 20 label ++ [58, 32] ++ text buffer)

def utilBin2hex (cd label x : Bytes) (len : Nat) : Except Stop Bytes := do
  let buffer ← fillBuffer x len
  .ok (padded 2 cd ++ [32] ++ padded 24 label ++ [58, 32] ++ padded 42 (text buffer) ++ [10])

def hexGroups : Bytes → Bytes
  | a :: b :: c :: d :: rest => hex2 a ++ hex2 b ++ hex2 c ++ hex2 d ++ [32] ++ hexGroups rest
  | rest => rest.flatMap hex2

theorem hexGroups_snoc (xs : Bytes) (b : UInt8) :
    hexGroups (xs ++ [b]) =
      hexGroups xs ++ (hex2 b ++ if (xs.length + 1) % 4 = 0 then [32] else []) := by
  fun_induction hexGroups xs with
  | case1 a c d e rest ih =>
    have same : (rest.length + 1 + 1 + 1 + 1 + 1) % 4 = (rest.length + 1) % 4 := by omega
    simp [hexGroups, ih, same]
  | case2 rest short =>
    match rest, short with
    | [], _ | [_], _ | [_, _], _ | [_, _, _], _ => simp [hexGroups]
    | a :: c :: d :: e :: rest, short => exact absurd rfl (short a c d e rest)

theorem length_hexGroups (xs : Bytes) : (hexGroups xs).length = 2 * xs.length + xs.length / 4 := by
  fun_induction hexGroups xs with
  | case1 a c d e rest ih =>
    simp only [List.length_append, length_hex2, List.length_cons, List.length_nil, ih]
    omega
  | case2 rest short =>
    match rest, short with
    | [], _ | [_], _ | [_, _], _ | [_, _, _], _ => simp
    | a :: c :: d :: e :: rest, short => exact absurd rfl (short a c d e rest)

theorem hexGroups_free (xs : Bytes) : 0 ∉ hexGroups xs := by
  have digits (b : UInt8) : 0 ∉ hex2 b := by
    intro zero
    have digit := value_of_mem_hex2 zero
    revert digit
    decide
  fun_induction hexGroups xs with
  | case1 a c d e rest ih => simp [digits, ih]
  | case2 rest short => simp [digits]

theorem hexGroups_bytes (xs : Bytes) : (hexGroups xs).filter (· ≠ 32) = xs.flatMap hex2 := by
  have digits (b : UInt8) : (hex2 b).filter (· ≠ 32) = hex2 b := by
    rw [List.filter_eq_self]
    intro c member
    have digit := value_of_mem_hex2 member
    have other : c ≠ 32 := by
      rintro rfl
      revert digit
      decide
    simpa using other
  fun_induction hexGroups xs with
  | case1 a c d e rest ih => simp only [List.filter_append, digits, ih]; simp
  | case2 rest short => simp only [List.filter_flatMap, digits]

def filled (room : Nat) (out : Bytes) : Bytes := out ++ List.replicate (room - out.length) 0

theorem text_filled {room : Nat} {out : Bytes} (free : 0 ∉ out) : text (filled room out) = out := by
  rw [filled, text_append free]
  cases room - out.length <;> simp [List.replicate_succ]

theorem sprintf_filled (room : Nat) (out s : Bytes) (fits : out.length + (s.length + 1) ≤ room) :
    sprintf Stop.bufferWrite (filled room out) out.length s = .ok (filled room (out ++ s)) := by
  have size : (filled room out).length = room := by
    simp only [filled, List.length_append, List.length_replicate]
    omega
  rw [sprintf, if_pos (by omega), filled, List.take_left, ← List.drop_drop, List.drop_left,
    List.drop_replicate, filled, List.length_append]
  have zeros : room - (out.length + s.length) = (room - out.length - (s.length + 1)) + 1 := by omega
  rw [zeros, List.replicate_succ]
  simp

section
variable {x : Bytes} {len room : Nat}

def dumped (x : Bytes) (room i : Nat) : Dump :=
  ⟨filled room (hexGroups (x.take i)), (hexGroups (x.take i)).length⟩

theorem int_ok {n : Nat} (range : n < 2 ^ 31) : int n = .ok n := if_pos range

theorem dumpByte_dumped {i : Nat} (inside : i < x.length) (range : room < 2 ^ 31)
    (fits : 2 * (i + 1) + (i + 1) / 4 < room) :
    dumpByte x (dumped x room i) i = .ok (dumped x room (i + 1)) := by
  have front : (x.take i).length = i := by
    rw [List.length_take]
    omega
  have size : (hexGroups (x.take i)).length = 2 * i + i / 4 := by rw [length_hexGroups, front]
  have grown : hexGroups (x.take (i + 1)) =
      hexGroups (x.take i) ++ (hex2 x[i] ++ if (i + 1) % 4 = 0 then [32] else []) := by
    rw [List.take_succ_eq_append_getElem inside, hexGroups_snoc, front]
  have byte : x[i]? = some x[i] := List.getElem?_eq_getElem inside
  have digits := sprintf_filled room (hexGroups (x.take i)) (hex2 x[i])
    (by rw [size, length_hex2]; omega)
  have moved : int ((hexGroups (x.take i)).length + 2) = .ok ((hexGroups (x.take i)).length + 2) :=
    int_ok (by omega)
  have next : int (i + 1) = .ok (i + 1) := int_ok (by omega)
  by_cases full : (i + 1) % 4 = 0
  · have blank := sprintf_filled room (hexGroups (x.take i) ++ hex2 x[i]) [32]
      (by simp only [List.length_append, size, length_hex2, List.length_cons, List.length_nil]; omega)
    rw [List.length_append, length_hex2] at blank
    have behind : int ((hexGroups (x.take i)).length + 2 + 1) =
        .ok ((hexGroups (x.take i)).length + 2 + 1) := int_ok (by omega)
    have some : 0 < i ∧ (i + 1) % 4 = 0 := ⟨by omega, full⟩
    simp only [dumpByte, dumped, byte, digits, moved, next, blank, behind, some, and_self, if_true,
      grown, bind, Except.bind]
    simp
  · simp only [dumpByte, dumped, byte, digits, moved, next, grown, full, and_false, if_false,
      bind, Except.bind]
    simp

theorem dump_run (inside : len ≤ x.length) (range : room < 2 ^ 31) (fits : 2 * len + len / 4 < room) :
    (List.range len).foldlM (dumpByte x) (dumped x room 0) = .ok (dumped x room len) := by
  induction len with
  | zero => rfl
  | succ len ih =>
    have before := ih (by omega) (by omega)
    have pass : dumpByte x (dumped x room len) len = .ok (dumped x room (len + 1)) :=
      dumpByte_dumped (by omega) range fits
    rw [List.range_succ, List.foldlM_append, before]
    simp only [List.foldlM_cons, List.foldlM_nil, bind, Except.bind, pass]
    rfl

theorem bufferLength_ok (range : 2 * len + len / 4 + 2 < 2 ^ 31) :
    bufferLength len = .ok (len / 4 + len * 2 + if 0 < len % 4 then 1 else 0) := by
  have double : int (len * 2) = .ok (len * 2) := int_ok (by omega)
  have sum : int (len / 4 + len * 2) = .ok (len / 4 + len * 2) := int_ok (by omega)
  by_cases more : 0 < len % 4
  · have one : int (len / 4 + len * 2 + 1) = .ok (len / 4 + len * 2 + 1) := int_ok (by omega)
    simp only [bufferLength, double, sum, one, more, if_true, bind, Except.bind]
  · simp only [bufferLength, double, sum, more, if_false, bind, Except.bind, Nat.add_zero]

/-- The buffer is filled without a write outside, and then holds the bytes in their groups. -/
theorem dumps_inside (inside : len ≤ x.length) (range : 2 * len + len / 4 + 2 < 2 ^ 31) :
    ∃ l buffer, bufferLength len = .ok l ∧ fillBuffer x len = .ok buffer ∧ buffer.length = l + 1 ∧
      0 ∈ buffer ∧ text buffer = hexGroups (x.take len) ∧
      (text buffer).filter (· ≠ 32) = (x.take len).flatMap hex2 ∧
      (∀ label, utilDebugBin2hex label x len =
        .ok (padded 20 label ++ [58, 32] ++ hexGroups (x.take len))) ∧
      ∀ cd label, utilBin2hex cd label x len = .ok (padded 2 cd ++ [32] ++ padded 24 label ++ [58, 32] ++
        padded 42 (hexGroups (x.take len)) ++ [10]) := by
  have l := bufferLength_ok range
  generalize total : len / 4 + len * 2 + (if 0 < len % 4 then 1 else 0) = room at l
  have bounds : 2 * len + len / 4 ≤ room ∧ room ≤ 2 * len + len / 4 + 1 := by
    split at total <;> omega
  have whole : (x.take len).length = len := by
    rw [List.length_take]
    omega
  have size : (hexGroups (x.take len)).length = 2 * len + len / 4 := by rw [length_hexGroups, whole]
  have run : (List.range len).foldlM (dumpByte x) (dumped x (room + 1) 0) =
      .ok (dumped x (room + 1) len) := dump_run inside (by omega) (by omega)
  have start : dumped x (room + 1) 0 = ⟨List.replicate (room + 1) 0, 0⟩ := rfl
  have fills : fillBuffer x len = .ok (filled (room + 1) (hexGroups (x.take len))) := by
    simp only [fillBuffer, l, int_ok (by omega : room + 1 < 2 ^ 31), ← start, run, bind, Except.bind]
    rfl
  have shows : text (filled (room + 1) (hexGroups (x.take len))) = hexGroups (x.take len) :=
    text_filled (hexGroups_free _)
  refine ⟨room, _, l, fills, ?_, ?_, shows, ?_, fun label => ?_, fun cd label => ?_⟩
  · simp only [filled, List.length_append, List.length_replicate, size]
    omega
  · have behind : room + 1 - (hexGroups (x.take len)).length ≠ 0 := by omega
    simp [filled, behind]
  · rw [shows, hexGroups_bytes]
  · simp only [utilDebugBin2hex, fills, shows, bind, Except.bind]
  · simp only [utilBin2hex, fills, shows, bind, Except.bind]

end

theorem dumps_inside_five : (5 : Nat) ≤ [1, 2, 3, 254, 255].length ∧ ∃ l buffer, bufferLength 5 = .ok l ∧
    fillBuffer [1, 2, 3, 254, 255] 5 = .ok buffer ∧ buffer.length = l + 1 ∧
    text buffer = [48, 49, 48, 50, 48, 51, 102, 101, 32, 102, 102] := by
  obtain ⟨l, buffer, length, fills, size, _, shows, _⟩ :=
    @dumps_inside [1, 2, 3, 254, 255] 5 (by decide) (by decide)
  exact ⟨by decide, l, buffer, length, fills, size, shows⟩

end HexDump
