import ChatFabric.ByteStrings
import Mathlib.Data.List.TakeWhile

/- Strings that end at their first zero byte, in arrays of a fixed size. -/
namespace CStrings
open ByteStrings

/-- What stands in an array before its terminator; all of it, where there is none. -/
def text (arr : Bytes) : Bytes := arr.takeWhile (· ≠ 0)

@[simp] theorem text_nil : text [] = [] := rfl

@[simp] theorem text_zero (rest : Bytes) : text (0 :: rest) = [] := by simp [text]

theorem text_cons {b : UInt8} (rest : Bytes) (other : b ≠ 0) : text (b :: rest) = b :: text rest := by
  simp [text, other]

theorem length_text_lt_iff {arr : Bytes} {k : Nat} (inside : k ≤ arr.length) :
    (text arr).length < k ↔ 0 ∈ arr.take k := by
  induction arr generalizing k with
  | nil =>
    have none : k = 0 := by simpa using inside
    simp [none]
  | cons b arr ih =>
    cases k with
    | zero => simp
    | succ k =>
      have inside : k ≤ arr.length := by simpa using inside
      by_cases zero : b = 0
      · simp [zero]
      · rw [text_cons arr zero, List.length_cons, List.take_succ_cons, List.mem_cons,
          Nat.add_lt_add_iff_right, ih inside]
        simp [Ne.symm zero]

theorem text_take {arr : Bytes} {k : Nat} (last : arr[k]? = some 0) : text (arr.take k) = text arr := by
  induction arr generalizing k with
  | nil => simp at last
  | cons b arr ih =>
    by_cases zero : b = 0
    · cases k with
      | zero => simp [zero]
      | succ k => simp [zero]
    · cases k with
      | zero => simp [zero] at last
      | succ k =>
        have last : arr[k]? = some 0 := by simpa using last
        rw [List.take_succ_cons, text_cons _ zero, text_cons _ zero, ih last]

theorem text_append {s : Bytes} (free : 0 ∉ s) (rest : Bytes) : text (s ++ rest) = s ++ text rest := by
  induction s with
  | nil => rfl
  | cons b s ih =>
    have other : b ≠ 0 := fun zero => free (by simp [zero])
    rw [List.cons_append, text_cons _ other, ih fun mem => free (List.mem_cons_of_mem b mem),
      List.cons_append]

theorem text_eq_iff {s : Bytes} : text s = s ↔ 0 ∉ s := by
  rw [text, List.takeWhile_eq_self_iff]
  constructor
  · intro each member
    simpa using each 0 member
  · intro free c member
    have other : c ≠ 0 := by
      rintro rfl
      exact free member
    simpa using other

theorem text_prefix (arr : Bytes) : text arr <+: arr := List.takeWhile_prefix _

theorem text_terminated (arr : Bytes) : text (arr ++ [0]) = text arr := by
  have last : (arr ++ [0])[arr.length]? = some 0 := by simp
  rw [← text_take last, List.take_left]

theorem text_overwritten_iff {s : Bytes} (free : 0 ∉ s) {arr : Bytes} (fits : s.length ≤ arr.length) :
    text (s ++ arr.drop s.length) = text arr ↔ s <+: arr := by
  constructor
  · intro same
    rw [text_append free] at same
    exact (List.prefix_append s _).trans (same ▸ text_prefix arr)
  · rintro ⟨rest, rfl⟩
    rw [List.drop_left]

/-- sprintf of a text behind the first z bytes of a buffer, with its terminator. -/
def sprintf {Stop : Type} (full : Stop) (buffer : Bytes) (z : Nat) (s : Bytes) : Except Stop Bytes :=
  if z + (s.length + 1) ≤ buffer.length then
    .ok (buffer.take z ++ (s ++ [0]) ++ buffer.drop (z + (s.length + 1)))
  else .error full

section
variable {Stop : Type} {full : Stop} {buffer printed s : Bytes} {z : Nat}

theorem sprintf_terminated (ran : sprintf full buffer z s = .ok printed) : 0 ∈ printed := by
  unfold sprintf at ran
  split at ran
  · cases ran
    simp
  · cases ran

theorem sprintf_full {f : Stop} (failed : sprintf full buffer z s = .error f) :
    buffer.length ≤ z + s.length := by
  unfold sprintf at failed
  split at failed
  · cases failed
  · omega

theorem sprintf_room (ran : sprintf full buffer z s = .ok printed) : z + s.length < buffer.length := by
  unfold sprintf at ran
  split at ran
  · omega
  · cases ran

end

end CStrings
