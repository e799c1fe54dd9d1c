import ChatFabric.HexText
import Mathlib.Data.List.TakeWhile
import Mathlib.Data.List.Forall2

/- Formats of %02x and plain characters: what they print, and what a text is scanned as. A number
   may be longer or shorter where it is read than where it is printed: there the 2 is a limit. -/
namespace TextFormat
open ByteStrings HexText

inductive Directive where
  | hex2
  | char (c : UInt8)
  deriving DecidableEq

/-- The arguments are bytes. -/
def print : List Directive → Bytes → Bytes
  | .hex2 :: fmt, b :: args => hex2 b ++ print fmt args
  | .char c :: fmt, args => c :: print fmt args
  | _, _ => []

/-- What snprintf writes of a text into a buffer of a size. -/
def written (size : Nat) (s : Bytes) : Bytes := if size = 0 then [] else s.take (size - 1) ++ [0]

/-- isspace -/
def blank (c : UInt8) : Bool := c = 32 ∨ (9 ≤ c ∧ c ≤ 13)

def isDigit (c : UInt8) : Bool := (value c).isSome
def isSign (c : UInt8) : Bool := c = 43 ∨ c = 45
def isX (c : UInt8) : Bool := c = 120 ∨ c = 88

def unsigned : Bytes → Bytes
  | c :: s => if isSign c then s else c :: s
  | [] => []

def unprefixed : Bytes → Bytes
  | c :: d :: s => if c = 48 ∧ isX d then s else c :: d :: s
  | s => s

/-- What strtoul takes at base 16: an optional sign, an optional 0x, and digits. -/
def isNumber (item : Bytes) : Bool :=
  unprefixed (unsigned item) ≠ [] ∧ (unprefixed (unsigned item)).all isDigit

def beginsNumber (item : Bytes) : Bool := (unprefixed (unsigned item)).all isDigit

/-- The longest front of a text, of at most so many characters, that a number may begin with. -/
def item : Nat → Bytes → Bytes
  | 0, _ => []
  | width + 1, s => if beginsNumber (s.take (width + 1)) then s.take (width + 1) else item width s

/-- strtoul of a number, stored through a pointer to an unsigned int. -/
def strtoul (item : Bytes) : Int32 :=
  let n := Int32.ofNat ((unprefixed (unsigned item)).foldl (fun n c => 16 * n + (value c).getD 0) 0)
  if item.head? = some 45 then -n else n

/-- The conversion, with what it leaves of the text. Blanks before the number are no part of it. -/
def scanHex (width : Nat) (s : Bytes) : Option (Int32 × Bytes) :=
  let s := s.dropWhile blank
  let number := item width s
  if isNumber number then some (strtoul number, s.drop number.length) else none

/-- The values sscanf stores, up to the first directive that fails. -/
def scan : List Directive → Bytes → List Int32
  | .hex2 :: fmt, s =>
    match scanHex 2 s with
    | some (v, rest) => v :: scan fmt rest
    | none => []
  | .char c :: fmt, d :: rest => if d = c then scan fmt rest else []
  | .char _ :: _, [] => []
  | [], _ => []

/-- The numbers of at most two characters, by what follows them. -/
inductive Field : Bytes → Bytes → Int32 → Prop where
  | two {d e : UInt8} {a b : Nat} {rest : Bytes} (high : value d = some a) (low : value e = some b) :
      Field [d, e] rest (Int32.ofNat (16 * a + b))
  | one {d : UInt8} {a : Nat} {rest : Bytes} (digit : value d = some a)
      (alone : ∀ c ∈ rest.head?, value c = none ∧ ¬ (d = 48 ∧ isX c)) :
      Field [d] rest (Int32.ofNat a)
  | plus {d : UInt8} {a : Nat} {rest : Bytes} (digit : value d = some a) :
      Field [43, d] rest (Int32.ofNat a)
  | minus {d : UInt8} {a : Nat} {rest : Bytes} (digit : value d = some a) :
      Field [45, d] rest (-Int32.ofNat a)

def Leads (s rest : Bytes) (v : Int32) : Prop :=
  ∃ blanks number, s = blanks ++ number ++ rest ∧ (∀ c ∈ blanks, blank c) ∧ Field number rest v

/-- The numbers a text begins with, in the layout of a format. -/
inductive Begins : List Directive → Bytes → List Int32 → Prop where
  | done (s : Bytes) : Begins [] s []
  | number {fmt : List Directive} {s rest : Bytes} {v : Int32} {vs : List Int32} (field : Leads s rest v)
      (later : Begins fmt rest vs) : Begins (.hex2 :: fmt) s (v :: vs)
  | noNumber {fmt : List Directive} {s : Bytes} (none : ∀ rest v, ¬ Leads s rest v) :
      Begins (.hex2 :: fmt) s []
  | char {fmt : List Directive} {c : UInt8} {rest : Bytes} {vs : List Int32} (later : Begins fmt rest vs) :
      Begins (.char c :: fmt) (c :: rest) vs
  | noChar {fmt : List Directive} {c : UInt8} {s : Bytes} (other : s.head? ≠ some c) :
      Begins (.char c :: fmt) s []

section
variable {c d e : UInt8} {a b : Nat} {rest s t : Bytes} {v : Int32}

theorem digit_range (digit : value d = some a) : 48 ≤ d.toNat ∧ d.toNat ≤ 102 := by
  unfold value at digit
  split at digit
  · rename_i range
    exact ⟨range.1, Nat.le_trans range.2 (by decide)⟩
  split at digit
  · rename_i range
    exact ⟨Nat.le_trans (by decide) range.1, range.2⟩
  split at digit
  · rename_i range
    exact ⟨Nat.le_trans (by decide) range.1, Nat.le_trans range.2 (by decide)⟩
  · cases digit

theorem not_sign (digit : value d = some a) : isSign d = false := by
  have range := digit_range digit
  rw [isSign, decide_eq_false_iff_not]
  rintro (rfl | rfl) <;> simp at range

theorem not_x (digit : value d = some a) : isX d = false := by
  have range := digit_range digit
  rw [isX, decide_eq_false_iff_not]
  rintro (rfl | rfl)
  · simp at range
  · cases digit

theorem not_blank (digit : value d = some a) : blank d = false := by
  have range := digit_range digit
  rw [blank, decide_eq_false_iff_not]
  rintro (rfl | ⟨_, high⟩)
  · simp at range
  · have high : d.toNat ≤ 13 := high
    omega

theorem isDigit_iff : isDigit d = true ↔ ∃ a, value d = some a := Option.isSome_iff_exists

theorem core_one : unprefixed (unsigned [c]) = if isSign c then [] else [c] := by
  simp only [unsigned]
  split <;> rfl

theorem core_two : unprefixed (unsigned [c, d]) =
    if isSign c then [d] else if c = 48 ∧ isX d then [] else [c, d] := by
  simp only [unsigned]
  split <;> rfl

theorem isNumber_one (number : isNumber [c] = true) : ∃ a, value c = some a := by
  simp only [isNumber, core_one, decide_eq_true_eq] at number
  split at number
  · exact absurd rfl number.1
  · simpa [isDigit_iff] using number.2

theorem isNumber_two (number : isNumber [c, d] = true) :
    (∃ b, value d = some b) ∧ (isSign c = true ∨ ∃ a, value c = some a) := by
  simp only [isNumber, core_two, decide_eq_true_eq] at number
  split at number
  · rename_i sign
    exact ⟨by simpa [isDigit_iff] using number.2, .inl sign⟩
  split at number
  · exact absurd rfl number.1
  · have both : isDigit c = true ∧ isDigit d = true := by simpa using number.2
    exact ⟨isDigit_iff.mp both.2, .inr (isDigit_iff.mp both.1)⟩

theorem beginsNumber_two (digit : value c = some a) (more : beginsNumber [c, d] = false) :
    value d = none ∧ ¬ (c = 48 ∧ isX d = true) := by
  have first : isDigit c = true := isDigit_iff.mpr ⟨a, digit⟩
  rw [beginsNumber, core_two, if_neg (by simp [not_sign digit])] at more
  split at more
  · simp at more
  · rename_i plain
    have second : isDigit d = false := by simpa [first] using more
    exact ⟨by simpa [isDigit] using second, plain⟩

theorem item_cases (t : Bytes) : item 2 t = t.take 2 ∨
    beginsNumber (t.take 2) = false ∧ (item 2 t = t.take 1 ∨ item 2 t = []) := by
  simp only [item]
  split
  · exact .inl rfl
  · rename_i more
    refine .inr ⟨by simpa using more, ?_⟩
    split
    · exact .inl rfl
    · exact .inr rfl

theorem strtoul_one (digit : value c = some a) : strtoul [c] = Int32.ofNat a := by
  have other : ¬ c = 45 := by
    rintro rfl
    cases digit
  simp [strtoul, core_one, not_sign digit, digit, other]

theorem strtoul_two (high : value c = some a) (low : value d = some b) :
    strtoul [c, d] = Int32.ofNat (16 * a + b) := by
  have other : ¬ c = 45 := by
    rintro rfl
    cases high
  simp [strtoul, core_two, not_sign high, not_x low, high, low, other]

theorem field_two (number : isNumber [c, d] = true) (rest : Bytes) :
    Field [c, d] rest (strtoul [c, d]) := by
  obtain ⟨⟨b, low⟩, sign | ⟨a, high⟩⟩ := isNumber_two number
  · simp only [isSign, decide_eq_true_eq] at sign
    rcases sign with rfl | rfl
    · have plus : strtoul [43, d] = Int32.ofNat b := by simp [strtoul, core_two, isSign, low]
      exact plus ▸ .plus low
    · have minus : strtoul [45, d] = -Int32.ofNat b := by simp [strtoul, core_two, isSign, low]
      exact minus ▸ .minus low
  · exact strtoul_two high low ▸ .two high low

theorem field_one (number : isNumber [c] = true)
    (alone : ∀ d ∈ rest.head?, beginsNumber [c, d] = false) : Field [c] rest (strtoul [c]) := by
  obtain ⟨a, digit⟩ := isNumber_one number
  exact strtoul_one digit ▸ .one digit fun d next => beginsNumber_two digit (alone d next)

theorem field_of_item (number : isNumber (item 2 t) = true) :
    item 2 t ++ t.drop (item 2 t).length = t ∧
      Field (item 2 t) (t.drop (item 2 t).length) (strtoul (item 2 t)) := by
  have some : item 2 t ≠ [] := by
    intro none
    rw [none] at number
    simp [isNumber, unsigned, unprefixed] at number
  rcases item_cases t with whole | ⟨more, short | none⟩
  · match t with
    | [] => exact absurd whole some
    | [c] =>
      have taken : item 2 [c] = [c] := whole
      rw [taken] at number ⊢
      exact ⟨rfl, field_one number (by simp)⟩
    | c :: d :: rest =>
      have taken : item 2 (c :: d :: rest) = [c, d] := whole
      rw [taken] at number ⊢
      exact ⟨rfl, field_two number rest⟩
  · match t with
    | [] => exact absurd short some
    | c :: rest =>
      have taken : item 2 (c :: rest) = [c] := short
      rw [taken] at number ⊢
      refine ⟨rfl, field_one number fun d next => ?_⟩
      cases rest with
      | nil => cases next
      | cons e rest =>
        cases next
        exact more
  · exact absurd none some

theorem scanHex_sound (run : scanHex 2 s = some (v, rest)) : Leads s rest v := by
  simp only [scanHex] at run
  split at run
  · rename_i number
    obtain ⟨rfl, rfl⟩ := Prod.mk.inj (Option.some.inj run)
    obtain ⟨split, field⟩ := field_of_item number
    refine ⟨s.takeWhile blank, _, ?_, fun c member => List.mem_takeWhile_imp member, field⟩
    rw [List.append_assoc, split, List.takeWhile_append_dropWhile]
  · cases run

theorem item_of_field {number : Bytes} (field : Field number rest v) :
    item 2 (number ++ rest) = number ∧ isNumber number = true ∧ strtoul number = v ∧
      (number ++ rest).dropWhile blank = number ++ rest := by
  cases field with
  | @two d e a b _ high low =>
    have first : isDigit d = true := isDigit_iff.mpr ⟨a, high⟩
    have second : isDigit e = true := isDigit_iff.mpr ⟨b, low⟩
    have core : unprefixed (unsigned [d, e]) = [d, e] := by
      simp [core_two, not_sign high, not_x low]
    refine ⟨?_, ?_, strtoul_two high low, ?_⟩
    · simp [item, beginsNumber, core, first, second]
    · simp [isNumber, core, first, second]
    · simp [not_blank high]
  | @one d a _ digit alone =>
    have core : unprefixed (unsigned [d]) = [d] := by simp [core_one, not_sign digit]
    have first : isDigit d = true := isDigit_iff.mpr ⟨a, digit⟩
    have number : isNumber [d] = true := by simp [isNumber, core, first]
    refine ⟨?_, number, strtoul_one digit, by simp [not_blank digit]⟩
    cases rest with
    | nil => simp [item, beginsNumber, core, first]
    | cons e more =>
      obtain ⟨other, plain⟩ := alone e rfl
      have ends : beginsNumber [d, e] = false := by
        rw [beginsNumber, core_two, if_neg (by simp [not_sign digit]), if_neg plain]
        simp [isDigit, other]
      have starts : beginsNumber [d] = true := by simp [beginsNumber, core, first]
      simp [item, ends, starts]
  | @plus d a _ digit =>
    have second : isDigit d = true := isDigit_iff.mpr ⟨a, digit⟩
    have core : unprefixed (unsigned [43, d]) = [d] := by simp [core_two, isSign]
    refine ⟨?_, ?_, ?_, by simp [blank]⟩
    · simp [item, beginsNumber, core, second]
    · simp [isNumber, core, second]
    · simp [strtoul, core, digit]
  | @minus d a _ digit =>
    have second : isDigit d = true := isDigit_iff.mpr ⟨a, digit⟩
    have core : unprefixed (unsigned [45, d]) = [d] := by simp [core_two, isSign]
    refine ⟨?_, ?_, ?_, by simp [blank]⟩
    · simp [item, beginsNumber, core, second]
    · simp [isNumber, core, second]
    · simp [strtoul, core, digit]

theorem scanHex_complete (leads : Leads s rest v) : scanHex 2 s = some (v, rest) := by
  obtain ⟨blanks, number, rfl, before, field⟩ := leads
  obtain ⟨taken, isNumber, result, starts⟩ := item_of_field field
  have skipped : (blanks ++ number ++ rest).dropWhile blank = number ++ rest := by
    rw [List.append_assoc, List.dropWhile_append_of_pos before, starts]
  rw [scanHex, skipped]
  simp only [taken, isNumber, result, if_true, List.drop_left]

theorem scanHex_iff : scanHex 2 s = some (v, rest) ↔ Leads s rest v :=
  ⟨scanHex_sound, scanHex_complete⟩

theorem begins_scan (fmt : List Directive) (s : Bytes) : Begins fmt s (scan fmt s) := by
  fun_induction scan fmt s with
  | case1 s fmt v rest scanned ih => exact .number (scanHex_iff.mp scanned) ih
  | case2 s fmt failed =>
    refine .noNumber fun rest v leads => ?_
    rw [scanHex_iff.mpr leads] at failed
    cases failed
  | case3 c fmt rest ih => exact .char ih
  | case4 c fmt d rest other => exact .noChar (by simpa using other)
  | case5 c fmt => exact .noChar (by simp)
  | case6 s => exact .done s

/-- The scan is the grammar, which names one list of numbers for each text. -/
theorem scan_iff {fmt : List Directive} {vs : List Int32} : scan fmt s = vs ↔ Begins fmt s vs := by
  constructor
  · rintro rfl
    exact begins_scan fmt s
  · intro begins
    induction begins with
    | done s => simp [scan]
    | number field later ih => simp [scan, scanHex_iff.mpr field, ih]
    | @noNumber fmt s none =>
      cases scanned : scanHex 2 s with
      | none => simp [scan, scanned]
      | some field => exact absurd (scanHex_iff.mp scanned) (none field.2 field.1)
    | char later ih => simp [scan, ih]
    | @noChar fmt c s other =>
      cases s with
      | nil => rfl
      | cons d rest =>
        have apart : d ≠ c := by simpa using other
        simp [scan, apart]

theorem length_scan_le (fmt : List Directive) (s : Bytes) : (scan fmt s).length ≤ fmt.count .hex2 := by
  fun_induction scan fmt s with
  | case1 s fmt v rest scanned ih => simpa using ih
  | case3 c fmt rest ih => simpa using ih
  | case2 | case4 | case5 | case6 => exact Nat.zero_le _

theorem scanHex_digits (rest : Bytes) (high : value d = some a) (low : value e = some b) :
    scanHex 2 (d :: e :: rest) = some (Int32.ofNat (16 * a + b), rest) :=
  scanHex_iff.mpr ⟨[], [d, e], rfl, by simp, .two high low⟩

def Directive.shape : Directive → List (UInt8 → Bool)
  | .hex2 => [isDigit, isDigit]
  | .char c => [fun d => d = c]

def HasShape (shape : List (UInt8 → Bool)) (s : Bytes) : Prop :=
  List.Forall₂ (fun allowed c => allowed c = true) shape s

theorem scan_shape {fmt : List Directive} (shape : HasShape (fmt.flatMap Directive.shape) s) :
    (scan fmt s).length = fmt.count .hex2 ∧ ∀ v ∈ scan fmt s, ∃ n < 256, v = Int32.ofNat n := by
  induction fmt generalizing s with
  | nil => simp [scan]
  | cons directive fmt ih =>
    cases directive with
    | hex2 =>
      simp only [List.flatMap_cons, Directive.shape, List.cons_append, List.nil_append] at shape
      cases shape with
      | @cons _ d _ _ first shape =>
      cases shape with
      | @cons _ e _ s second shape =>
      obtain ⟨a, high⟩ := isDigit_iff.mp first
      obtain ⟨b, low⟩ := isDigit_iff.mp second
      obtain ⟨count, each⟩ := ih shape
      simp only [scan, scanHex_digits _ high low]
      refine ⟨by simp [count], fun v member => ?_⟩
      rcases List.mem_cons.mp member with rfl | later
      · have ha := value_lt high
        have hb := value_lt low
        exact ⟨16 * a + b, by omega, rfl⟩
      · exact each v later
    | char c =>
      simp only [List.flatMap_cons, Directive.shape, List.cons_append, List.nil_append] at shape
      cases shape with
      | @cons _ d _ s first shape =>
      have same : d = c := by simpa using first
      simpa [scan, same] using ih shape

theorem scan_print {fmt : List Directive} {args : Bytes} (count : args.length = fmt.count .hex2) :
    scan fmt (print fmt args) = args.map fun b => Int32.ofNat b.toNat := by
  induction fmt generalizing args with
  | nil =>
    have none : args = [] := by simpa using count
    simp [none, scan]
  | cons directive fmt ih =>
    cases directive with
    | hex2 =>
      cases args with
      | nil => simp at count
      | cons b args =>
        have later : scan fmt (print fmt args) = args.map fun b => Int32.ofNat b.toNat :=
          ih (by simpa using count)
        have bound := b.toNat_lt
        have whole : 16 * (b.toNat / 16) + b.toNat % 16 = b.toNat := by omega
        have digits := scanHex_digits (print fmt args) (value_digit (n := b.toNat / 16) (by omega))
          (value_digit (n := b.toNat % 16) (by omega))
        rw [whole] at digits
        simp only [print, hex2, List.cons_append, List.nil_append, scan, digits, later, List.map_cons]
    | char c =>
      have later : scan fmt (print fmt args) = args.map fun b => Int32.ofNat b.toNat :=
        ih (by simpa using count)
      simpa [print, scan] using later

theorem print_shape {fmt : List Directive} {args : Bytes} (count : args.length = fmt.count .hex2) :
    HasShape (fmt.flatMap Directive.shape) (print fmt args) := by
  induction fmt generalizing args with
  | nil => exact .nil
  | cons directive fmt ih =>
    cases directive with
    | hex2 =>
      cases args with
      | nil => simp at count
      | cons b args =>
        have later : HasShape (fmt.flatMap Directive.shape) (print fmt args) := ih (by simpa using count)
        have digits (c : UInt8) (member : c ∈ hex2 b) : isDigit c = true := value_of_mem_hex2 member
        exact .cons (digits _ (by simp [hex2])) (.cons (digits _ (by simp [hex2])) later)
    | char c => exact .cons (by simp) (ih (by simpa using count))

theorem shape_free {shape : List (UInt8 → Bool)} (has : HasShape shape s)
    (none : (shape.any fun allowed => allowed 0) = false) : 0 ∉ s := by
  induction has with
  | nil => simp
  | @cons allowed c shape s first later ih =>
    rw [List.any_cons, Bool.or_eq_false_iff] at none
    obtain ⟨here, behind⟩ := none
    have other : 0 ≠ c := by
      rintro rfl
      rw [here] at first
      cases first
    have rest := ih behind
    simp [other, rest]

end

end TextFormat
