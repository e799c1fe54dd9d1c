import Mathlib.Data.List.Induction

/- A line that is typed into a place of limited room. When it is full, the next character is lost
   and the line begins anew. -/
namespace LineEditor
variable {Key : Type}

/-- How much there is room for, and what the characters do. -/
structure Editor (Key : Type) where
  room : Nat
  rubout : Key → Bool
  skip : Key → Bool
  newline : Key → Bool
  positive : 0 < room
  apart : ∀ c, newline c = true → rubout c = false ∧ skip c = false

namespace Editor
variable (e : Editor Key)

/-- The line after one more character, and the line that it ends. -/
def type (line : List Key) (c : Key) : List Key × Option (List Key) :=
  if line.length = e.room then ([], none)
  else if e.rubout c then (line.dropLast, none)
  else if e.skip c then (line, none)
  else if e.newline c then ([], some line)
  else (line ++ [c], none)

def typed (line : List Key) : List Key → List Key × List (List Key)
  | [] => (line, [])
  | c :: rest =>
    let here := e.type line c
    let later := typed here.1 rest
    (later.1, here.2.toList ++ later.2)

def lines (stream : List Key) : List (List Key) := (stream.splitOnP e.newline).dropLast

def kept (w : List Key) : List Key := w.filter fun c => !e.skip c

def Plain (w : List Key) : Prop := ∀ c ∈ w, e.newline c = false ∧ e.rubout c = false

/-- A front of a line that fills the place with its last character. -/
def Stretch (w : List Key) : Prop := (e.kept w).length = e.room ∧ ∀ c ∈ w.getLast?, e.skip c = false

/-- A line after which the place is full: stretches with one character between each and the next. -/
inductive Fills : List Key → Prop where
  | last {w : List Key} (stretch : e.Stretch w) : Fills w
  | more {w rest : List Key} (stretch : e.Stretch w) (lost : Key) (later : Fills rest) :
      Fills (w ++ lost :: rest)

variable {e}

theorem typed_append (line first second : List Key) :
    e.typed line (first ++ second) =
      ((e.typed (e.typed line first).1 second).1,
        (e.typed line first).2 ++ (e.typed (e.typed line first).1 second).2) := by
  induction first generalizing line with
  | nil => rfl
  | cons c rest ih => simp only [List.cons_append, typed, ih, List.append_assoc]

theorem type_plain {line : List Key} {c : Key} (newline : e.newline c = false) (rubout : e.rubout c = false)
    (room : line.length ≠ e.room) : e.type line c = (line ++ e.kept [c], none) := by
  rw [type, if_neg room, if_neg (by simp [rubout])]
  cases skip : e.skip c <;> simp [kept, skip, newline]

theorem plain_cons {c : Key} {w : List Key} :
    e.Plain (c :: w) ↔ (e.newline c = false ∧ e.rubout c = false) ∧ e.Plain w := by
  simp [Plain]

theorem kept_append (first second : List Key) : e.kept (first ++ second) = e.kept first ++ e.kept second :=
  List.filter_append ..

theorem typed_short {line w : List Key} (plain : e.Plain w)
    (short : line.length + (e.kept w).length < e.room) : e.typed line w = (line ++ e.kept w, []) := by
  induction w generalizing line with
  | nil => simp [typed, kept]
  | cons c w ih =>
    obtain ⟨⟨newline, rubout⟩, later⟩ := plain_cons.mp plain
    have split : e.kept (c :: w) = e.kept [c] ++ e.kept w := kept_append [c] w
    rw [split, List.length_append] at short
    have rest : e.typed (line ++ e.kept [c]) w = (line ++ e.kept [c] ++ e.kept w, []) :=
      ih later (by rw [List.length_append]; omega)
    rw [typed, type_plain newline rubout (by omega)]
    simp only [rest, split, List.append_assoc, Option.toList_none, List.nil_append]

theorem typed_none {line w : List Key} (plain : e.Plain w) : (e.typed line w).2 = [] := by
  induction w generalizing line with
  | nil => rfl
  | cons c w ih =>
    obtain ⟨⟨newline, rubout⟩, later⟩ := plain_cons.mp plain
    have none : (e.type line c).2 = none := by
      by_cases full : line.length = e.room
      · rw [type, if_pos full]
      · rw [type_plain newline rubout full]
    simp only [typed, none, ih later, Option.toList_none, List.nil_append]

theorem typed_full {line : List Key} (full : line.length = e.room) (c : Key) (rest : List Key) :
    e.typed line (c :: rest) = e.typed [] rest := by
  simp [typed, type, full]

theorem typed_stretch {w : List Key} (plain : e.Plain w) (stretch : e.Stretch w) :
    e.typed [] w = (e.kept w, []) := by
  obtain ⟨full, ends⟩ := stretch
  have positive := e.positive
  induction w using List.reverseRecOn with
  | nil =>
    simp [kept] at full
    omega
  | append_singleton front c =>
    have last : e.kept [c] = [c] := by simp [kept, ends c (by simp)]
    have before : e.Plain front := fun d member => plain d (by simp [member])
    obtain ⟨newline, rubout⟩ := plain c (by simp)
    rw [kept_append, last, List.length_append, List.length_singleton] at full
    rw [typed_append, typed_short before (by simp; omega), typed, type_plain newline rubout (by simp; omega),
      kept_append, last]
    rfl

theorem exists_stretch {w : List Key} (long : e.room ≤ (e.kept w).length) :
    ∃ front back, w = front ++ back ∧ e.Stretch front := by
  induction w using List.reverseRecOn with
  | nil =>
    have positive := e.positive
    simp [kept] at long
    omega
  | append_singleton front c ih =>
    by_cases early : e.room ≤ (e.kept front).length
    · obtain ⟨first, back, rfl, stretch⟩ := ih early
      exact ⟨first, back ++ [c], by simp, stretch⟩
    · rw [kept_append, List.length_append] at long
      cases skip : e.skip c with
      | true =>
        simp [kept, skip] at long early
        omega
      | false =>
        have last : (e.kept [c]).length = 1 := by simp [kept, skip]
        refine ⟨front ++ [c], [], by simp, ?_, by simp [skip]⟩
        rw [kept_append, List.length_append]
        omega

theorem plain_append {first second : List Key} :
    e.Plain (first ++ second) ↔ e.Plain first ∧ e.Plain second := by
  simp only [Plain, List.mem_append]
  exact ⟨fun each => ⟨fun c member => each c (.inl member), fun c member => each c (.inr member)⟩,
    fun each c member => member.elim (each.1 c) (each.2 c)⟩

/-- Behind a stretch one character is lost, and what follows is typed as a line of its own. -/
theorem typed_behind {w rest : List Key} (plain : e.Plain w) (stretch : e.Stretch w) (lost : Key) :
    (e.typed [] (w ++ lost :: rest)).1 = (e.typed [] rest).1 := by
  rw [typed_append, typed_stretch plain stretch, typed_full stretch.1]

theorem fills_of_full {w : List Key} (plain : e.Plain w) (full : (e.typed [] w).1.length = e.room) :
    e.Fills w := by
  induction size : w.length using Nat.strongRecOn generalizing w with
  | _ n ih =>
    have long : e.room ≤ (e.kept w).length := by
      by_contra short
      rw [typed_short plain (by simpa using short)] at full
      simp at full short
      omega
    obtain ⟨front, back, rfl, stretch⟩ := exists_stretch long
    obtain ⟨before, behind⟩ := plain_append.mp plain
    cases back with
    | nil => exact .last (by simpa using stretch)
    | cons lost rest =>
      rw [typed_behind before stretch] at full
      have shorter : rest.length < n := by
        rw [← size, List.length_append, List.length_cons]
        omega
      exact .more stretch lost (ih rest.length shorter (plain_cons.mp behind).2 full rfl)

theorem full_iff_fills {w : List Key} (plain : e.Plain w) :
    (e.typed [] w).1.length = e.room ↔ e.Fills w := by
  refine ⟨fills_of_full plain, fun fills => ?_⟩
  induction fills with
  | last stretch =>
    rw [typed_stretch plain stretch]
    exact stretch.1
  | more stretch lost later ih =>
    obtain ⟨before, behind⟩ := plain_append.mp plain
    rw [typed_behind before stretch]
    exact ih (plain_cons.mp behind).2

/-- What is entered of a line: nothing where it has filled the place at its end. -/
def entered (e : Editor Key) (w : List Key) : List (List Key) :=
  if (e.typed [] w).1.length = e.room then [] else [(e.typed [] w).1]

theorem lines_none {w : List Key} (plain : e.Plain w) : e.lines w = [] := by
  rw [lines, List.splitOnP_eq_singleton fun c member => (plain c member).1]
  rfl

theorem lines_cons {w : List Key} (plain : e.Plain w) {n : Key} (newline : e.newline n = true)
    (rest : List Key) : e.lines (w ++ n :: rest) = w :: e.lines rest := by
  rw [lines, List.splitOnP_append_cons_of_forall_mem (fun c member => (plain c member).1) n newline,
    List.dropLast_cons_of_ne_nil (List.splitOnP_ne_nil _ _)]
  rfl

theorem typed_newline {line : List Key} {n : Key} (newline : e.newline n = true) (rest : List Key) :
    (e.typed line (n :: rest)).2 =
      (if line.length = e.room then [] else [line]) ++ (e.typed [] rest).2 := by
  obtain ⟨rubout, skip⟩ := e.apart n newline
  by_cases full : line.length = e.room
  · simp [typed, type, full]
  · simp [typed, type, full, rubout, skip, newline]

theorem stream_induction {motive : List Key → Prop} (last : ∀ w, e.Plain w → motive w)
    (line : ∀ w n rest, e.Plain w → e.newline n = true → motive rest → motive (w ++ n :: rest))
    {stream : List Key} (plain : ∀ c ∈ stream, e.rubout c = false) : motive stream := by
  induction size : stream.length using Nat.strongRecOn generalizing stream with
  | _ k ih =>
    cases first : stream.find? e.newline with
    | none =>
      exact last stream fun c member =>
        ⟨by simpa using List.find?_eq_none.mp first c member, plain c member⟩
    | some n =>
      obtain ⟨newline, w, rest, rfl, before⟩ := List.find?_eq_some_iff_append.mp first
      have front : e.Plain w := fun c member =>
        ⟨by simpa using before c member, plain c (by simp [member])⟩
      have shorter : rest.length < k := by
        rw [← size, List.length_append, List.length_cons]
        omega
      exact line w n rest front newline
        (ih rest.length shorter (fun c member => plain c (by simp [member])) rfl)

theorem typed_lines {stream : List Key} (plain : ∀ c ∈ stream, e.rubout c = false) :
    (e.typed [] stream).2 = (e.lines stream).flatMap e.entered := by
  refine stream_induction
    (motive := fun stream => (e.typed [] stream).2 = (e.lines stream).flatMap e.entered)
    (fun w all => ?_) (fun w n rest before newline later => ?_) plain
  · rw [typed_none all, lines_none all]
    rfl
  · rw [typed_append, typed_none before, typed_newline newline, later, lines_cons before newline,
      List.flatMap_cons]
    rfl

theorem plain_of_mem_lines {stream : List Key} (plain : ∀ c ∈ stream, e.rubout c = false) :
    ∀ w ∈ e.lines stream, e.Plain w := by
  refine stream_induction (motive := fun stream => ∀ w ∈ e.lines stream, e.Plain w)
    (fun w all => ?_) (fun w n rest before newline later => ?_) plain
  · simp [lines_none all]
  · rw [lines_cons before newline]
    intro v member
    rcases List.mem_cons.mp member with rfl | behind
    · exact before
    · exact later v behind

/-- The lines there is room for, each without what is skipped. -/
def shortLine (e : Editor Key) (w : List Key) : List (List Key) :=
  if (e.kept w).length < e.room then [e.kept w] else []

theorem typed_kept {w : List Key} (plain : e.Plain w) (short : (e.kept w).length < e.room) :
    (e.typed [] w).1 = e.kept w := by
  rw [typed_short plain (by simpa using short)]
  rfl

/-- What is entered of a line is right where there is room for it, and its form is what it keeps, or
    where it fills the place at its end and nothing is entered. -/
theorem entered_iff {w : List Key} (plain : e.Plain w) (form : List Key → List Key) :
    (e.entered w).map form = e.shortLine w ↔
      (e.kept w).length < e.room ∧ form (e.kept w) = e.kept w ∨ e.Fills w := by
  rw [← full_iff_fills plain, entered, shortLine]
  by_cases short : (e.kept w).length < e.room
  · have other : (e.kept w).length ≠ e.room := by omega
    simp [typed_kept plain short, short, other]
  · by_cases full : (e.typed [] w).1.length = e.room <;> simp [short, full]

theorem shortLine_length_le {w : List Key} (plain : e.Plain w) (form : List Key → List Key) :
    (e.shortLine w).length ≤ ((e.entered w).map form).length := by
  rw [entered, shortLine]
  by_cases short : (e.kept w).length < e.room
  · have other : (e.kept w).length ≠ e.room := by omega
    simp [typed_kept plain short, short, other]
  · simp [short]

theorem flatMap_eq_iff {Item Piece : Type} {f g : Item → List Piece} {items : List Item}
    (fewer : ∀ x ∈ items, (g x).length ≤ (f x).length) :
    items.flatMap f = items.flatMap g ↔ ∀ x ∈ items, f x = g x := by
  have total (items : List Item) (fewer : ∀ x ∈ items, (g x).length ≤ (f x).length) :
      (items.flatMap g).length ≤ (items.flatMap f).length := by
    induction items with
    | nil => simp
    | cons x items ih =>
      have here := fewer x (by simp)
      have later := ih fun y member => fewer y (by simp [member])
      simp only [List.flatMap_cons, List.length_append]
      omega
  induction items with
  | nil => simp
  | cons x items ih =>
    have rest : ∀ y ∈ items, (g y).length ≤ (f y).length := fun y member => fewer y (by simp [member])
    simp only [List.flatMap_cons, List.mem_cons, forall_eq_or_imp]
    constructor
    · intro same
      have lengths := congrArg List.length same
      simp only [List.length_append] at lengths
      have here := fewer x (by simp)
      have later := total items rest
      obtain ⟨first, others⟩ := List.append_inj same (by omega)
      exact ⟨first, (ih rest).mp others⟩
    · rintro ⟨first, others⟩
      rw [first, (ih rest).mpr others]

theorem typed_short_iff {stream : List Key} (plain : ∀ c ∈ stream, e.rubout c = false)
    (form : List Key → List Key) :
    (e.typed [] stream).2.map form = (e.lines stream).flatMap e.shortLine ↔
      ∀ w ∈ e.lines stream,
        (e.kept w).length < e.room ∧ form (e.kept w) = e.kept w ∨ e.Fills w := by
  have each := plain_of_mem_lines plain
  rw [typed_lines plain, List.map_flatMap,
    flatMap_eq_iff fun w member => shortLine_length_le (each w member) form]
  exact ⟨fun same w member => (entered_iff (each w member) form).mp (same w member),
    fun exact w member => (entered_iff (each w member) form).mpr (exact w member)⟩

end Editor

end LineEditor
