import ChatFabric.TagStream

/- When a loop over tagged fields stays inside its string. Nothing but the fields
   themselves keeps it there, so they have to reach the limit that is in force
   behind them. -/
namespace TagStream
open ByteStrings WhileLoop
variable {Value : Type}

def Case.width : Case Value → Nat
  | .pass | .stop => 0
  | .jump width | .field width _ | .limit width _ => width

def Case.limitBehind (c : Case Value) (field : Bytes) (behind : Nat) (limit : Int) : Int :=
  match c with
  | .limit _ next => next field
  | .stop => behind
  | _ => limit

def Whole (cases : UInt8 → Case Value) (f : UInt8 × Bytes) : Prop := f.2.length = (cases f.1).width

def limitBehind (cases : UInt8 → Case Value) : Nat → Int → List (UInt8 × Bytes) → Int
  | _, limit, [] => limit
  | start, limit, f :: fs =>
    let behind := start + 1 + f.2.length
    limitBehind cases behind ((cases f.1).limitBehind f.2 behind limit) fs

/-- Whole fields, from a place of the string on, reach the limit in force behind them.
    Of a jump only the tag has to be there. -/
def EnclosedFrom (cases : UInt8 → Case Value) (start : Nat) (limit : Int) (rest : Bytes) : Prop :=
  ∃ fields, (∀ f ∈ fields, Whole cases f) ∧
    ((fieldBytes fields <+: rest ∧
        limitBehind cases start limit fields ≤ (start + (fieldBytes fields).length : Nat)) ∨
     ∃ tag passed, rest = fieldBytes fields ++ tag :: passed ∧ cases tag = .jump (cases tag).width ∧
        passed.length < (cases tag).width ∧
        limitBehind cases start limit fields ≤
          (start + (fieldBytes fields).length + 1 + (cases tag).width : Nat))

def Enclosed (cases : UInt8 → Case Value) (limit : Int) (str : Bytes) : Prop :=
  EnclosedFrom cases 0 limit str

variable {cases : UInt8 → Case Value} {str : Bytes}

@[simp] theorem fieldBytes_nil : fieldBytes [] = [] := rfl

@[simp] theorem fieldBytes_cons (f : UInt8 × Bytes) (fields : List (UInt8 × Bytes)) :
    fieldBytes (f :: fields) = f.1 :: (f.2 ++ fieldBytes fields) := by
  simp [fieldBytes]

theorem enclosedFrom_reached {start : Nat} {limit : Int} (reached : limit ≤ start) (rest : Bytes) :
    EnclosedFrom cases start limit rest := by
  refine ⟨[], by simp, .inl ⟨List.nil_prefix, ?_⟩⟩
  simpa [limitBehind] using reached

theorem EnclosedFrom.cons {start : Nat} {limit : Int} {f : UInt8 × Bytes} {rest : Bytes}
    (whole : Whole cases f)
    (enclosed : EnclosedFrom cases (start + 1 + f.2.length)
      ((cases f.1).limitBehind f.2 (start + 1 + f.2.length) limit) rest) :
    EnclosedFrom cases start limit (f.1 :: (f.2 ++ rest)) := by
  obtain ⟨fields, each, reaches⟩ := enclosed
  have every : ∀ g ∈ f :: fields, Whole cases g := by
    intro g mem
    rcases List.mem_cons.mp mem with rfl | mem
    · exact whole
    · exact each g mem
  refine ⟨f :: fields, every, ?_⟩
  rcases reaches with ⟨here, reached⟩ | ⟨tag, passed, here, jumps, cut, reached⟩
  · left
    constructor
    · rw [fieldBytes_cons, List.cons_prefix_cons, List.prefix_append_right_inj]
      exact ⟨rfl, here⟩
    · simp only [limitBehind, fieldBytes_cons, List.length_cons, List.length_append]
      omega
  · right
    refine ⟨tag, passed, by simp [here], jumps, cut, ?_⟩
    simp only [limitBehind, fieldBytes_cons, List.length_cons, List.length_append]
    omega

theorem EnclosedFrom.split {start : Nat} {limit : Int} {rest : Bytes}
    (enclosed : EnclosedFrom cases start limit rest) (more : start < limit) :
    (∃ f after, rest = f.1 :: (f.2 ++ after) ∧ Whole cases f ∧
      EnclosedFrom cases (start + 1 + f.2.length)
        ((cases f.1).limitBehind f.2 (start + 1 + f.2.length) limit) after) ∨
    ∃ tag passed, rest = tag :: passed ∧ cases tag = .jump (cases tag).width ∧
      passed.length < (cases tag).width ∧ limit ≤ (start + 1 + (cases tag).width : Nat) := by
  obtain ⟨fields, each, reaches⟩ := enclosed
  cases fields with
  | nil =>
    rcases reaches with ⟨_, reached⟩ | ⟨tag, passed, here, jumps, cut, reached⟩
    · simp [limitBehind] at reached
      omega
    · refine .inr ⟨tag, passed, by simpa using here, jumps, cut, ?_⟩
      simpa [limitBehind] using reached
  | cons f fields =>
    have rest_of {more : Bytes} : fieldBytes (f :: fields) ++ more =
        f.1 :: (f.2 ++ (fieldBytes fields ++ more)) := by simp
    have others : ∀ g ∈ fields, Whole cases g := fun g mem => each g (by simp [mem])
    left
    rcases reaches with ⟨⟨more, here⟩, reached⟩ | ⟨tag, passed, here, jumps, cut, reached⟩
    · refine ⟨f, fieldBytes fields ++ more, by rw [← here, rest_of], each f (by simp), fields,
        others, .inl ⟨List.prefix_append _ _, ?_⟩⟩
      simp only [limitBehind, fieldBytes_cons, List.length_cons, List.length_append] at reached
      omega
    · refine ⟨f, fieldBytes fields ++ tag :: passed, by rw [here, rest_of], each f (by simp), fields,
        others, .inr ⟨tag, passed, rfl, jumps, cut, ?_⟩⟩
      simp only [limitBehind, fieldBytes_cons, List.length_cons, List.length_append] at reached
      omega

theorem body_whole {s : Reading Value} {f : UInt8 × Bytes} {rest : Bytes} (whole : Whole cases f)
    (here : str.drop s.i = f.1 :: (f.2 ++ rest)) :
    ∃ value, body cases str s = .ok ⟨s.i + 1 + f.2.length,
      (cases f.1).limitBehind f.2 (s.i + 1 + f.2.length) s.limit, value⟩ := by
  have tagHere := getElem?_of_drop here
  have after := drop_succ_of_drop here
  have inside : s.i + 1 + f.2.length ≤ str.length := by
    have sizes := congrArg List.length here
    simp only [List.length_drop, List.length_append, List.length_cons] at sizes
    omega
  have read : slice str (s.i + 1) f.2.length = f.2 := slice_of_drop after
  unfold Whole at whole
  unfold body
  rw [tagHere]
  cases known : cases f.1 with
  | pass => simp_all [Case.width, Case.limitBehind]
  | jump width => simp_all [Case.width, Case.limitBehind]
  | field width store =>
    simp only [known, Case.width] at whole
    subst whole
    simp [known, inside, Case.limitBehind]
  | limit width limit =>
    simp only [known, Case.width] at whole
    subst whole
    simp [known, inside, read, Case.limitBehind]
  | stop => simp_all [Case.width, Case.limitBehind]

theorem body_none {s : Reading Value} (ended : str.drop s.i = []) :
    body cases str s = .error .readPastEnd := by
  have beyond : str[s.i]? = none := by
    simpa [List.drop_eq_nil_iff] using ended
  simp [body, beyond]

theorem body_cut {s t : Reading Value} {tag : UInt8} {part : Bytes} (here : str.drop s.i = tag :: part)
    (cut : part.length < (cases tag).width) (pass : body cases str s = .ok t) :
    cases tag = .jump (cases tag).width ∧ t.i = s.i + 1 + (cases tag).width ∧ t.limit = s.limit := by
  have sizes := congrArg List.length here
  simp only [List.length_drop, List.length_cons] at sizes
  unfold body at pass
  rw [getElem?_of_drop here] at pass
  cases known : cases tag with
  | pass => simp [known, Case.width] at cut
  | jump width =>
    simp only [known] at pass
    cases pass
    simp [Case.width]
  | field width store =>
    simp only [known, Case.width] at pass cut
    rw [if_neg (by omega)] at pass
    cases pass
  | limit width limit =>
    simp only [known, Case.width] at pass cut
    rw [if_neg (by omega)] at pass
    cases pass
  | stop => simp [known, Case.width] at cut

theorem readFrom_error {s : Reading Value} (more : (s.i : Int) < s.limit) {e : Overrun}
    (stop : body cases str s = .error e) : readFrom cases str s = .error e :=
  readFrom_eq (iterate_exit (by simp [guard, more]) stop 0)

theorem body_splits {s t : Reading Value} (pass : body cases str s = .ok t) :
    (∃ f rest, str.drop s.i = f.1 :: (f.2 ++ rest) ∧ Whole cases f ∧ t.i = s.i + 1 + f.2.length ∧
      t.limit = (cases f.1).limitBehind f.2 t.i s.limit) ∨
    ∃ tag passed, str.drop s.i = tag :: passed ∧ cases tag = .jump (cases tag).width ∧
      passed.length < (cases tag).width ∧ t.i = s.i + 1 + (cases tag).width ∧ t.limit = s.limit := by
  cases here : str.drop s.i with
  | nil => simp [body_none here] at pass
  | cons tag tail =>
    by_cases cut : tail.length < (cases tag).width
    · obtain ⟨jumps, place, limit⟩ := body_cut here cut pass
      exact .inr ⟨tag, tail, rfl, jumps, cut, place, limit⟩
    · have whole : Whole cases (tag, tail.take (cases tag).width) := by
        simp only [Whole, List.length_take]
        omega
      have split : tag :: tail =
          tag :: (tail.take (cases tag).width ++ tail.drop (cases tag).width) := by simp
      rw [split] at here
      obtain ⟨value, next⟩ := body_whole whole here
      cases pass.symm.trans next
      exact .inl ⟨(tag, tail.take (cases tag).width), tail.drop (cases tag).width, split, whole, rfl, rfl⟩

theorem enclosed_of_inside {s u : Reading Value} (inside : readFrom cases str s = .ok u) :
    EnclosedFrom cases s.i s.limit (str.drop s.i) := by
  induction left : str.length - s.i using Nat.strongRecOn generalizing s with
  | ind n ih =>
    by_cases reached : s.limit ≤ s.i
    · exact enclosedFrom_reached reached _
    have more : (s.i : Int) < s.limit := by omega
    cases pass : body cases str s with
    | error e => simp [readFrom_error more pass] at inside
    | ok t =>
      rw [readFrom_pass more pass] at inside
      have advance := body_advances pass
      rcases body_splits pass with ⟨f, rest, here, whole, place, limit⟩ |
        ⟨tag, passed, here, jumps, cut, place, limit⟩
      · have behind := ih _ (by omega) inside rfl
        rw [limit, place, drop_after (drop_succ_of_drop here)] at behind
        rw [here]
        exact behind.cons whole
      · -- behind a cut jump there is nothing left to read
        have sizes := congrArg List.length here
        simp only [List.length_drop, List.length_cons] at sizes
        have done : t.limit ≤ t.i := by
          by_contra later
          rw [readFrom_error (by omega) (body_none (List.drop_of_length_le (by omega)))] at inside
          cases inside
        refine ⟨[], by simp, .inr ⟨tag, passed, here, jumps, cut, ?_⟩⟩
        simp only [limitBehind, fieldBytes_nil, List.length_nil]
        omega

theorem inside_of_enclosed {s : Reading Value}
    (enclosed : EnclosedFrom cases s.i s.limit (str.drop s.i)) :
    ∃ u, readFrom cases str s = .ok u := by
  induction left : str.length - s.i using Nat.strongRecOn generalizing s with
  | ind n ih =>
    by_cases reached : s.limit ≤ s.i
    · exact ⟨s, readFrom_done reached⟩
    have more : (s.i : Int) < s.limit := by omega
    rcases enclosed.split more with ⟨f, after, here, whole, behind⟩ |
      ⟨tag, passed, here, jumps, _, limit⟩
    · obtain ⟨value, pass⟩ := body_whole whole here
      have advance := body_advances pass
      simp only at advance
      rw [readFrom_pass more pass]
      rw [← drop_after (drop_succ_of_drop here)] at behind
      exact ih _ (by simp only; omega) behind rfl
    · exact ⟨_, (readFrom_jump jumps here more).trans (readFrom_done limit)⟩

theorem readFrom_inside_iff (s : Reading Value) :
    (∃ t, readFrom cases str s = .ok t) ↔ EnclosedFrom cases s.i s.limit (str.drop s.i) := by
  constructor
  · intro ⟨t, inside⟩
    exact enclosed_of_inside inside
  · intro enclosed
    exact inside_of_enclosed enclosed

theorem readAll_inside_iff (limit : Int) (value : Value) :
    (∃ w, readAll cases str limit value = .ok w) ↔ Enclosed cases limit str := by
  have inside : (∃ t, readFrom cases str ⟨0, limit, value⟩ = .ok t) ↔
      EnclosedFrom cases 0 limit (str.drop 0) := readFrom_inside_iff _
  rw [List.drop_zero] at inside
  rw [Enclosed, ← inside, readAll]
  cases readFrom cases str ⟨0, limit, value⟩ with
  | ok t => simp [Except.map]
  | error e => simp [Except.map]

end TagStream
