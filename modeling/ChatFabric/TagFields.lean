import ChatFabric.TagBounds
import Mathlib.Data.List.Induction

/- What a loop over tagged fields takes from its string: the fields it stores, in their
   order. They do not depend on the value they are stored in. -/
namespace TagStream
open ByteStrings WhileLoop
variable {Value α : Type}

/-- The switch of a reader, for one that keeps the fields themselves. -/
def recording (cases : UInt8 → Case Value) (tag : UInt8) : Case (List (UInt8 × Bytes)) :=
  match cases tag with
  | .pass => .pass
  | .jump width => .jump width
  | .field width _ => .field width fun v fields => fields ++ [(tag, v)]
  | .limit width limit => .limit width limit
  | .stop => .stop

def fieldsRead (cases : UInt8 → Case Value) (str : Bytes) (limit : Int) :
    Except Overrun (List (UInt8 × Bytes)) :=
  readAll (recording cases) str limit []

def stored (cases : UInt8 → Case Value) (value : Value) (r : Reading (List (UInt8 × Bytes))) :
    Reading Value :=
  ⟨r.i, r.limit, r.value.foldl (storeField cases) value⟩

variable {cases : UInt8 → Case Value} {str : Bytes} {value : Value}

theorem body_recorded (r : Reading (List (UInt8 × Bytes))) :
    body cases str (stored cases value r) =
      (body (recording cases) str r).map (stored cases value) := by
  simp only [body, stored]
  cases here : str[r.i]? with
  | none => rfl
  | some tag =>
    simp only [recording]
    cases known : cases tag with
    | pass | jump width | stop => rfl
    | field width store =>
      by_cases inside : r.i + 1 + width ≤ str.length
      · simp [inside, Except.map, stored, storeField, known]
      · simp [inside, Except.map]
    | limit width limit =>
      by_cases inside : r.i + 1 + width ≤ str.length
      · simp [inside, Except.map, stored]
      · simp [inside, Except.map]

/-- By induction on what is left of the string. -/
theorem readFrom_recorded (r : Reading (List (UInt8 × Bytes))) :
    readFrom cases str (stored cases value r) =
      (readFrom (recording cases) str r).map (stored cases value) := by
  induction left : str.length - r.i using Nat.strongRecOn generalizing r with
  | ind n ih =>
    by_cases reached : r.limit ≤ r.i
    · rw [readFrom_done reached]
      exact readFrom_done (s := stored cases value r) reached
    have more : (r.i : Int) < r.limit := by omega
    have same : body cases str (stored cases value r) = _ := body_recorded r
    cases pass : body (recording cases) str r with
    | error e =>
      rw [pass] at same
      rw [readFrom_error more pass]
      exact readFrom_error (s := stored cases value r) more same
    | ok t =>
      rw [pass] at same
      have advance := body_advances pass
      rw [readFrom_pass more pass, ← ih _ (by omega) t rfl]
      exact readFrom_pass (s := stored cases value r) more same

theorem readAll_eq_stored (limit : Int) (value : Value) :
    readAll cases str limit value =
      (fieldsRead cases str limit).map fun fields => fields.foldl (storeField cases) value := by
  have same : readFrom cases str ⟨0, limit, value⟩ =
      (readFrom (recording cases) str ⟨0, limit, []⟩).map (stored cases value) :=
    readFrom_recorded ⟨0, limit, []⟩
  rw [fieldsRead, readAll, readAll, same]
  cases readFrom (recording cases) str ⟨0, limit, []⟩ <;> rfl

theorem fieldsRead_complete {limit : Int} {fields : List (UInt8 × Bytes)}
    (read : fieldsRead cases str limit = .ok fields) : ∀ f ∈ fields, Complete cases f := by
  refine readAll_keeps (fun fields => ∀ f ∈ fields, Complete cases f) ?_ (by simp) read
  intro tag width store known field fields size complete f mem
  unfold recording at known
  split at known
  case h_3 w put found =>
    simp only [Case.field.injEq] at known
    obtain ⟨rfl, rfl⟩ := known
    rcases List.mem_append.mp mem with old | new
    · exact complete f old
    · rw [List.mem_singleton] at new
      subst new
      exact ⟨put, by rw [found, size]⟩
  all_goals cases known

def lastField (tag : UInt8) (fields : List (UInt8 × Bytes)) : Option Bytes :=
  (fields.filter fun f => f.1 = tag).getLast?.map Prod.snd

theorem stored_last {part : Value → α} {tag : UInt8} {brought : Bytes → α} (fields : List (UInt8 × Bytes))
    (own : ∀ v x, (tag, v) ∈ fields → part (storeField cases x (tag, v)) = brought v)
    (others : ∀ f x, f.1 ≠ tag → part (storeField cases x f) = part x) (value : Value) :
    part (fields.foldl (storeField cases) value) =
      ((lastField tag fields).map brought).getD (part value) := by
  induction fields using List.reverseRecOn with
  | nil => rfl
  | append_singleton fields f ih =>
    rw [List.foldl_append, List.foldl_cons, List.foldl_nil]
    by_cases here : f.1 = tag
    · obtain ⟨t, v⟩ := f
      simp only at here
      subst here
      simp [own, lastField]
    · rw [others f _ here, ih fun v x mem => own v x (List.mem_append_left _ mem)]
      simp [lastField, here]

end TagStream
