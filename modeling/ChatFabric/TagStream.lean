import ChatFabric.ByteStrings
import ChatFabric.WhileLoop

/- Strings of tagged fields read by a loop that switches on a one-byte tag. A tag
   fixes how many bytes follow it; a byte the switch has no case for is passed
   over alone, so the bytes after it are taken for tags. The limit of the loop is
   a number the string itself may change, not the length of the string. -/
namespace TagStream
open ByteStrings WhileLoop
variable {Value : Type}

inductive Overrun where
  | readPastEnd
  deriving DecidableEq

/-- What the switch does at one tag. -/
inductive Case (Value : Type) where
  | pass
  | jump (width : Nat)
  | field (width : Nat) (store : Bytes → Value → Value)
  | limit (width : Nat) (limit : Bytes → Int)
  | stop

structure Reading (Value : Type) where
  i : Nat
  limit : Int
  value : Value

def guard (s : Reading Value) : Bool := decide ((s.i : Int) < s.limit)

def body (cases : UInt8 → Case Value) (str : Bytes) (s : Reading Value) :
    Except Overrun (Reading Value) :=
  match str[s.i]? with
  | none => .error .readPastEnd
  | some t =>
    match cases t with
    | .pass => .ok { s with i := s.i + 1 }
    | .jump width => .ok { s with i := s.i + 1 + width }
    | .field width store =>
      if s.i + 1 + width ≤ str.length then
        .ok { s with i := s.i + 1 + width, value := store (slice str (s.i + 1) width) s.value }
      else .error .readPastEnd
    | .limit width limit =>
      if s.i + 1 + width ≤ str.length then
        .ok { s with i := s.i + 1 + width, limit := limit (slice str (s.i + 1) width) }
      else .error .readPastEnd
    | .stop => .ok { s with i := s.i + 1, limit := (s.i + 1 : Nat) }

def readFrom (cases : UInt8 → Case Value) (str : Bytes) (s : Reading Value) :
    Except Overrun (Reading Value) :=
  (iterate guard (body cases str) (str.length + 1) s).getD (.error .readPastEnd)

def readAll (cases : UInt8 → Case Value) (str : Bytes) (limit : Int) (value : Value) :
    Except Overrun Value :=
  (readFrom cases str ⟨0, limit, value⟩).map Reading.value

def fieldBytes (fields : List (UInt8 × Bytes)) : Bytes := fields.flatMap fun f => f.1 :: f.2

def storeField (cases : UInt8 → Case Value) (value : Value) (f : UInt8 × Bytes) : Value :=
  match cases f.1 with
  | .field _ store => store f.2 value
  | _ => value

def Complete (cases : UInt8 → Case Value) (f : UInt8 × Bytes) : Prop :=
  ∃ store, cases f.1 = .field f.2.length store

variable {cases : UInt8 → Case Value} {str : Bytes}

theorem body_advances {s t : Reading Value} (pass : body cases str s = .ok t) :
    s.i < str.length ∧ s.i < t.i := by
  unfold body at pass
  split at pass
  · cases pass
  · rename_i tag here
    have inside := (List.getElem?_eq_some_iff.mp here).1
    refine ⟨inside, ?_⟩
    split at pass
    · cases pass; simp
    · cases pass; simp; omega
    · split at pass
      · cases pass; simp; omega
      · cases pass
    · split at pass
      · cases pass; simp; omega
      · cases pass
    · cases pass; simp

/-- The loop ends within its fuel whatever lengths the string declares: every pass
    reads a byte of the string further on. -/
theorem iterate_total_within (cases : UInt8 → Case Value) (str : Bytes) (s : Reading Value)
    {fuel : Nat} (enough : str.length - s.i < fuel) :
    ∃ r, iterate guard (body cases str) fuel s = some r := by
  refine iterate_total (fun t => str.length - t.i) ?_ enough
  intro t u _ pass
  have := body_advances pass.2
  omega

theorem readFrom_eq {s : Reading Value} {r : Except Overrun (Reading Value)} {fuel : Nat}
    (run : iterate guard (body cases str) fuel s = some r) : readFrom cases str s = r := by
  obtain ⟨q, runs⟩ := iterate_total_within cases str s (by omega : str.length - s.i < str.length + 1)
  have first := iterate_mono run (Nat.le_max_left fuel (str.length + 1))
  have second := iterate_mono runs (Nat.le_max_right fuel (str.length + 1))
  have same : r = q := Option.some.inj (first.symm.trans second)
  simp [readFrom, runs, same]

theorem readFrom_done {s : Reading Value} (done : s.limit ≤ s.i) : readFrom cases str s = .ok s := by
  exact readFrom_eq (iterate_done (by simp [guard, done]) 0)

theorem readFrom_pass {s t : Reading Value} (more : (s.i : Int) < s.limit)
    (pass : body cases str s = .ok t) : readFrom cases str s = readFrom cases str t := by
  obtain ⟨r, run⟩ := iterate_total_within cases str t (by omega : str.length - t.i < str.length + 1)
  have more' : guard s = true := by simp [guard, more]
  rw [readFrom_eq run]
  exact readFrom_eq ((iterate_pass ⟨more', pass⟩ _).trans run)

theorem readFrom_field {s : Reading Value} {tag : UInt8} {field rest : Bytes} {width : Nat}
    {store : Bytes → Value → Value} (known : cases tag = .field width store)
    (size : field.length = width) (here : str.drop s.i = tag :: field ++ rest)
    (more : (s.i : Int) < s.limit) :
    readFrom cases str s =
      readFrom cases str { s with i := s.i + 1 + width, value := store field s.value } := by
  refine readFrom_pass more ?_
  have tagHere := getElem?_of_drop here
  have after := drop_succ_of_drop here
  have inside : s.i + 1 + width ≤ str.length := by
    have sizes := congrArg List.length here
    simp only [List.length_drop, List.length_append, List.length_cons] at sizes
    omega
  have read : slice str (s.i + 1) width = field := by
    rw [← size]
    exact slice_of_drop after
  simp [body, tagHere, known, inside, read]

theorem readFrom_fields {fields : List (UInt8 × Bytes)} (complete : ∀ f ∈ fields, Complete cases f)
    {s : Reading Value} {rest : Bytes} (here : str.drop s.i = fieldBytes fields ++ rest)
    (more : (s.i : Int) + (fieldBytes fields).length ≤ s.limit) :
    readFrom cases str s = readFrom cases str { s with
      i := s.i + (fieldBytes fields).length, value := fields.foldl (storeField cases) s.value } := by
  induction fields generalizing s with
  | nil => simp [fieldBytes]
  | cons f fields ih =>
    obtain ⟨store, known⟩ := complete f (by simp)
    have split : fieldBytes (f :: fields) = f.1 :: f.2 ++ fieldBytes fields := by simp [fieldBytes]
    rw [split] at here more ⊢
    simp only [List.length_append, List.length_cons] at more
    have field : str.drop s.i = f.1 :: f.2 ++ (fieldBytes fields ++ rest) := by
      simpa using here
    rw [readFrom_field known rfl field (by omega)]
    have after : str.drop (s.i + 1 + f.2.length) = fieldBytes fields ++ rest := by
      have := drop_after field
      rwa [List.length_cons, Nat.add_comm f.2.length, ← Nat.add_assoc] at this
    rw [ih (fun g mem => complete g (by simp [mem])) after (by
      simp only [Int.natCast_add]
      omega)]
    have stored : storeField cases s.value f = store f.2 s.value := by simp [storeField, known]
    simp only [List.foldl_cons, stored, List.length_append, List.length_cons]
    congr 2
    omega

theorem readFrom_jump {s : Reading Value} {tag : UInt8} {rest : Bytes} {width : Nat}
    (known : cases tag = .jump width) (here : str.drop s.i = tag :: rest)
    (more : (s.i : Int) < s.limit) :
    readFrom cases str s = readFrom cases str { s with i := s.i + 1 + width } := by
  refine readFrom_pass more ?_
  simp [body, getElem?_of_drop here, known]

theorem readFrom_limit {s : Reading Value} {tag : UInt8} {field rest : Bytes}
    {limit : Bytes → Int} (known : cases tag = .limit field.length limit)
    (here : str.drop s.i = tag :: field ++ rest) (more : (s.i : Int) < s.limit) :
    readFrom cases str s =
      readFrom cases str { s with i := s.i + 1 + field.length, limit := limit field } := by
  refine readFrom_pass more ?_
  have after := drop_succ_of_drop here
  have inside : s.i + 1 + field.length ≤ str.length := by
    have sizes := congrArg List.length here
    simp only [List.length_drop, List.length_append, List.length_cons] at sizes
    omega
  have read : slice str (s.i + 1) field.length = field := slice_of_drop after
  simp [body, getElem?_of_drop here, known, inside, read]

theorem readFrom_passes {s : Reading Value} {skipped rest : Bytes}
    (unknown : ∀ b ∈ skipped, cases b = .pass) (here : str.drop s.i = skipped ++ rest)
    (more : (s.i : Int) + skipped.length ≤ s.limit) :
    readFrom cases str s = readFrom cases str { s with i := s.i + skipped.length } := by
  induction skipped generalizing s with
  | nil => simp
  | cons b skipped ih =>
    simp only [List.length_cons] at more
    have pass : body cases str s = .ok { s with i := s.i + 1 } := by
      simp [body, getElem?_of_drop here, unknown b (by simp)]
    have room : ((s.i + 1 : Nat) : Int) + skipped.length ≤ s.limit := by omega
    rw [readFrom_pass (by omega) pass,
      ih (s := { s with i := s.i + 1 }) (fun c mem => unknown c (by simp [mem]))
        (drop_succ_of_drop here) room]
    simp only [List.length_cons, Nat.add_assoc, Nat.add_comm 1]

theorem readFrom_stop {s : Reading Value} {tag : UInt8} {rest : Bytes} (known : cases tag = .stop)
    (here : str.drop s.i = tag :: rest) (more : (s.i : Int) < s.limit) :
    readFrom cases str s = .ok { s with i := s.i + 1, limit := (s.i + 1 : Nat) } := by
  have pass : body cases str s = .ok { s with i := s.i + 1, limit := (s.i + 1 : Nat) } := by
    simp [body, getElem?_of_drop here, known]
  rw [readFrom_pass more pass]
  exact readFrom_done (by simp)

theorem readAll_keeps (Same : Value → Prop)
    (keep : ∀ b width store, cases b = .field width store → ∀ field v, field.length = width →
      Same v → Same (store field v))
    {limit : Int} {v w : Value} (start : Same v) (result : readAll cases str limit v = .ok w) :
    Same w := by
  obtain ⟨r, run⟩ := iterate_total_within cases str ⟨0, limit, v⟩ (Nat.lt_succ_self str.length)
  rw [readAll, readFrom_eq run] at result
  obtain ⟨t, reach, ⟨_, rfl⟩ | ⟨_, e, _, rfl⟩⟩ := iterate_result run
  · cases result
    refine reaches_invariant (fun s => Same s.value) reach start ?_
    intro s u same ⟨_, pass⟩
    unfold body at pass
    split at pass
    · cases pass
    · split at pass
      · cases pass; exact same
      · cases pass; exact same
      · rename_i width store known
        split at pass
        · rename_i inside
          cases pass
          exact keep _ width store known _ _ (length_slice inside) same
        · cases pass
      · split at pass
        · cases pass; exact same
        · cases pass
      · cases pass; exact same
  · cases result

structure Alike (R : Value → Value → Prop) (start : Nat) (s t : Reading Value) : Prop where
  behind : start ≤ s.i
  place : t.i = s.i
  limit : t.limit = s.limit
  value : R s.value t.value

theorem body_related {R : Value → Value → Prop} {other : Bytes} {start : Nat}
    (tail : other.drop start = str.drop start) (size : other.length = str.length)
    (keep : ∀ b width store, cases b = .field width store →
      ∀ field v w, R v w → R (store field v) (store field w))
    {s t u : Reading Value} (alike : Alike R start s t) (pass : body cases str s = .ok u) :
    ∃ v, body cases other t = .ok v ∧ Alike R start u v := by
  obtain ⟨_, _, v⟩ := s
  obtain ⟨i, limit, w⟩ := t
  obtain ⟨behind, place, same, related⟩ := alike
  simp only at behind place same related
  subst place same
  have tagHere : other[i]? = str[i]? := by
    have same := congrArg (fun l => l[i - start]?) tail
    simpa only [List.getElem?_drop, Nat.add_sub_cancel' behind] using same
  have fieldHere (width : Nat) : slice other (i + 1) width = slice str (i + 1) width := by
    have same := congrArg (List.drop (i + 1 - start)) tail
    simp only [List.drop_drop, show start + (i + 1 - start) = i + 1 by omega] at same
    rw [slice, same, slice]
  simp only [body, tagHere, fieldHere, size] at pass ⊢
  cases here : str[i]? with
  | none => simp [here] at pass
  | some tag =>
    simp only [here] at pass ⊢
    cases known : cases tag with
    | pass | jump | stop =>
      simp only [known] at pass ⊢
      cases pass
      exact ⟨_, rfl, by simp only; omega, rfl, rfl, related⟩
    | field width store =>
      simp only [known] at pass ⊢
      split at pass
      · rename_i inside
        cases pass
        exact ⟨_, if_pos inside, by simp only; omega, rfl, rfl, keep _ _ _ known _ _ _ related⟩
      · cases pass
    | limit width next =>
      simp only [known] at pass ⊢
      split at pass
      · rename_i inside
        cases pass
        exact ⟨_, if_pos inside, by simp only; omega, rfl, rfl, related⟩
      · cases pass

theorem readFrom_related {R : Value → Value → Prop} {other : Bytes} {start : Nat} {limit : Int}
    {v w : Value} (tail : other.drop start = str.drop start) (size : other.length = str.length)
    (keep : ∀ b width store, cases b = .field width store →
      ∀ field v w, R v w → R (store field v) (store field w))
    (related : R v w) {r : Reading Value} (run : readFrom cases str ⟨start, limit, v⟩ = .ok r) :
    ∃ q, readFrom cases other ⟨start, limit, w⟩ = .ok q ∧ R r.value q.value := by
  obtain ⟨stop, ran⟩ := iterate_total_within cases str ⟨start, limit, v⟩
    (Nat.lt_succ_of_le (Nat.sub_le _ _))
  rw [readFrom_eq ran] at run
  subst run
  have guards : ∀ s t, Alike R start s t → guard t = guard s := by
    intro s t alike
    simp only [guard, alike.place, alike.limit]
  have first : Alike R start ⟨start, limit, v⟩ ⟨start, limit, w⟩ := ⟨Nat.le_refl _, rfl, rfl, related⟩
  obtain ⟨q, reads, alike⟩ :=
    iterate_simulates guards (fun _ _ _ => body_related tail size keep) first ran
  exact ⟨q, readFrom_eq reads, alike.value⟩

end TagStream
