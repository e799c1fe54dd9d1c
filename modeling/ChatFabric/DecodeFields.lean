import ChatFabric.DecodeRuns
import ChatFabric.EncodeLengths

/- What the decoder makes of the fields of a packet that is there as it was encoded. -/
namespace ChatFabric
open ByteStrings WhileLoop TagStream

/-- What is left of the packet at the cursor. The buffer may go on behind it. -/
structure Ahead (b : Bytes) (len : Nat) (s : Decoding) (rest : Bytes) : Prop where
  here : ∃ beyond, b.drop s.i = rest ++ beyond
  size : s.i + rest.length = len

variable {env : DecodeEnv} {b : Bytes} {len : Nat}

namespace Ahead
variable {s : Decoding} {rest : Bytes}

theorem inside (ahead : Ahead b len s rest) (short : len ≤ b.length) :
    ∃ beyond, b.drop s.i = rest ++ beyond ∧ s.i + rest.length + beyond.length = b.length := by
  obtain ⟨beyond, here⟩ := ahead.here
  have size := ahead.size
  exact ⟨beyond, here, inside_of_drop (by omega) here⟩

theorem past {first : Bytes} {t : Decoding} (ahead : Ahead b len s (first ++ rest))
    (moved : t.i = s.i + first.length) : Ahead b len t rest := by
  obtain ⟨beyond, here⟩ := ahead.here
  have size := ahead.size
  rw [List.append_assoc] at here
  simp only [List.length_append] at size
  exact ⟨⟨beyond, by rw [moved]; exact drop_after here⟩, by omega⟩

end Ahead

structure AtTag (b : Bytes) (len : Nat) (s : Decoding) (tag : Tag) (rest : Bytes) : Prop where
  inside : s.i < len
  here : b[s.i]? = some tag.toByte
  index : advance s.i 1 = s.i + 1
  behind : Ahead b len { s with i := s.i + 1 } rest

theorem Ahead.atTag {s : Decoding} {tag : Tag} {rest : Bytes} (ahead : Ahead b len s (tag.toByte :: rest))
    (small : len < 2 ^ 32) : AtTag b len s tag rest := by
  have size := ahead.size
  obtain ⟨beyond, here⟩ := ahead.here
  simp only [List.length_cons] at size
  exact {
    inside := by omega
    here := getElem?_of_drop here
    index := Nat.mod_eq_of_lt (by omega)
    behind := (show Ahead b len s ([tag.toByte] ++ rest) from ahead).past rfl }

namespace AtTag
variable {s : Decoding} {tag : Tag} {rest : Bytes}

theorem case (tagged : AtTag b len s tag rest) (env : DecodeEnv) :
    Iteration.case env ⟨b, len, s⟩ = some (tagCase env { s with i := s.i + 1 } tag) := by
  simp only [Iteration.case, Iteration.afterTag, tagged.here, tagged.index, Option.map_some, byteCase,
    Tag.ofByte_toByte]

theorem body (tagged : AtTag b len s tag rest) (env : DecodeEnv) (again : DecodeCall) :
    decodeBody env again b s = decodeCase env again b { s with i := s.i + 1 }
      (tagCase env { s with i := s.i + 1 } tag) := by
  rw [decodeBody_eq again ⟨b, len, s⟩, tagged.case env]
  simp only [Iteration.afterTag, tagged.index]

end AtTag

theorem readAt_ahead {s : Decoding} {v rest : Bytes} (ahead : Ahead b len s (v ++ rest))
    (short : len ≤ b.length) :
    readAt b s.i v.length = .ok v := by
  obtain ⟨beyond, here, size⟩ := ahead.inside short
  simp only [List.length_append] at size
  rw [List.append_assoc] at here
  rw [readAt, if_pos (.inr (by omega)), slice_of_drop here]

theorem pass_field (again : DecodeCall) {s t : Decoding} {tag : Tag} {v rest : Bytes}
    {store : Bytes → Decoding → Except Fault Decoding}
    (ahead : Ahead b len s (tag.toByte :: v ++ rest)) (short : len ≤ b.length) (small : len < 2 ^ 32)
    (known : tagCase env { s with i := s.i + 1 } tag = .copy v.length v.length store)
    (stored : store v { s with i := s.i + 1 } = .ok t) :
    Pass (decodeGuard len) (decodeBody env again b) s { t with i := s.i + 1 + v.length } ∧
      Ahead b len { t with i := s.i + 1 + v.length } rest := by
  have tagged : AtTag b len s tag (v ++ rest) := ahead.atTag small
  have size := tagged.behind.size
  simp only [List.length_append] at size
  have moved : advance (s.i + 1) v.length = s.i + 1 + v.length := Nat.mod_eq_of_lt (by omega)
  refine ⟨⟨decide_eq_true tagged.inside, ?_⟩, tagged.behind.past rfl⟩
  rw [tagged.body, known]
  simp only [decodeCase, decodeCopy, readAt_ahead tagged.behind short, stored, moved, bind, Except.bind,
    Except.mapError]

theorem stop_field (again : DecodeCall) {s : Decoding} {tag : Tag} {v rest : Bytes} {f : Fault}
    {store : Bytes → Decoding → Except Fault Decoding}
    (ahead : Ahead b len s (tag.toByte :: v ++ rest)) (short : len ≤ b.length) (small : len < 2 ^ 32)
    (known : tagCase env { s with i := s.i + 1 } tag = .copy v.length v.length store)
    (fails : store v { s with i := s.i + 1 } = .error f) :
    s.i < len ∧ decodeBody env again b s = .error (.fault f) := by
  have tagged : AtTag b len s tag (v ++ rest) := ahead.atTag small
  refine ⟨tagged.inside, ?_⟩
  rw [tagged.body, known]
  simp only [decodeCase, decodeCopy, readAt_ahead tagged.behind short, fails, bind, Except.bind,
    Except.mapError]

/-- A field of the packet: its tag, its bytes, and where they are stored. -/
structure Field where
  tag : Tag
  value : Bytes
  store : Bytes → ChatPacket → ChatPacket

namespace Field

def bytes (f : Field) : Bytes := f.tag.toByte :: f.value

def Known (env : DecodeEnv) (f : Field) : Prop :=
  ∀ s, tagCase env s f.tag = .field f.value.length f.store

end Field

theorem reads_fields (again : DecodeCall) {fields : List Field}
    (each : ∀ f ∈ fields, f.Known env) {s : Decoding} {rest : Bytes}
    (ahead : Ahead b len s (fields.flatMap Field.bytes ++ rest))
    (short : len ≤ b.length) (small : len < 2 ^ 32) :
    ∃ i, Reaches (decodeGuard len) (decodeBody env again b) s
        { s with i := i, cp := fields.foldl (fun cp f => f.store f.value cp) s.cp } ∧
      Ahead b len { s with i := i, cp := fields.foldl (fun cp f => f.store f.value cp) s.cp } rest := by
  induction fields generalizing s with
  | nil => exact ⟨s.i, .refl, (show Ahead b len s ([] ++ rest) from ahead).past rfl⟩
  | cons f fields ih =>
    have known := each f (by simp)
    have front : Ahead b len s (f.tag.toByte :: f.value ++ (fields.flatMap Field.bytes ++ rest)) := by
      simpa [Field.bytes] using ahead
    obtain ⟨pass, later⟩ := pass_field again front short small (known _) rfl
    obtain ⟨i, reach, after⟩ := ih (fun g member => each g (by simp [member])) later
    exact ⟨i, .head pass reach, after⟩

end ChatFabric
