import Mathlib.Data.List.Perm.Subperm
import Mathlib.Logic.Function.Basic
import ChatFabric.DecodeFields

/- The tags whose fields can come in any order. A field of theirs has one width, and is read
   without regard to any other field; what is decoded are the values by tag. -/
namespace FieldOrder
open ByteStrings WhileLoop ChatFabric

def freeTags : List Tag :=
  [.cmd, .serial, .nonce, .envelopeLength, .to0, .to1, .from0, .from1, .flags, .payloadLength,
   .envelopeRandomPaddingLength, .payloadRandomPaddingLength, .publickey, .action, .actionControl,
   .actionType, .actionValue, .actionLength]

def width : Tag → Nat
  | .nonce => 8
  | .to0 | .to1 | .from0 | .from1 => 16
  | .envelopeRandomPaddingLength | .payloadRandomPaddingLength => 1
  | .publickey => 32
  | _ => 4

structure FreeField where
  tag : Tag
  value : Bytes
  free : tag ∈ freeTags
  size : value.length = width tag

def FreeField.bytes (f : FreeField) : Bytes := f.tag.toByte :: f.value

def message (fields : List FreeField) : Bytes := fields.flatMap FreeField.bytes

abbrev Values := Tag → Option Bytes

def note (values : Values) (f : FreeField) : Values := Function.update values f.tag (some f.value)

def valuesOf (fields : List FreeField) : Values := fields.foldl note fun _ => none

def withValues (cp : ChatPacket) (values : Values) : ChatPacket :=
  let word (tag : Tag) (old : UInt32) : UInt32 := ((values tag).map ofBe32).getD old
  { cp with
    cmd := ((values .cmd).map fun v => Command.ofCode (ofBe32 v)).getD cp.cmd
    serial := word .serial cp.serial
    nonce := ((values .nonce).map (.ofBytes 8)).getD cp.nonce
    envelopeLength := word .envelopeLength cp.envelopeLength
    toUuid := ⟨((values .to0).map (.ofBytes 16)).getD cp.toUuid.u0,
      ((values .to1).map (.ofBytes 16)).getD cp.toUuid.u1⟩
    fromUuid := ⟨((values .from0).map (.ofBytes 16)).getD cp.fromUuid.u0,
      ((values .from1).map (.ofBytes 16)).getD cp.fromUuid.u1⟩
    flags := word .flags cp.flags
    payloadLength := word .payloadLength cp.payloadLength
    payload := match values .payloadLength with
      | some v => if cp.payloadLength < ofBe32 v then some (List.replicate (ofBe32 v).toNat 0) else cp.payload
      | none => cp.payload
    envelopeRandomPaddingLength :=
      ((values .envelopeRandomPaddingLength).map (·.headD 0)).getD cp.envelopeRandomPaddingLength
    payloadRandomPaddingLength :=
      ((values .payloadRandomPaddingLength).map (·.headD 0)).getD cp.payloadRandomPaddingLength
    publickey := ((values .publickey).map (.ofBytes 32)).getD cp.publickey
    action := word .action cp.action
    actionControl := word .actionControl cp.actionControl
    actionType := word .actionType cp.actionType
    actionValue := ((values .actionValue).map fun v => (ofBe32 v).toInt32).getD cp.actionValue
    actionLength := word .actionLength cp.actionLength
    actionData := match values .actionLength with
      | some v => if 0 < ofBe32 v then some (List.replicate (ofBe32 v).toNat 0) else cp.actionData
      | none => cp.actionData }

/-- A buffer that is as it should be, or that there was no memory for. -/
def Allocated (env : DecodeEnv) (buffer got : Option Bytes) : Prop :=
  got = buffer ∨ got = none ∧ ∃ n, env.alloc n = false

structure Gathers (env : DecodeEnv) (cp : ChatPacket) (values : Values) (got : ChatPacket) : Prop where
  others : got = { withValues cp values with payload := got.payload, actionData := got.actionData }
  payload : Allocated env (withValues cp values).payload got.payload
  actionData : Allocated env (withValues cp values).actionData got.actionData

variable {env : DecodeEnv} {cp : ChatPacket} {values : Values} {fields : List FreeField}

theorem calloc_allocated (env : DecodeEnv) (n size : Nat) :
    Allocated env (some (List.replicate size 0)) (env.calloc n size) := by
  unfold DecodeEnv.calloc
  cases memory : env.alloc n with
  | true => exact .inl rfl
  | false => exact .inr ⟨rfl, n, memory⟩

theorem Gathers.eq {s : Decoding} (gathers : Gathers env cp values s.cp) :
    ∃ p d, s = { s with cp := { withValues cp values with payload := p, actionData := d } } ∧
      Allocated env (withValues cp values).payload p ∧
      Allocated env (withValues cp values).actionData d :=
  ⟨_, _, congrArg (fun q => { s with cp := q }) gathers.others, gathers.payload, gathers.actionData⟩

theorem Gathers.takes {s : Decoding} (gathers : Gathers env cp values s.cp) (f : FreeField)
    (first : values f.tag = none) :
    ∃ store t, tagCase env s f.tag = .copy (width f.tag) (width f.tag) store ∧
      store f.value s = .ok t ∧ Gathers env cp (note values f) t.cp := by
  obtain ⟨tag, v, free, size⟩ := f
  obtain ⟨p, d, same, payload, actionData⟩ := gathers.eq
  rw [same]
  cases tag with
  | payloadLength =>
    have untouched : (withValues cp values).payloadLength = cp.payloadLength := by
      simp only [withValues, first, Option.map_none, Option.getD_none]
    by_cases more : cp.payloadLength < ofBe32 v
    · refine ⟨_, _, rfl, if_pos (untouched ▸ more), rfl, ?_, actionData⟩
      simp only [withValues, note, Function.update_self, more, if_true]
      exact calloc_allocated env _ _
    · refine ⟨_, _, rfl, if_neg (untouched ▸ more), rfl, ?_, actionData⟩
      simp only [withValues, first] at payload
      simp only [withValues, note, Function.update_self, more, if_false]
      exact payload
  | actionLength =>
    by_cases some : 0 < ofBe32 v
    · refine ⟨_, _, rfl, if_pos some, rfl, payload, ?_⟩
      simp only [withValues, note, Function.update_self, some, if_true]
      exact calloc_allocated env _ _
    · refine ⟨_, _, rfl, if_neg some, rfl, payload, ?_⟩
      simp only [withValues, first] at actionData
      simp only [withValues, note, Function.update_self, some, if_false]
      exact actionData
  | cmd | serial | nonce | envelopeLength | to0 | to1 | from0 | from1 | flags
  | envelopeRandomPaddingLength | payloadRandomPaddingLength | publickey | action | actionControl
  | actionType | actionValue =>
    exact ⟨_, _, rfl, rfl, rfl, payload, actionData⟩
  | _ => exact absurd free (by decide)

theorem length_bytes_le (f : FreeField) : f.bytes.length ≤ 33 := by
  have wide : ∀ tag ∈ freeTags, width tag ≤ 32 := by decide
  have narrow := wide f.tag f.free
  simp only [FreeField.bytes, List.length_cons, f.size]
  omega

theorem length_message_le (fields : List FreeField) : (message fields).length ≤ 33 * fields.length := by
  induction fields with
  | nil => rfl
  | cons f rest ih =>
    have first := length_bytes_le f
    simp only [message, List.flatMap_cons, List.length_append, List.length_cons] at ih ⊢
    omega

theorem length_message_small (apart : (fields.map FreeField.tag).Nodup) :
    (message fields).length < 2 ^ 32 := by
  have listed : fields.map FreeField.tag ⊆ freeTags := by
    intro tag member
    obtain ⟨f, _, rfl⟩ := List.mem_map.mp member
    exact f.free
  have few := (List.subperm_of_subset apart listed).length_le
  rw [List.length_map] at few
  have count : freeTags.length = 18 := rfl
  have bound := length_message_le fields
  omega

/-- The loop, from one field to the next: the tags that are still to come have no value yet. -/
theorem reads_free (again : DecodeCall) {b rest : Bytes} {len : Nat} {s : Decoding}
    (apart : (fields.map FreeField.tag).Nodup) (fresh : ∀ f ∈ fields, values f.tag = none)
    (ahead : Ahead b len s (message fields ++ rest)) (gathers : Gathers env cp values s.cp)
    (short : len ≤ b.length) (small : len < 2 ^ 32) :
    ∃ t, Reaches (decodeGuard len) (decodeBody env again b) s t ∧ Ahead b len t rest ∧
      Gathers env cp (fields.foldl note values) t.cp := by
  induction fields generalizing s values with
  | nil => exact ⟨s, .refl, ahead, gathers⟩
  | cons f fields ih =>
    simp only [List.map_cons, List.nodup_cons] at apart
    have first := fresh f List.mem_cons_self
    have entered : Gathers env cp values { s with i := s.i + 1 }.cp := gathers
    obtain ⟨store, t, known, stored, gathered⟩ := entered.takes f first
    rw [← f.size] at known
    have front : Ahead b len s (f.tag.toByte :: f.value ++ (message fields ++ rest)) := by
      simpa [message, FreeField.bytes] using ahead
    obtain ⟨pass, later⟩ := pass_field again front short small known stored
    have others : ∀ g ∈ fields, note values f g.tag = none := by
      intro g member
      have other : g.tag ≠ f.tag := by
        intro same
        exact apart.1 (same ▸ List.mem_map_of_mem member)
      rw [note, Function.update_of_ne other]
      exact fresh g (List.mem_cons_of_mem f member)
    obtain ⟨u, reach, after, done⟩ := ih apart.2 others later gathered
    exact ⟨u, .head pass reach, after, done⟩

theorem gathers_none (env : DecodeEnv) (cp : ChatPacket) : Gathers env cp (fun _ => none) cp :=
  ⟨rfl, .inl rfl, .inl rfl⟩

theorem decodes_free (env : DecodeEnv) (cp : ChatPacket) (allocs : Nat)
    (apart : (fields.map FreeField.tag).Nodup) :
    ∃ enough got n, Gathers env cp (valuesOf fields) got ∧ ∀ fuel, enough ≤ fuel →
      chatPacketDecode env fuel cp allocs (message fields) (message fields).length =
        .returned 0 got n := by
  have ahead : Ahead (message fields) (message fields).length (.start cp allocs)
      (message fields ++ []) := by
    rw [List.append_nil]
    exact ⟨⟨[], (List.append_nil _).symm⟩, Nat.zero_add _⟩
  obtain ⟨t, reach, after, gathers⟩ := reads_free (chatPacketDecode env 0) apart (fun _ _ => rfl) ahead
    (gathers_none env cp) (Nat.le_refl _) (length_message_small apart)
  have done : (message fields).length ≤ t.i := by
    have size := after.size
    simp only [List.length_nil] at size
    omega
  obtain ⟨enough, run⟩ := chatPacketDecode_done reach done
  refine ⟨enough, t.cp, t.allocs, gathers, ?_⟩
  intro fuel le
  exact (chatPacketDecode_mono le cp allocs _ _ (by simp [run])).trans run

/-- The values of fields of different tags do not depend on their order: noting one commutes
    with noting another. -/
theorem valuesOf_perm {fields' : List FreeField} (apart : (fields.map FreeField.tag).Nodup)
    (perm : fields.Perm fields') : valuesOf fields = valuesOf fields' := by
  apply perm.foldl_eq'
  intro f here g there values
  by_cases same : f.tag = g.tag
  · rw [List.inj_on_of_nodup_map apart here there same]
  · exact Function.update_comm same _ _ values

/-- Two packets decoded from one message, up to the addresses of their buffers: where they
    differ, one of them is NULL because there was no memory for it. -/
structure SamePacket (env env' : DecodeEnv) (got got' : ChatPacket) : Prop where
  others : got' = { got with payload := got'.payload, actionData := got'.actionData }
  payload : ∃ p, Allocated env p got.payload ∧ Allocated env' p got'.payload
  actionData : ∃ d, Allocated env d got.actionData ∧ Allocated env' d got'.actionData

theorem Gathers.same {env' : DecodeEnv} {got got' : ChatPacket} (gathers : Gathers env cp values got)
    (gathers' : Gathers env' cp values got') : SamePacket env env' got got' := by
  refine ⟨?_, ⟨_, gathers.payload, gathers'.payload⟩, ⟨_, gathers.actionData, gathers'.actionData⟩⟩
  rw [gathers'.others, gathers.others]

theorem SamePacket.eq {env' : DecodeEnv} {got got' : ChatPacket} (same : SamePacket env env' got got')
    (memory : ∀ n, env.alloc n = true) (memory' : ∀ n, env'.alloc n = true) : got' = got := by
  have whole {e : DecodeEnv} {p q : Option Bytes} (always : ∀ n, e.alloc n = true)
      (allocated : Allocated e p q) : q = p := by
    rcases allocated with kept | ⟨_, n, failed⟩
    · exact kept
    · cases (always n).symm.trans failed
  obtain ⟨p, payload, payload'⟩ := same.payload
  obtain ⟨d, data, data'⟩ := same.actionData
  rw [same.others, whole memory' payload', whole memory' data', ← whole memory payload,
    ← whole memory data]

/-- Complete fields of pairwise different tags are decoded in any order, by any two calls, to
    one packet. -/
theorem decoded_in_any_order (env env' : DecodeEnv) (cp : ChatPacket) (allocs allocs' : Nat)
    {fields fields' : List FreeField} (apart : (fields.map FreeField.tag).Nodup)
    (perm : fields.Perm fields') :
    ∃ enough got got' n n',
      (∀ fuel, enough ≤ fuel →
        chatPacketDecode env fuel cp allocs (message fields) (message fields).length =
          .returned 0 got n ∧
        chatPacketDecode env' fuel cp allocs' (message fields') (message fields').length =
          .returned 0 got' n') ∧
      SamePacket env env' got got' ∧
      ((∀ n, env.alloc n = true) → (∀ n, env'.alloc n = true) → got' = got) := by
  have apart' : (fields'.map FreeField.tag).Nodup := (perm.map FreeField.tag).nodup_iff.mp apart
  obtain ⟨enough, got, n, gathers, run⟩ := decodes_free env cp allocs apart
  obtain ⟨enough', got', n', gathers', run'⟩ := decodes_free env' cp allocs' apart'
  rw [← valuesOf_perm apart perm] at gathers'
  have same := gathers.same gathers'
  refine ⟨max enough enough', got, got', n, n', ?_, same, same.eq⟩
  intro fuel le
  exact ⟨run fuel (by omega), run' fuel (by omega)⟩

def lengths : List FreeField :=
  [⟨.payloadLength, [0, 0, 0, 2], by decide, rfl⟩, ⟨.actionLength, [0, 0, 0, 1], by decide, rfl⟩]

def roomy : DecodeEnv := ⟨default, default, fun _ => true, fun _ _ => ⟨0, 0, 0, 0, 0, 0, none, none⟩⟩

theorem decoded_in_any_order_lengths :
    ∃ enough got n n', ∀ fuel, enough ≤ fuel →
      chatPacketDecode roomy fuel (chatPacketInit0 default) 0 (message lengths) (message lengths).length =
        .returned 0 got n ∧
      chatPacketDecode roomy fuel (chatPacketInit0 default) 0 (message lengths.reverse)
        (message lengths.reverse).length = .returned 0 got n' := by
  obtain ⟨enough, got, got', n, n', runs, _, same⟩ := decoded_in_any_order roomy roomy
    (chatPacketInit0 default) 0 0 (by decide) lengths.reverse_perm.symm
  obtain rfl := same (fun _ => rfl) (fun _ => rfl)
  exact ⟨enough, got', n, n', runs⟩

end FieldOrder
