import ChatFabric.DecodeTrace
import ChatFabric.PacketInit

/- Where the cursor of the decoder goes. Every tag moves it past what the tag reads,
   except action_data, which moves it by the length of another field. -/
namespace DecodeTermination
open ByteStrings WhileLoop ChatFabric DecodeTrace

variable {env : DecodeEnv}

theorem readAt_ok {b v : Bytes} {start count : Nat} (read : readAt b start count = .ok v) :
    v.length = count ∧ (count = 0 ∨ start + count ≤ b.length) := by
  unfold readAt at read
  split at read
  · rename_i inside
    cases read
    refine ⟨?_, inside⟩
    rcases inside with none | fits
    · simp [none, slice]
    · exact length_slice fits
  · cases read

theorem readAt_fails_iff {b : Bytes} {start count : Nat} {f : Fault} :
    readAt b start count = .error f ↔
      f = .inputRead ∧ ¬ (count = 0 ∨ start + count ≤ b.length) := by
  unfold readAt
  split
  · rename_i inside
    simp [inside]
  · rename_i outside
    simp [outside, eq_comm]

theorem memcpyTo_ok {overflow : Fault} {dest : Option Bytes} {v : Bytes} :
    (∃ d, memcpyTo overflow dest v = .ok d) ↔
      v = [] ∨ ∃ d, dest = some d ∧ v.length ≤ d.length := by
  unfold memcpyTo
  by_cases none : v = []
  · simp [none]
  · cases dest with
    | none => simp [none]
    | some d => by_cases fits : v.length ≤ d.length <;> simp [none, fits]

theorem memcpyTo_raises {overflow f : Fault} {dest : Option Bytes} {v : Bytes}
    (failed : memcpyTo overflow dest v = .error f) : f = .nullPointer ∨ f = overflow := by
  unfold memcpyTo at failed
  split at failed
  · cases failed
  · split at failed
    · exact .inl (Except.error.inj failed).symm
    · split at failed
      · cases failed
      · exact .inr (Except.error.inj failed).symm

theorem paddingAt_raises {block : Block 16} {start : Nat} {v : Bytes} {f : Fault}
    (failed : paddingAt block start v = .error f) : f = .paddingWrite := by
  unfold paddingAt at failed
  split at failed
  · cases failed
  · exact (Except.error.inj failed).symm

theorem setControl_raises {s : Decoding} {f : CfControl → CfControl} {fault : Fault}
    (failed : s.setControl f = .error fault) : fault = .nullPointer ∨ fault = .controlAccess := by
  unfold Decoding.setControl at failed
  split at failed
  · exact .inl (Except.error.inj failed).symm
  · split at failed
    · cases failed
    · exact .inr (Except.error.inj failed).symm

theorem control_raises {s : Decoding} {fault : Fault} (failed : s.control = .error fault) :
    fault = .nullPointer ∨ fault = .controlAccess := by
  unfold Decoding.control at failed
  split at failed
  · exact .inl (Except.error.inj failed).symm
  · split at failed
    · cases failed
    · exact .inr (Except.error.inj failed).symm

theorem advance_inside {i k n : Nat} (inside : i + k ≤ n) (short : n < 2 ^ 32) :
    advance i k = i + k := Nat.mod_eq_of_lt (by omega)

theorem decodeCopy_ok {b : Bytes} {s t : Decoding} {width move : Nat}
    {store : Bytes → Decoding → Except Fault Decoding} :
    decodeCopy b s width move store = .ok t ↔
      (width = 0 ∨ s.i + width ≤ b.length) ∧
        ∃ u, store (slice b s.i width) s = .ok u ∧ t = { u with i := advance s.i move } := by
  simp only [decodeCopy, bind, Except.bind, readAt]
  by_cases fits : width = 0 ∨ s.i + width ≤ b.length
  · simp only [if_pos fits]
    cases stored : store (slice b s.i width) s with
    | error f => simp
    | ok u => simp [fits, eq_comm]
  · simp [fits]

theorem verifySection_inside {b : Bytes} {i n : Nat} {length : UInt32}
    (short : b.length < 2 ^ 31) (verified : verifySection env b i length n = .ok true) :
    16 ≤ length.toNat ∧ i + length.toNat ≤ b.length := by
  have bound := length.toNat_lt
  have wraps : lessMac length = (2 ^ 32 - 16 + length.toNat) % 2 ^ 32 := by
    simp [lessMac, UInt32.toNat_sub]
  simp only [verifySection, bind, Except.bind] at verified
  split at verified
  · cases verified
  · rename_i message first
    have inside := (readAt_ok first).2
    split at verified
    · split at verified
      · cases verified
      · rename_i mac second
        have behind := (readAt_ok second).2
        simp only [macBytes] at behind
        omega
    · cases verified

theorem decryptSection_length {b plain : Bytes} {i n : Nat} {length : UInt32} {nonce : Block 8}
    (enough : 16 ≤ length.toNat) (result : decryptSection env b i length n nonce = .ok plain) :
    plain.length + 16 = length.toNat := by
  have less : lessMac length = length.toNat - 16 := by
    have le : (16 : UInt32) ≤ length := UInt32.le_iff_toNat_le.mpr enough
    rw [lessMac, UInt32.toNat_sub_of_le _ _ le]
    rfl
  simp only [decryptSection, bind, Except.bind] at result
  split at result
  · cases result
  · rename_i cipher read
    have size := (readAt_ok read).1
    split at result
    · cases result
      simp only [s20Crypt, Salsa20.length_crypt]
      omega
    · cases result

structure EntersPast (b : Bytes) (s t : Decoding) (decrypted : Bytes) : Prop where
  inside : s.i + (decrypted.length + 16) ≤ b.length
  cursor : t.i = s.i + (decrypted.length + 16)

theorem opens_past {b decrypted : Bytes} {s t : Decoding} {length : UInt32} {nonce : Block 8}
    (short : b.length < 2 ^ 31) (opens : Opens env b s.i length nonce t decrypted) :
    EntersPast b s t decrypted := by
  obtain ⟨⟨_, ran⟩, ⟨_, result⟩, cursor⟩ := opens
  obtain ⟨enough, inside⟩ := verifySection_inside short ran
  have size := decryptSection_length enough result
  exact ⟨by omega, by rw [cursor, size, advance_inside inside (by omega)]⟩

theorem opened_past {x : Iteration} {t : Decoding} {decrypted : Bytes}
    (short : x.b.length < 2 ^ 31) (enter : x.opened env = some (.ok (.section t decrypted))) :
    EntersPast x.b x.afterTag t decrypted := by
  simp only [Iteration.opened] at enter
  split at enter
  · exact opens_past short (openEnvelope_opens (Option.some.inj enter))
  · exact opens_past short (openPayload_opens (Option.some.inj enter))
  · cases enter

theorem visits_within {fuel allocs : Nat} {cp : ChatPacket} {b : Bytes} {x : Iteration}
    (short : b.length < 2 ^ 31) (visit : Visits env fuel cp allocs b b.length x) :
    x.len = x.b.length ∧ x.b.length ≤ b.length ∧ x.s.i < x.len := by
  generalize whole : b.length = len at visit short
  induction visit with
  | here reach more => exact ⟨whole.symm, Nat.le_of_eq whole, more⟩
  | @inside fuel allocs len cp b decrypted s t x reach more enter visit ih =>
    have past := (opened_past (x := ⟨b, len, s⟩) (by simpa [whole] using short) enter).inside
    simp only at past
    have ⟨same, le, inside⟩ := ih rfl (by omega)
    exact ⟨same, by omega, inside⟩

def Even : TagCase → Prop
  | .copy width move _ => move = width
  | _ => True

theorem padding_even (size : Nat) (store : Bytes → Decoding → Except Fault Decoding) :
    Even (.padding size store) := by
  unfold TagCase.padding
  split
  · trivial
  · rfl

theorem ofControl_even (s : Decoding) {copy : CfControl → TagCase} (each : ∀ c, Even (copy c)) :
    Even (.ofControl s copy) := by
  unfold TagCase.ofControl
  split
  · exact each _
  · trivial

theorem tagCase_even (s : Decoding) {tag : Tag} (other : tag ≠ .actionData) :
    Even (tagCase env s tag) := by
  cases tag with
  | actionData => exact absurd rfl other
  | appControlLabel =>
    refine ofControl_even s fun c => ?_
    simp only
    split
    · trivial
    · rfl
  | appControlData => exact ofControl_even s fun c => rfl
  | envelopeRandomPaddingHigh | envelopeRandomPaddingLow | payloadRandomPaddingHigh
  | payloadRandomPaddingLow => exact padding_even _ _
  | _ => first | rfl | trivial

theorem byteCase_even (s : Decoding) {c : UInt8} (other : c ≠ Tag.actionData.toByte) :
    Even (byteCase env s c) := by
  unfold byteCase
  split
  · rename_i tag known
    refine tagCase_even s ?_
    rintro rfl
    refine other (UInt8.toNat_inj.mp ?_)
    unfold Tag.ofByte at known
    split at known <;> simp_all [Tag.toByte]
  · trivial

/-- An action_data field whose copy goes through and behind which the cursor wraps. -/
structure WrapsBack (x : Iteration) : Prop where
  tag : x.b[x.s.i]? = some Tag.actionData.toByte
  copied : x.s.cp.actionLength = 0 ∨ (x.s.i + 1 + x.s.cp.actionLength.toNat ≤ x.b.length ∧
    ∃ d, x.s.cp.actionData = some d ∧ x.s.cp.actionLength.toNat ≤ d.length)
  wraps : 2 ^ 32 ≤ x.s.i + 1 + x.s.cp.payloadLength.toNat

def Forward (env : DecodeEnv) (x : Iteration) : Prop :=
  ∀ again t, decodeBody env again x.b x.s = .ok t → x.s.i < t.i

theorem afterEnvelope_i {s : Decoding} {r : DecodeEnd} {t : Decoding}
    (passed : afterEnvelope s r = .ok t) : t.i = s.i := by
  unfold afterEnvelope at passed
  split at passed
  · split at passed <;> cases passed
    rfl
  · cases passed

theorem afterPayload_i {s : Decoding} {r : DecodeEnd} {t : Decoding}
    (passed : afterPayload s r = .ok t) : t.i = s.i := by
  unfold afterPayload at passed
  split at passed
  · split at passed <;> cases passed
    rfl
  · cases passed

def actionDataStore (v : Bytes) (s : Decoding) : Except Fault Decoding := do
  let d ← memcpyTo .actionDataWrite s.cp.actionData v
  .ok { s with cp.actionData := d }

theorem actionDataStore_ok {v : Bytes} {s : Decoding} :
    (∃ t, actionDataStore v s = .ok t) ↔
      v = [] ∨ ∃ d, s.cp.actionData = some d ∧ v.length ≤ d.length := by
  have room : (∃ d, memcpyTo .actionDataWrite s.cp.actionData v = .ok d) ↔ _ := memcpyTo_ok
  rw [← room, actionDataStore]
  cases memcpyTo .actionDataWrite s.cp.actionData v <;> simp [bind, Except.bind]

section
variable {x : Iteration} (short : x.b.length < 2 ^ 31) (inside : x.s.i < x.b.length)
include short inside

theorem afterTag_i : x.afterTag.i = x.s.i + 1 := advance_inside (n := x.b.length) (by omega) (by omega)

theorem copy_forward {width move : Nat} {store : Bytes → Decoding → Except Fault Decoding}
    {t : Decoding} (even : move = width)
    (copied : decodeCopy x.b x.afterTag width move store = .ok t) : x.s.i < t.i := by
  obtain ⟨fits, u, _, rfl⟩ := decodeCopy_ok.mp copied
  rw [afterTag_i short inside] at fits
  simp only [even, afterTag_i short inside]
  rw [advance_inside (n := x.b.length) (by omega) (by omega)]
  omega

theorem section_forward {again : DecodeCall}
    (after : Decoding → DecodeEnd → Except DecodeEnd Decoding)
    (keeps : ∀ {s r t}, after s r = .ok t → t.i = s.i) {o : Except Fault Opened}
    (opens : x.opened env = some o) {t : Decoding} (passed : enterSection again after o = .ok t) :
    x.s.i < t.i := by
  match o with
  | .ok (.section s decrypted) =>
    have past := opened_past short opens
    have cursor := past.cursor
    rw [afterTag_i short inside] at cursor
    have same := keeps passed
    omega
  | .ok (.refused s) => cases passed
  | .error f => cases passed

theorem otherTag_forward {c : UInt8} (here : x.b[x.s.i]? = some c)
    (other : c ≠ Tag.actionData.toByte) : Forward env x := by
  intro again t passed
  have even : Even (byteCase env x.afterTag c) := byteCase_even x.afterTag other
  have known : x.case env = some (byteCase env x.afterTag c) := by simp [Iteration.case, here]
  rw [decodeBody_eq, known] at passed
  simp only at passed
  cases found : byteCase env x.afterTag c with
  | copy width move store =>
    rw [found] at passed even
    simp only [decodeCase, Except.mapError] at passed
    split at passed
    · cases passed
    · rename_i u copied
      cases passed
      exact copy_forward short inside even copied
  | encryptedEnvelope =>
    rw [found] at passed known
    refine section_forward short inside afterEnvelope afterEnvelope_i (?_ : x.opened env = some _)
      passed
    simp only [Iteration.opened, known]
  | encryptedPayload =>
    rw [found] at passed known
    refine section_forward short inside afterPayload afterPayload_i (?_ : x.opened env = some _) passed
    simp only [Iteration.opened, known]
  | reject | fault =>
    rw [found] at passed
    cases passed

theorem actionData_copies_iff {move : Nat} :
    (∃ t, decodeCopy x.b x.afterTag x.s.cp.actionLength.toNat move actionDataStore = .ok t) ↔
      x.s.cp.actionLength = 0 ∨ (x.s.i + 1 + x.s.cp.actionLength.toNat ≤ x.b.length ∧
        ∃ d, x.s.cp.actionData = some d ∧ x.s.cp.actionLength.toNat ≤ d.length) := by
  have zero : x.s.cp.actionLength = 0 ↔ x.s.cp.actionLength.toNat = 0 := UInt32.toNat_inj.symm
  rw [zero, ← afterTag_i short inside]
  constructor
  · rintro ⟨t, copied⟩
    obtain ⟨fits, u, stored, _⟩ := decodeCopy_ok.mp copied
    rcases fits with none | fits
    · exact .inl none
    · have size := length_slice fits
      rcases actionDataStore_ok.mp ⟨u, stored⟩ with none | ⟨d, dest, enough⟩
      · rw [none] at size
        exact .inl size.symm
      · exact .inr ⟨fits, d, dest, size ▸ enough⟩
  · intro copies
    have room : ∃ u, actionDataStore (slice x.b x.afterTag.i x.s.cp.actionLength.toNat) x.afterTag =
        .ok u := by
      refine actionDataStore_ok.mpr ?_
      rcases copies with none | ⟨fits, d, dest, enough⟩
      · simp [none, slice]
      · exact .inr ⟨d, dest, Nat.le_trans (Nat.le_of_eq (length_slice fits)) enough⟩
    obtain ⟨u, stored⟩ := room
    exact ⟨_, decodeCopy_ok.mpr ⟨copies.imp id And.left, u, stored, rfl⟩⟩

theorem actionData_forward_iff (here : x.b[x.s.i]? = some Tag.actionData.toByte) :
    Forward env x ↔ ¬ WrapsBack x := by
  have bound := x.s.cp.payloadLength.toNat_lt
  have step (again : DecodeCall) : decodeBody env again x.b x.s =
      (decodeCopy x.b x.afterTag x.s.cp.actionLength.toNat x.s.cp.payloadLength.toNat
        actionDataStore).mapError DecodeEnd.fault := by
    rw [decodeBody_eq]
    simp only [Iteration.case, here, Option.map_some, byteCase, Tag.ofByte_toByte]
    rfl
  have moves {t : Decoding} (copied : decodeCopy x.b x.afterTag x.s.cp.actionLength.toNat
      x.s.cp.payloadLength.toNat actionDataStore = .ok t) :
      t.i = (x.s.i + 1 + x.s.cp.payloadLength.toNat) % 2 ^ 32 := by
    obtain ⟨_, u, _, rfl⟩ := decodeCopy_ok.mp copied
    simp only [advance, afterTag_i short inside]
  constructor
  · rintro forward ⟨_, copies, wraps⟩
    obtain ⟨t, copied⟩ := (actionData_copies_iff short inside).mpr copies
    have later := forward (fun _ _ _ _ => .endless) t (by rw [step, copied]; rfl)
    rw [moves copied] at later
    omega
  · intro noWrap again t passed
    rw [step] at passed
    simp only [Except.mapError] at passed
    split at passed
    · cases passed
    · rename_i u copied
      cases passed
      have copies := (actionData_copies_iff short inside).mp ⟨_, copied⟩
      have within : ¬ 2 ^ 32 ≤ x.s.i + 1 + x.s.cp.payloadLength.toNat :=
        fun wraps => noWrap ⟨here, copies, wraps⟩
      rw [moves copied]
      omega

theorem forward_iff : Forward env x ↔ ¬ WrapsBack x := by
  obtain ⟨c, here⟩ : ∃ c, x.b[x.s.i]? = some c := ⟨_, List.getElem?_eq_getElem inside⟩
  by_cases tag : c = Tag.actionData.toByte
  · exact actionData_forward_iff short inside (tag ▸ here)
  · refine iff_of_true (otherTag_forward short inside here tag) ?_
    rintro ⟨there, _, _⟩
    exact tag (Option.some.inj (here.symm.trans there))

end

/-- The variant is what is left of the string: with more fuel than its length, no loop and
    no nested call runs out. -/
theorem decode_ends {fuel : Nat} {cp : ChatPacket} {allocs : Nat} {b : Bytes}
    (short : b.length < 2 ^ 31) (enough : b.length + 2 ≤ fuel)
    (forward : ∀ x, Visits env fuel cp allocs b b.length x → Forward env x) :
    chatPacketDecode env fuel cp allocs b b.length ≠ .endless := by
  induction fuel generalizing cp allocs b with
  | zero => omega
  | succ fuel ih =>
    have left : b.length - (Decoding.start cp allocs).i < fuel := by simp only [Decoding.start]; omega
    have falls : ∀ s t, Reaches (decodeGuard b.length) (decodeBody env (chatPacketDecode env fuel) b)
        (.start cp allocs) s → Pass (decodeGuard b.length)
          (decodeBody env (chatPacketDecode env fuel) b) s t → b.length - t.i < b.length - s.i := by
      rintro s t reach ⟨more, pass⟩
      have inside : s.i < b.length := by simpa [decodeGuard] using more
      have moved := forward _ (.here reach inside) _ t pass
      simp only at moved
      omega
    obtain ⟨r, run⟩ := iterate_total (fun s : Decoding => b.length - s.i) falls left
    rw [chatPacketDecode, run]
    obtain ⟨s, reach, ⟨_, rfl⟩ | ⟨more, e, leave, rfl⟩⟩ := iterate_result run
    · simp [decodeEnd]
    · simp only [decodeEnd]
      rintro rfl
      have inside : s.i < b.length := by simpa [decodeGuard] using more
      obtain ⟨_, same, _⟩ | ⟨t, decrypted, enter, nested⟩ :=
        decodeBody_aborts (x := ⟨b, b.length, s⟩) (by simp [Aborts]) leave
      · cases same
      have past := (opened_past short enter).inside
      exact ih (by simp only at past; omega) (by simp only at past; omega)
        (fun x visit => forward x (.inside reach inside enter visit)) nested

/-- The decoder comes to an end, and every iteration that does not return moves forward. -/
def EndsForward (env : DecodeEnv) (cp : ChatPacket) (b : Bytes) : Prop :=
  (∃ enough, ∀ fuel, enough ≤ fuel → chatPacketDecode env fuel cp 0 b b.length ≠ .endless) ∧
    ∀ fuel x, Visits env fuel cp 0 b b.length x → Forward env x

/-- The strings that take the decoder forward to its end are exactly those that lead it to
    no action_data field behind which the cursor wraps. -/
theorem endsForward_iff (env : DecodeEnv) (cp : ChatPacket) (b : Bytes) (short : b.length < 2 ^ 31) :
    EndsForward env cp b ↔ ∀ fuel x, Visits env fuel cp 0 b b.length x → ¬ WrapsBack x := by
  have each {fuel : Nat} {x : Iteration} (visit : Visits env fuel cp 0 b b.length x) :
      Forward env x ↔ ¬ WrapsBack x := by
    obtain ⟨same, le, inside⟩ := visits_within short visit
    exact forward_iff (by omega) (by omega)
  constructor
  · rintro ⟨_, forward⟩ fuel x visit
    exact (each visit).mp (forward fuel x visit)
  · intro noWrap
    have forward : ∀ fuel x, Visits env fuel cp 0 b b.length x → Forward env x :=
      fun fuel x visit => (each visit).mpr (noWrap fuel x visit)
    exact ⟨⟨b.length + 2, fun fuel enough => decode_ends short enough (forward fuel)⟩, forward⟩

def plainEnv : DecodeEnv where
  crypto := default
  pair := default
  alloc := fun _ => true
  junk := fun _ _ => ⟨0, 0, 0, 0, 0, 0, none, none⟩

def copyingBytes : Bytes :=
  Tag.payloadLength.toByte :: be32 2 ++ Tag.payload.toByte :: [7, 8] ++
    Tag.actionLength.toByte :: be32 2 ++ Tag.actionData.toByte :: [1, 2]

theorem endsForward_iff_copying : EndsForward plainEnv (chatPacketInit0 default) copyingBytes := by
  refine (endsForward_iff _ _ _ (by decide)).mpr fun fuel x visit back => ?_
  have ends : chatPacketDecode plainEnv 8 (chatPacketInit0 default) 0 copyingBytes
      copyingBytes.length ≠ .endless := by decide +kernel
  have all : ∀ y ∈ visited plainEnv 8 (chatPacketInit0 default) 0 copyingBytes,
      y.s.i + 1 + y.s.cp.payloadLength.toNat < 2 ^ 32 := by decide +kernel
  have before := all x (visited_of_visits ends visit)
  have wraps := back.wraps
  omega

/-- A payloadLength of 2^32 - 1, then an action_data tag. -/
def loopingBytes : Bytes :=
  [Tag.payloadLength.toByte, 255, 255, 255, 255, Tag.actionData.toByte]

def loopingState : Decoding :=
  { Decoding.start (chatPacketInit0 default) 1 with
    i := 5
    cp.payload := some (List.replicate (2 ^ 32 - 1) 0)
    cp.payloadLength := 0xFFFFFFFF }

theorem loopingBytes_not_endsForward :
    ¬ EndsForward plainEnv (chatPacketInit0 default) loopingBytes := by
  rintro ⟨⟨enough, ends⟩, _⟩
  refine ends (enough + 2) (by omega) ?_
  have first (again : DecodeCall) : decodeBody plainEnv again loopingBytes
      (.start (chatPacketInit0 default) 0) = .ok loopingState := rfl
  have stuck (again : DecodeCall) : decodeBody plainEnv again loopingBytes loopingState =
      .ok loopingState := rfl
  rw [chatPacketDecode, iterate_pass ⟨rfl, first _⟩, iterate_stuck ⟨rfl, stuck _⟩]
  rfl

end DecodeTermination
