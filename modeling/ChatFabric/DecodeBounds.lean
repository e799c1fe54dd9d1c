import ChatFabric.DecodeTermination
import ChatFabric.PacketEncode

/- What the decoder reads of its string. Nothing compares a field with what is left of it,
   so the reads stay inside exactly while every field the loop comes to is complete. -/
namespace DecodeBounds
open ByteStrings WhileLoop ChatFabric DecodeTermination DecodeTrace

variable {env : DecodeEnv}

/-- The bytes of a section: its ciphertext and then, if there is memory to compute the MAC
    into, the MAC. Below sixteen the length wraps to a huge one. -/
def sectionDemand (env : DecodeEnv) (length : UInt32) (n : Nat) : Nat :=
  lessMac length + if env.alloc n then macBytes else 0

/-- The bytes that the tag at the cursor calls for, from the fixed width of its field, the
    lengths declared before it, or the length of its section. -/
def demand (env : DecodeEnv) (x : Iteration) : Nat :=
  match x.case env with
  | some (.copy width _ _) => width
  | some .encryptedEnvelope => sectionDemand env x.s.cp.envelopeLength (x.s.allocs + 1)
  | some .encryptedPayload =>
    if env.alloc x.s.allocs then sectionDemand env x.s.cp.payloadLength (x.s.allocs + 1) else 0
  | _ => 0

def Complete (env : DecodeEnv) (x : Iteration) : Prop :=
  demand env x = 0 ∨ x.s.i + 1 + demand env x ≤ x.b.length

instance (x : Iteration) : Decidable (Complete env x) := inferInstanceAs (Decidable (_ ∨ _))

def CopiesOnly : TagCase → Prop
  | .copy _ _ store => ∀ v s, store v s ≠ .error .inputRead
  | .fault f => f ≠ .inputRead
  | _ => True

theorem setControl_reads (f : CfControl → CfControl) (s : Decoding) :
    s.setControl f ≠ .error .inputRead := by
  intro failed
  rcases setControl_raises failed with other | other <;> cases other

theorem bind_reads {α β : Type} {first : Except Fault α} {next : α → β}
    (reads : ∀ f, first = .error f → f ≠ .inputRead) :
    (first >>= fun a => Except.ok (next a)) ≠ .error .inputRead := by
  cases ran : first with
  | ok a => simp [bind, Except.bind]
  | error f =>
    have other := reads f ran
    simpa [bind, Except.bind] using other

theorem padding_copiesOnly (size : Nat) {store : Bytes → Decoding → Except Fault Decoding}
    (reads : ∀ v s, store v s ≠ .error .inputRead) : CopiesOnly (.padding size store) := by
  unfold TagCase.padding
  split
  · trivial
  · exact reads

theorem ofControl_copiesOnly (s : Decoding) {copy : CfControl → TagCase}
    (each : ∀ c, CopiesOnly (copy c)) : CopiesOnly (.ofControl s copy) := by
  unfold TagCase.ofControl
  split
  · exact each _
  · rename_i f failed
    rcases control_raises failed with rfl | rfl <;> simp [CopiesOnly]

theorem tagCase_copiesOnly (s : Decoding) (tag : Tag) : CopiesOnly (tagCase env s tag) := by
  cases tag with
  | appControlI | appControlType | appControlValue | appControlRangeLow | appControlRangeHigh
  | appControlLabelLength => exact fun v s => setControl_reads _ _
  | appControlLabel =>
    refine ofControl_copiesOnly s fun c => ?_
    simp only
    split
    · simp [CopiesOnly]
    · intro v s
      simp only
      split
      · exact setControl_reads _ _
      · simp
  | appControlData =>
    refine ofControl_copiesOnly s fun c v s => ?_
    simp only
    split
    · exact setControl_reads _ _
    · simp
  | envelopeRandomPaddingHigh | envelopeRandomPaddingLow | payloadRandomPaddingHigh
  | payloadRandomPaddingLow =>
    exact padding_copiesOnly _ fun v s => bind_reads fun f failed => by simp [paddingAt_raises failed]
  | payload | actionData =>
    refine fun v s => bind_reads fun f failed => ?_
    rcases memcpyTo_raises failed with rfl | rfl <;> simp
  | payloadLength | actionLength =>
    intro v s
    simp only
    split <;> simp
  | _ => first | trivial | exact fun v s => by simp

theorem byteCase_copiesOnly (s : Decoding) (c : UInt8) : CopiesOnly (byteCase env s c) := by
  unfold byteCase
  split
  · exact tagCase_copiesOnly s _
  · trivial

theorem decryptSection_reads {b : Bytes} {i n : Nat} {length : UInt32} {verified : Bool} (m : Nat)
    (nonce : Block 8) (ran : verifySection env b i length n = .ok verified) :
    decryptSection env b i length m nonce ≠ .error .inputRead := by
  simp only [verifySection, bind, Except.bind] at ran
  split at ran
  · cases ran
  · rename_i message read
    simp only [decryptSection, read, bind, Except.bind]
    split <;> simp

theorem openEnvelope_reads_iff (x : Iteration) :
    openEnvelope env x.b x.afterTag = .error .inputRead ↔
      verifySection env x.b x.afterTag.i x.s.cp.envelopeLength (x.s.allocs + 1) =
        .error .inputRead := by
  simp only [openEnvelope, bind, Except.bind, Iteration.afterTag_cp, Iteration.afterTag_allocs]
  cases ran : verifySection env x.b x.afterTag.i x.s.cp.envelopeLength (x.s.allocs + 1) with
  | error f => simp
  | ok verified =>
    have reads := decryptSection_reads x.s.allocs env.pair.nullnonce ran
    simp only [reduceCtorEq, iff_false]
    split
    · cases decrypted : decryptSection env x.b x.afterTag.i x.s.cp.envelopeLength x.s.allocs
          env.pair.nullnonce with
      | error f => simpa [decrypted] using reads
      | ok plain => simp
    · simp

theorem openPayload_reads_iff (x : Iteration) :
    openPayload env x.b x.afterTag = .error .inputRead ↔ env.alloc x.s.allocs = true ∧
      verifySection env x.b x.afterTag.i x.s.cp.payloadLength (x.s.allocs + 1) =
        .error .inputRead := by
  by_cases allocated : env.alloc x.s.allocs = true
  · simp only [openPayload, bind, Except.bind, Iteration.afterTag_cp, Iteration.afterTag_allocs,
      allocated, if_true, true_and]
    cases ran : verifySection env x.b x.afterTag.i x.s.cp.payloadLength (x.s.allocs + 1) with
    | error f => simp
    | ok verified =>
      have reads := decryptSection_reads (x.s.allocs + 2)
        (chatPacketCalcNonce x.s.cp.serial env.pair.mynonce) ran
      simp only [reduceCtorEq, iff_false]
      split
      · cases decrypted : decryptSection env x.b x.afterTag.i x.s.cp.payloadLength
            (x.s.allocs + 2) (chatPacketCalcNonce x.s.cp.serial env.pair.mynonce) with
        | error f => simpa [decrypted] using reads
        | ok plain => simp
      · split <;> simp
  · simp [openPayload, allocated]

theorem enterSection_reads_iff {o : Except Fault Opened}
    (after : Decoding → DecodeEnd → Except DecodeEnd Decoding)
    (stuck : ∀ s, after s .endless = .error .endless) :
    (∀ again, enterSection again after o = .error (.fault .inputRead)) ↔ o = .error .inputRead := by
  constructor
  · intro all
    have one := all fun _ _ _ _ => .endless
    match o with
    | .ok (.section s decrypted) =>
      simp only [enterSection, stuck] at one
      cases one
    | .ok (.refused s) => cases one
    | .error f => simpa [enterSection] using one
  · rintro rfl again
    rfl

section
variable {x : Iteration} (short : x.b.length < 2 ^ 31) (inside : x.s.i < x.b.length)
include short inside

theorem copy_reads_iff {width : Nat} (move : Nat) {store : Bytes → Decoding → Except Fault Decoding}
    (only : ∀ v s, store v s ≠ .error .inputRead) :
    decodeCopy x.b x.afterTag width move store = .error .inputRead ↔
      ¬ (width = 0 ∨ x.s.i + 1 + width ≤ x.b.length) := by
  have index := afterTag_i short inside
  simp only [decodeCopy, bind, Except.bind]
  cases read : readAt x.b x.afterTag.i width with
  | error f =>
    obtain ⟨rfl, outside⟩ := readAt_fails_iff.mp read
    rw [index] at outside
    simp [outside]
  | ok v =>
    have fits := (readAt_ok read).2
    rw [index] at fits
    simp only [fits, not_true_eq_false, iff_false]
    cases stored : store v x.afterTag with
    | ok t => simp
    | error f =>
      intro same
      exact only v x.afterTag (stored.trans (congrArg _ (Except.error.inj same)))

/-- The MAC lies right behind what it is computed over, so both reads are one. -/
theorem verifySection_reads_iff (length : UInt32) (n : Nat) :
    verifySection env x.b x.afterTag.i length n = .error .inputRead ↔
      ¬ (sectionDemand env length n = 0 ∨
        x.s.i + 1 + sectionDemand env length n ≤ x.b.length) := by
  have index := afterTag_i short inside
  have bound := length.toNat_lt
  have wraps : lessMac length = (2 ^ 32 - 16 + length.toNat) % 2 ^ 32 := by
    simp [lessMac, UInt32.toNat_sub]
  simp only [verifySection, sectionDemand, bind, Except.bind, index]
  cases first : readAt x.b (x.s.i + 1) (lessMac length) with
  | error f =>
    obtain ⟨rfl, outside⟩ := readAt_fails_iff.mp first
    simp only [true_iff]
    omega
  | ok message =>
    have fits := (readAt_ok first).2
    cases allocated : env.alloc n with
    | false => simp [fits]
    | true =>
      simp only [if_true]
      cases second : readAt x.b (x.s.i + 1 + length.toNat - macBytes) macBytes with
      | error f =>
        obtain ⟨rfl, outside⟩ := readAt_fails_iff.mp second
        simp only [macBytes] at outside ⊢
        simp only [true_iff]
        omega
      | ok mac =>
        have behind := (readAt_ok second).2
        simp only [macBytes] at behind ⊢
        refine iff_of_false (by simp) (Decidable.not_not.mpr ?_)
        omega

theorem body_reads_iff :
    (∀ again, decodeBody env again x.b x.s = .error (.fault .inputRead)) ↔ ¬ Complete env x := by
  obtain ⟨c, here⟩ : ∃ c, x.b[x.s.i]? = some c := ⟨_, List.getElem?_eq_getElem inside⟩
  have known : x.case env = some (byteCase env x.afterTag c) := by simp [Iteration.case, here]
  have only : CopiesOnly (byteCase env x.afterTag c) := byteCase_copiesOnly x.afterTag c
  simp only [Complete, demand, decodeBody_eq, known]
  cases found : byteCase env x.afterTag c with
  | copy width move store =>
    rw [found] at only
    have : Nonempty DecodeCall := ⟨fun _ _ _ _ => .endless⟩
    simp only [decodeCase, ← copy_reads_iff short inside move only, forall_const]
    cases decodeCopy x.b x.afterTag width move store <;> simp [Except.mapError]
  | encryptedEnvelope =>
    rw [← verifySection_reads_iff short inside, ← openEnvelope_reads_iff]
    exact enterSection_reads_iff afterEnvelope fun _ => rfl
  | encryptedPayload =>
    refine (enterSection_reads_iff afterPayload fun _ => rfl).trans ?_
    rw [openPayload_reads_iff, verifySection_reads_iff short inside]
    by_cases allocated : env.alloc x.s.allocs = true <;> simp [allocated]
  | reject => exact iff_of_false (fun all => by cases all fun _ _ _ _ => .endless) (by simp)
  | fault f =>
    rw [found] at only
    refine iff_of_false (fun all => ?_) (by simp)
    have one := all fun _ _ _ _ => .endless
    simp only [decodeCase, Except.error.injEq, DecodeEnd.fault.injEq] at one
    exact only one

end

/-- No read leaves b[0..len), and an input cut short inside a field is rejected. -/
structure ReadsInside (env : DecodeEnv) (cp : ChatPacket) (b : Bytes) : Prop where
  inside : ∀ fuel, chatPacketDecode env fuel cp 0 b b.length ≠ .fault .inputRead
  rejected : (∃ fuel x, Visits env fuel cp 0 b b.length x ∧ ¬ Complete env x) →
    ∃ fuel cp' allocs, chatPacketDecode env fuel cp 0 b b.length = .returned (-1) cp' allocs

/-- The reads stay inside for exactly the strings in which every field the decoder comes to,
    in the string or in what it decrypts, is complete. -/
theorem readsInside_iff (env : DecodeEnv) (cp : ChatPacket) (b : Bytes) (short : b.length < 2 ^ 31) :
    ReadsInside env cp b ↔ ∀ fuel x, Visits env fuel cp 0 b b.length x → Complete env x := by
  have each {fuel : Nat} {x : Iteration} (visit : Visits env fuel cp 0 b b.length x) :
      (∀ again, decodeBody env again x.b x.s = .error (.fault .inputRead)) ↔ ¬ Complete env x := by
    obtain ⟨same, le, inside⟩ := visits_within short visit
    exact body_reads_iff (by omega) (by omega)
  constructor
  · rintro ⟨inside, _⟩ fuel x visit
    by_contra incomplete
    obtain ⟨enough, run⟩ := fault_of_visit visit ((each visit).mpr incomplete)
    exact inside enough run
  · intro complete
    refine ⟨fun fuel run => ?_, fun ⟨fuel, x, visit, incomplete⟩ => ?_⟩
    · obtain ⟨x, visit, stop⟩ := visit_of_fault run
      exact (each visit).mp stop (complete fuel x visit)
    · exact absurd (complete fuel x visit) incomplete

/-- A serial, a payload section around flags, and behind it an envelope around a from0. -/
def bothSections : Bytes :=
  Tag.serial.toByte :: be32 3 ++
  Tag.payloadLength.toByte :: be32 21 ++
    Tag.encryptedPayload.toByte :: sealBytes plainEnv.crypto plainEnv.pair.sharedkey
      (chatPacketCalcNonce 3 plainEnv.pair.mynonce) (Tag.flags.toByte :: be32 1) ++
  Tag.envelopeLength.toByte :: be32 33 ++
    Tag.encryptedEnvelope.toByte :: sealBytes plainEnv.crypto plainEnv.pair.sharedkey
      plainEnv.pair.nullnonce (Tag.from0.toByte :: List.replicate 16 0)

def retOf : DecodeEnd → Option Int
  | .returned ret _ _ => some ret
  | _ => none

theorem bothSections_returned : ∃ cp n, chatPacketDecode plainEnv 6 (chatPacketInit0 default) 0
    bothSections bothSections.length = .returned 0 cp n := by
  have accepted : retOf (chatPacketDecode plainEnv 6 (chatPacketInit0 default) 0 bothSections
      bothSections.length) = some 0 := by decide +kernel
  cases run : chatPacketDecode plainEnv 6 (chatPacketInit0 default) 0 bothSections bothSections.length with
  | returned ret cp n =>
    rw [run] at accepted
    cases accepted
    exact ⟨cp, n, rfl⟩
  | fault | endless =>
    rw [run] at accepted
    cases accepted

theorem visited_bothSections {fuel : Nat} {x : Iteration}
    (visit : Visits plainEnv fuel (chatPacketInit0 default) 0 bothSections bothSections.length x) :
    x ∈ visited plainEnv 6 (chatPacketInit0 default) 0 bothSections :=
  have ⟨_, _, run⟩ := bothSections_returned
  visited_of_visits (by simp [run]) visit

theorem readsInside_iff_sections : ReadsInside plainEnv (chatPacketInit0 default) bothSections := by
  have short : bothSections.length < 2 ^ 31 := by decide +kernel
  have all : ∀ y ∈ visited plainEnv 6 (chatPacketInit0 default) 0 bothSections,
      Complete plainEnv y := by decide +kernel
  refine (readsInside_iff _ _ _ short).mpr fun fuel x visit => ?_
  exact all x (visited_bothSections visit)

def cutFlags : Bytes := [Tag.flags.toByte, 0, 0]

theorem cutFlags_not_readsInside :
    ¬ ReadsInside plainEnv (chatPacketInit0 default) cutFlags := by
  rintro ⟨inside, _⟩
  exact inside 2 (by decide +kernel)

end DecodeBounds
