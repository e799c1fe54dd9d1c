import ChatFabric.Authentication
import ChatFabric.SectionErrors
import ChatFabric.DecodeOverlay

/- What cp->wasEncrypted says after a datagram was decoded. The constructor sets it to -1, in
   which the bits of both kinds of section are set, and the decoder only sets bits. -/
namespace EncryptedFlags
open ByteStrings WhileLoop ChatFabric DecodeTermination DecodeTrace DecodeBounds SectionErrors

variable {env : DecodeEnv}

def payloadBit : UInt32 := 0x01
def envelopeBit : UInt32 := 0x02

def AllSet (cp : ChatPacket) : Prop := cp.wasEncrypted = 0 - 1

def allFlags : Overlay := ⟨true, none, none, none, none, none⟩

theorem after_allFlags (tags : List Tag) : allFlags.after tags = allFlags := by
  induction tags with
  | nil => rfl
  | cons tag tags ih =>
    have kept : allFlags.without tag = allFlags := by cases tag <;> rfl
    rw [Overlay.after_cons, kept, ih]

theorem returned_allSet {fuel allocs len n : Nat} {cp cp' : ChatPacket} {b : Bytes} {ret : Int}
    (run : chatPacketDecode env fuel cp allocs b len = .returned ret cp' n) (all : AllSet cp) :
    AllSet cp' := by
  have same : Overlaid allFlags cp cp := by
    refine ⟨⟨cp.actionData, ?_⟩, fun _ => rfl⟩
    simp only [Overlay.on, allFlags, Option.getD_none, if_true]
    rw [← all]
  have ends := chatPacketDecode_overlaid env fuel _ cp cp allocs b len same
  rw [run, after_allFlags] at ends
  cases ends with
  | returned packet =>
    obtain ⟨data, rest⟩ := packet.rest
    exact congrArg ChatPacket.wasEncrypted rest

/-- At some level the decoder comes to a section of the kind whose MAC it accepts. -/
def Verified (env : DecodeEnv) (kind : Iteration → Prop) (fuel : Nat) (cp : ChatPacket) (b : Bytes)
    (len : Nat) : Prop :=
  ∃ x, Visits env fuel cp 0 b len x ∧ kind x ∧
    ∃ t decrypted, x.opened env = some (.ok (.section t decrypted))

/-- The bits tell which kinds of section were verified. -/
structure Truthful (env : DecodeEnv) (fuel : Nat) (cp : ChatPacket) (b : Bytes) (len : Nat)
    (cp' : ChatPacket) : Prop where
  payload : cp'.wasEncrypted &&& payloadBit ≠ 0 ↔ Verified env (PayloadAt env) fuel cp b len
  envelope : cp'.wasEncrypted &&& envelopeBit ≠ 0 ↔ Verified env (EnvelopeAt env) fuel cp b len

/-- The bits tell the truth for exactly the datagrams with both kinds of section. -/
theorem truthful_iff {fuel len n : Nat} {random : PacketRandom} {b : Bytes} {cp : ChatPacket}
    (run : chatPacketDecode env fuel (chatPacketInit0 random) 0 b len = .returned 0 cp n) :
    Truthful env fuel (chatPacketInit0 random) b len cp ↔
      Verified env (PayloadAt env) fuel (chatPacketInit0 random) b len ∧
        Verified env (EnvelopeAt env) fuel (chatPacketInit0 random) b len := by
  have all : cp.wasEncrypted = 0 - 1 := returned_allSet run rfl
  have payloadSet : cp.wasEncrypted &&& payloadBit ≠ 0 := by
    rw [all]
    decide
  have envelopeSet : cp.wasEncrypted &&& envelopeBit ≠ 0 := by
    rw [all]
    decide
  constructor
  · intro truthful
    exact ⟨truthful.payload.mp payloadSet, truthful.envelope.mp envelopeSet⟩
  · rintro ⟨payload, envelope⟩
    exact ⟨iff_of_true payloadSet payload, iff_of_true envelopeSet envelope⟩

theorem verified_of_visited {kind : Iteration → Prop} {fuel : Nat} {cp : ChatPacket} {b : Bytes}
    (found : ∃ x ∈ visited env fuel cp 0 b, kind x ∧ (sectionEnd env x).isSome = true) :
    Verified env kind fuel cp b b.length := by
  obtain ⟨x, listed, here, opens⟩ := found
  obtain ⟨i, ends⟩ := Option.isSome_iff_exists.mp opens
  obtain ⟨t, decrypted, enter, _⟩ := sectionEnd_eq_some.mp ends
  exact ⟨x, visits_of_visited listed, here, t, decrypted, enter⟩

theorem truthful_iff_sections : ∃ cp n,
    chatPacketDecode plainEnv 6 (chatPacketInit0 default) 0 bothSections bothSections.length =
        .returned 0 cp n ∧
      Truthful plainEnv 6 (chatPacketInit0 default) bothSections bothSections.length cp := by
  obtain ⟨cp, n, run⟩ := bothSections_returned
  have payload : Verified plainEnv (PayloadAt plainEnv) 6 (chatPacketInit0 default) bothSections
      bothSections.length := verified_of_visited (by decide +kernel)
  have envelope : Verified plainEnv (EnvelopeAt plainEnv) 6 (chatPacketInit0 default) bothSections
      bothSections.length := verified_of_visited (by decide +kernel)
  exact ⟨cp, n, run, (truthful_iff run).mpr ⟨payload, envelope⟩⟩

def onlyFlags : Bytes := Tag.flags.toByte :: be32 1

/-- A datagram without any section is told to have had both. -/
theorem onlyFlags_not_truthful :
    ¬ ∀ fuel b cp n, chatPacketDecode plainEnv fuel (chatPacketInit0 default) 0 b b.length =
        .returned 0 cp n → Truthful plainEnv fuel (chatPacketInit0 default) b b.length cp := by
  intro always
  have truthful := always 3 onlyFlags { chatPacketInit0 default with flags := 1 } 0 (by decide +kernel)
  have set : ({ chatPacketInit0 default with flags := 1 } : ChatPacket).wasEncrypted &&& payloadBit ≠ 0 := by
    decide
  obtain ⟨x, visit, _, t, decrypted, enter⟩ := truthful.payload.mp set
  have closed := Authentication.opened_of_no_tag (by decide) (by decide) visit
  cases closed.symm.trans enter

end EncryptedFlags
