import ChatFabric.DataArrival
import ChatFabric.DecodeTurns

/- Where the random padding of a packet goes when it is decoded. Four tags copy it, two for
   the envelope's and two for the payload's; the last of them names the other array. -/
namespace PaddingPlaces
open ByteStrings WhileLoop TagStream ChatFabric DecodeTermination PacketRoundTrip DataArrival

inductive PaddingKind where
  | envelope
  | payload
  deriving DecidableEq

def paddingKind : Tag → Option PaddingKind
  | .envelopeRandomPaddingHigh | .envelopeRandomPaddingLow => some .envelope
  | .payloadRandomPaddingHigh | .payloadRandomPaddingLow => some .payload
  | _ => none

def PaddingKind.put (kind : PaddingKind) (p : Block 16) (cp : ChatPacket) : ChatPacket :=
  match kind with
  | .envelope => { cp with envelopeRandomPadding := p }
  | .payload => { cp with payloadRandomPadding := p }

/-- Whatever bytes a padding tag copies, they go inside the array of its own kind. -/
def WritesOwn (env : DecodeEnv) (x : Iteration) : Prop :=
  ∀ tag kind, x.b[x.s.i]? = some tag.toByte → paddingKind tag = some kind →
    ∀ width move store v, x.case env = some (.copy width move store) → v.length = width →
      ∃ p, store v x.afterTag = .ok { x.afterTag with cp := kind.put p x.s.cp }

/-- The nibbles announced for an envelope fit its array, and the payload's padding is all
    in front of the payload. -/
def InPlace (x : Iteration) : Prop :=
  (x.b[x.s.i]? = some Tag.envelopeRandomPaddingLow.toByte → x.s.h + x.s.l ≤ 16) ∧
    (x.b[x.s.i]? = some Tag.payloadRandomPaddingLow.toByte → x.s.lp = 0)

structure Nibbles (s : Decoding) : Prop where
  h : s.h < 16
  l : s.l < 16
  hp : s.hp < 16
  lp : s.lp < 16

variable {env : DecodeEnv}

theorem nibbles_of_byte (c : UInt8) : c.toNat / 16 < 16 ∧ c.toNat % 16 < 16 := by
  have bound := c.toNat_lt
  omega

theorem tag_nibbles (s : Decoding) (tag : Tag) (nibbles : Nibbles s) :
    Stores s (fun _ t => Nibbles t) (tagCase env s tag) := by
  obtain ⟨h, l, hp, lp⟩ := nibbles
  cases tag with
  | envelopeRandomPaddingLength =>
    intro v t size stored
    cases stored
    have ⟨high, low⟩ := nibbles_of_byte (v.headD 0)
    exact ⟨high, low, hp, lp⟩
  | payloadRandomPaddingLength =>
    intro v t size stored
    cases stored
    have ⟨high, low⟩ := nibbles_of_byte (v.headD 0)
    exact ⟨h, l, high, low⟩
  | envelopeRandomPaddingHigh | envelopeRandomPaddingLow | payloadRandomPaddingHigh
  | payloadRandomPaddingLow =>
    simp only [tagCase, stores_padding, bind, Except.bind]
    intro _ v t size stored
    split at stored
    · cases stored
    · cases stored
      exact ⟨h, l, hp, lp⟩
  | payload | actionData =>
    simp only [tagCase, stores_copy, bind, Except.bind]
    intro v t size stored
    split at stored
    · cases stored
    · cases stored
      exact ⟨h, l, hp, lp⟩
  | payloadLength | actionLength =>
    simp only [tagCase, stores_copy]
    intro v t size stored
    split at stored
    · cases stored
      exact ⟨h, l, hp, lp⟩
    · cases stored
      exact ⟨h, l, hp, lp⟩
  | appControlI | appControlType | appControlValue | appControlRangeLow | appControlRangeHigh
  | appControlLabelLength | appControlLabel | appControlData =>
    refine (entryTag_stores s rfl).mono fun v t stored => ?_
    obtain ⟨table, table', allocs, _, _, _, rfl⟩ := stored
    exact ⟨h, l, hp, lp⟩
  | encryptedEnvelope | encryptedPayload | noop | nonceLength | publickeyId | configLength | config
  | mac | endtag => trivial
  | _ =>
    intro v t size stored
    cases stored
    exact ⟨h, l, hp, lp⟩

theorem turnout_nibbles {again : DecodeCall} {x : Iteration} {t : Decoding} (nibbles : Nibbles x.s)
    (turn : Turnout env again x (.ok t)) : Nibbles t := by
  generalize result : Except.ok t = r at turn
  cases turn with
  | copied known read stored =>
    cases result
    have left := stores_of_case known (fun tag => tag_nibbles x.afterTag tag ⟨nibbles.h, nibbles.l,
      nibbles.hp, nibbles.lp⟩) _ _ (readAt_ok read).1 stored
    exact ⟨left.h, left.l, left.hp, left.lp⟩
  | resumed enter nested =>
    cases result
    obtain ⟨_, _, h, l, hp, lp⟩ := opened_state enter
    simp only [Opened.state, Iteration.afterTag] at h l hp lp
    exact ⟨h ▸ nibbles.h, l ▸ nibbles.l, hp ▸ nibbles.hp, lp ▸ nibbles.lp⟩
  | rejected | ended | aborted => cases result

theorem start_nibbles (cp : ChatPacket) (allocs : Nat) : Nibbles (.start cp allocs) := by
  constructor <;> simp [Decoding.start]

theorem visits_nibbles {fuel allocs len : Nat} {cp : ChatPacket} {b : Bytes} {x : Iteration}
    (visit : Visits env fuel cp allocs b len x) : Nibbles x.s := by
  induction visit with
  | here reach more =>
    refine reaches_invariant Nibbles reach (start_nibbles _ _) ?_
    intro s t nibbles pass
    exact turnout_nibbles nibbles (pass.2 ▸ decodeBody_turnout _ ⟨_, 0, s⟩)
  | inside reach more enter visit ih => exact ih

theorem padding_stored (f : Block 16 → Decoding) {block : Block 16} {start : Nat} {v : Bytes}
    (fits : start + v.length ≤ 16) :
    (paddingAt block start v >>= fun p => Except.ok (f p)) = .ok (f (block.patch start v)) := by
  rw [paddingAt_fits block fits]
  rfl

theorem padding_outside (f : Block 16 → Decoding) {block : Block 16} {start : Nat} {v : Bytes}
    (beyond : ¬ start + v.length ≤ 16) :
    (paddingAt block start v >>= fun p => Except.ok (f p)) = .error .paddingWrite := by
  rw [paddingAt, if_neg beyond]
  rfl

theorem patch_changes (b : Block 16) {start size : Nat} (some : size ≠ 0) (fits : start + size ≤ 16) :
    b.patch start (List.replicate size 0) ≠ b.patch start (List.replicate size 1) := by
  intro same
  have values := congrArg Subtype.val same
  rw [Block.patch_val b (by simpa using fits), Block.patch_val b (by simpa using fits)] at values
  simp only [List.length_replicate, List.append_assoc, List.append_cancel_left_eq,
    List.append_cancel_right_eq] at values
  obtain ⟨n, rfl⟩ := Nat.exists_eq_succ_of_ne_zero some
  simp [List.replicate_succ] at values

theorem writesOwn_of_inPlace {x : Iteration} (nibbles : Nibbles x.s) (inPlace : InPlace x) :
    WritesOwn env x := by
  intro tag kind here own width move store v known size
  rw [case_of_tag here] at known
  cases tag with
  | envelopeRandomPaddingHigh =>
    cases own
    simp only [tagCase, TagCase.padding] at known
    split at known
    · cases known
    · cases known
      have fits : 0 + v.length ≤ 16 := by
        have high := nibbles.h
        simp only [Iteration.afterTag] at size
        omega
      exact ⟨_, padding_stored _ fits⟩
  | envelopeRandomPaddingLow =>
    cases own
    simp only [tagCase, TagCase.padding] at known
    split at known
    · cases known
    · cases known
      have fits : x.afterTag.h + v.length ≤ 16 := by
        rw [size]
        exact inPlace.1 here
      exact ⟨_, padding_stored _ fits⟩
  | payloadRandomPaddingHigh =>
    cases own
    simp only [tagCase, TagCase.padding] at known
    split at known
    · cases known
    · cases known
      have fits : 0 + v.length ≤ 16 := by
        have high := nibbles.hp
        simp only [Iteration.afterTag] at size
        omega
      exact ⟨_, padding_stored _ fits⟩
  | payloadRandomPaddingLow =>
    have zero : x.afterTag.lp = 0 := inPlace.2 here
    simp [tagCase, TagCase.padding, zero] at known
  | _ => cases own

theorem inPlace_of_writesOwn {x : Iteration} (nibbles : Nibbles x.s) (own : WritesOwn env x) :
    InPlace x := by
  constructor
  · intro here
    by_contra beyond
    have more : x.afterTag.l ≠ 0 := by
      have high := nibbles.h
      simp only [Iteration.afterTag]
      omega
    have outside : ¬ x.afterTag.h + (List.replicate x.afterTag.l (0 : UInt8)).length ≤ 16 := by
      simpa [Iteration.afterTag] using beyond
    obtain ⟨p, stored⟩ := own _ .envelope here rfl _ _ _ (List.replicate x.afterTag.l 0)
      ((case_of_tag here).trans (congrArg some (if_neg more))) (by simp)
    cases stored.symm.trans (padding_outside _ outside)
  · intro here
    by_contra more
    have known : x.case env = some (.copy x.afterTag.lp x.afterTag.lp _) :=
      (case_of_tag here).trans (congrArg some (if_neg more))
    obtain ⟨p, zeros⟩ := own _ .payload here rfl _ _ _ (List.replicate x.afterTag.lp 0) known (by simp)
    obtain ⟨q, ones⟩ := own _ .payload here rfl _ _ _ (List.replicate x.afterTag.lp 1) known (by simp)
    by_cases fits : x.afterTag.hp + x.afterTag.lp ≤ 16
    · -- the payload's array is the one set, so both copies left the envelope's as it was
      have first := congrArg (fun t : Decoding => t.cp.envelopeRandomPadding)
        (Except.ok.inj (zeros.symm.trans (padding_stored _ (by simpa using fits))))
      have second := congrArg (fun t : Decoding => t.cp.envelopeRandomPadding)
        (Except.ok.inj (ones.symm.trans (padding_stored _ (by simpa using fits))))
      exact patch_changes _ more fits (first.symm.trans second)
    · have outside : ¬ x.afterTag.hp + (List.replicate x.afterTag.lp (0 : UInt8)).length ≤ 16 := by
        simpa using fits
      cases zeros.symm.trans (padding_outside _ outside)

theorem writesOwn_iff {x : Iteration} (nibbles : Nibbles x.s) : WritesOwn env x ↔ InPlace x :=
  ⟨inPlace_of_writesOwn nibbles, writesOwn_of_inPlace nibbles⟩

section trip
variable {cp : ChatPacket} {pad : Padding}

theorem withActionData_keeps (q reply : ChatPacket) :
    (withActionData q reply).payloadLength = q.payloadLength ∧
      (withActionData q reply).payload = q.payload ∧
      (withActionData q reply).payloadRandomPadding = q.payloadRandomPadding ∧
      (withActionData q reply).envelopeRandomPadding = q.envelopeRandomPadding := by
  unfold withActionData
  split <;> exact ⟨rfl, rfl, rfl, rfl⟩

theorem reads_back_paddings (env : DecodeEnv) (again : DecodeCall) {b : Bytes} {len : Nat}
    {t : Decoding} (short : len ≤ b.length) (small : len < 2 ^ 32) (sound : Sound cp pad [])
    (high : t.hp = pad.h) (low : t.lp = pad.l) (length : t.cp.payloadLength = cp.payloadLength)
    (buffer : 0 < cp.payloadLength → ∃ d, t.cp.payload = some d ∧ cp.payloadLength.toNat ≤ d.length)
    (ahead : Ahead b len t (fieldBytes (plainFields (backFields cp)))) :
    ∃ u, Reads env again b len t u [] ∧
      u.cp.payloadRandomPadding = t.cp.payloadRandomPadding ∧
      u.cp.envelopeRandomPadding =
        t.cp.envelopeRandomPadding.patch pad.h (cp.payloadRandomPadding.val.drop pad.h) := by
  rw [backFields, plain_append, sound.padding] at ahead
  rw [← List.append_nil (fieldBytes (plainFields [paddingBehind _ _ _]))] at ahead
  by_cases more : 0 < cp.payloadLength
  · obtain ⟨v, here, enough⟩ := sound.payload more
    obtain ⟨d, there, room⟩ := buffer more
    have size : (v.take cp.payloadLength.toNat).length = cp.payloadLength.toNat := by
      simpa using enough
    rw [if_pos more, here, plain_data8, plain_nil, List.append_nil] at ahead
    obtain ⟨i, payload⟩ := reads_payload env again short small ahead
      (by rw [length, size]) (ne_nil_of_take more enough) there (by rw [size]; exact room)
    obtain ⟨j, padding⟩ := reads_paddingLow env again short small (by exact high) (by exact low)
      payload.ahead
    exact ⟨_, payload.trans padding, rfl, rfl⟩
  · rw [if_neg more] at ahead
    obtain ⟨j, padding⟩ := reads_paddingLow env again short small high low ahead
    exact ⟨_, padding, rfl, rfl⟩

theorem reads_paddings (env : DecodeEnv) (again : DecodeCall) (sound : Sound cp pad [])
    (tableless : ¬ 0 < cp.numOfControllers) (dataless : cp.action ≠ 0 → cp.actionLength = 0)
    (q : ChatPacket) (allocs : Nat) (size : plainSize cp [] < 2 ^ 32)
    (enough : ¬ q.payloadLength < cp.payloadLength)
    (buffer : 0 < cp.payloadLength → ∃ d, q.payload = some d ∧ cp.payloadLength.toNat ≤ d.length) :
    ∃ u, Reads env again (plainBytes cp []) (plainBytes cp []).length (.start q allocs) u [] ∧
      u.cp.payloadRandomPadding =
        q.payloadRandomPadding.patch 0 (cp.payloadRandomPadding.val.take pad.h) ∧
      u.cp.envelopeRandomPadding =
        q.envelopeRandomPadding.patch pad.h (cp.payloadRandomPadding.val.drop pad.h) := by
  have small : (plainBytes cp []).length < 2 ^ 32 := by rwa [length_plainBytes sound]
  have ahead := ahead_plain cp [] q allocs
  have none : tableFields cp [] = [] := if_neg tableless
  rw [frontFields, none, plain_append, plain_append, List.append_assoc, List.append_assoc,
    List.singleton_append, plain_int32, List.append_assoc, sound.padding] at ahead
  obtain ⟨i, declared⟩ := reads_payloadLength env again (Nat.le_refl _) small ahead enough
  obtain ⟨j, padded⟩ := reads_paddingHigh env again (Nat.le_refl _) small declared.ahead
  obtain ⟨k, a, acted⟩ := reads_action env again (Nat.le_refl _) small sound
    (frontReadable env tableless dataless) rfl padded.ahead
  have back := acted.ahead
  simp only [plain_nil, List.nil_append, List.map_nil, List.sum_nil, List.replicate_zero,
    List.append_nil] at back
  obtain ⟨length, payload, high, low⟩ := withActionData_keeps
    { q with
      payloadLength := cp.payloadLength
      payloadRandomPaddingLength := pad.lengthByte
      payloadRandomPadding :=
        q.payloadRandomPadding.patch 0 (cp.payloadRandomPadding.val.take pad.h) } cp
  obtain ⟨u, later, front, behind⟩ := reads_back_paddings env again (Nat.le_refl _) small sound
    rfl rfl length (fun more => payload.symm ▸ buffer more) back
  refine ⟨u, ((declared.trans padded).trans acted).trans later, front.trans high, ?_⟩
  rw [behind]
  exact congrArg (fun b : Block 16 => b.patch pad.h (cp.payloadRandomPadding.val.drop pad.h)) low

def PaddingsKept (random : PacketRandom) (cp got : ChatPacket) : Prop :=
  got.payloadRandomPadding = cp.payloadRandomPadding ∧
    got.envelopeRandomPadding = (chatPacketInit0 random).envelopeRandomPadding

/-- Both arrays of the receiver held the second part of the sender's padding to begin with. -/
def HeldBefore (random : PacketRandom) (cp : ChatPacket) : Prop :=
  let h := cp.payloadRandomPaddingLength.toNat / 16
  random.payload.bytes.val.drop h = cp.payloadRandomPadding.val.drop h ∧
    random.envelope.bytes.val.drop h = cp.payloadRandomPadding.val.drop h

theorem arrives_kept_iff (crypto : Crypto) {sender receiver : ChatFabricPairing}
    (junk : Nat → Nat → CfControl) (random : PacketRandom) (built : Built cp)
    (tableless : ¬ 0 < cp.numOfControllers) (dataless : cp.action ≠ 0 → cp.actionLength = 0)
    (keys : SharesKeys sender receiver) (size : plainSize cp [] + 105 < 2 ^ 31) :
    Arrives crypto sender receiver junk random cp (PaddingsKept random cp) ↔ HeldBefore random cp := by
  obtain ⟨pad, padding⟩ := built.payloadPadding.split
  have sound := sound built tableless dataless padding
  have bounds := pad.h_bounds
  let env := receiverEnv crypto receiver junk
  obtain ⟨u, reads, payload, envelope⟩ := reads_paddings env (chatPacketDecode env 0) sound tableless
    dataless (openedPacket env sender random cp []) 4 (by omega)
    (opened_enough size env sender random) fun _ => section_buffer _ _ _ (by omega) rfl
  obtain ⟨fuel, run⟩ := chatPacketDecode_done reads.reach (Nat.le_of_eq reads.ahead.size.symm)
  rw [arrives_iff_opened sound size (PaddingsKept random cp) keys run (by simp)]
  have place : cp.payloadRandomPaddingLength.toNat / 16 = pad.h := by rw [padding, pad.h_lengthByte]
  simp only [HeldBefore, place, ← Block.patch_front_iff random.payload.bytes cp.payloadRandomPadding
    (by omega : pad.h ≤ 16), ← Block.patch_back_iff random.envelope.bytes cp.payloadRandomPadding
    (by omega : pad.h ≤ 16)]
  constructor
  · rintro ⟨got, allocs, same, front, behind⟩
    cases same
    exact ⟨payload.symm.trans front, envelope.symm.trans behind⟩
  · rintro ⟨front, behind⟩
    exact ⟨u.cp, u.allocs, rfl, payload.trans front, envelope.trans behind⟩

end trip

/-- The padding tags of a string write inside the arrays of their own kinds exactly where the
    nibbles fit and no padding follows the payload; and a packet makes the trip with its
    padding exactly where the receiver held the second part of it before. -/
theorem paddings_iff (env : DecodeEnv) (into : ChatPacket) (b : Bytes) (crypto : Crypto)
    (sender receiver : ChatFabricPairing) (junk : Nat → Nat → CfControl) (random : PacketRandom)
    (cp : ChatPacket) (built : Built cp) (tableless : ¬ 0 < cp.numOfControllers)
    (dataless : cp.action ≠ 0 → cp.actionLength = 0) (keys : SharesKeys sender receiver)
    (size : plainSize cp [] + 105 < 2 ^ 31) :
    ((∀ fuel x, Visits env fuel into 0 b b.length x → WritesOwn env x) ↔
      ∀ fuel x, Visits env fuel into 0 b b.length x → InPlace x) ∧
    (Arrives crypto sender receiver junk random cp (PaddingsKept random cp) ↔
      HeldBefore random cp) := by
  constructor
  · constructor
    · intro own fuel x visit
      exact (writesOwn_iff (visits_nibbles visit)).mp (own fuel x visit)
    · intro inPlace fuel x visit
      exact (writesOwn_iff (visits_nibbles visit)).mpr (inPlace fuel x visit)
  · exact arrives_kept_iff crypto junk random built tableless dataless keys size

def strayPadding : Bytes :=
  [Tag.payloadRandomPaddingLength.toByte, 17, Tag.payloadRandomPaddingLow.toByte, 7]

def onesPadded : ChatPacket :=
  chatPacketInit0 ⟨default, ⟨7, .ofBytes 16 (List.replicate 16 1)⟩⟩

theorem onesPadded_built : Built onesPadded := chatPacketInit0_built _

theorem paddings_iff_onesPadded :
    ((∀ fuel x, Visits plainEnv fuel (chatPacketInit0 default) 0 strayPadding 4 x →
        WritesOwn plainEnv x) ↔
      ∀ fuel x, Visits plainEnv fuel (chatPacketInit0 default) 0 strayPadding 4 x → InPlace x) ∧
    (Arrives default default default plainEnv.junk default onesPadded
      (PaddingsKept default onesPadded) ↔ HeldBefore default onesPadded) :=
  paddings_iff plainEnv (chatPacketInit0 default) strayPadding default default default plainEnv.junk
    default onesPadded onesPadded_built (by decide) (fun action => absurd rfl action)
    ⟨rfl, rfl, rfl⟩ (by decide)

theorem stray_padding_misplaced :
    (¬ ∀ fuel x, Visits plainEnv fuel (chatPacketInit0 default) 0 strayPadding 4 x →
      WritesOwn plainEnv x) ∧
    ¬ Arrives default default default plainEnv.junk default onesPadded
      (PaddingsKept default onesPadded) := by
  constructor
  · intro own
    have pass : Pass (decodeGuard 4) (decodeBody plainEnv (chatPacketDecode plainEnv 0) strayPadding)
        (.start (chatPacketInit0 default) 0) { Decoding.start (chatPacketInit0 default) 0 with
          i := 2
          cp.payloadRandomPaddingLength := 17
          hp := 1
          lp := 1 } := ⟨rfl, rfl⟩
    have visit := Visits.here (.single pass) (by decide)
    have low := ((writesOwn_iff (visits_nibbles visit)).mp (own _ _ visit)).2 rfl
    cases low
  · rw [arrives_kept_iff default plainEnv.junk default onesPadded_built (by decide)
      (fun action => absurd rfl action) ⟨rfl, rfl, rfl⟩ (by decide)]
    rintro ⟨held, _⟩
    exact absurd held (by decide)

end PaddingPlaces
