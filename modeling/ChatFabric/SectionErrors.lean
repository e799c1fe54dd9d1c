import ChatFabric.DecodeBounds
import ChatFabric.DecodeTurns
import ChatFabric.Letters

/- Errors inside of sections. Both kinds of section call the decoder again; what is wrong in
   a payload ends the outer call, what is wrong in an envelope does not, and an envelope that
   is right does. -/
namespace SectionErrors
open ByteStrings WhileLoop ChatFabric DecodeTermination DecodeTrace DecodeBounds

variable {env : DecodeEnv}

def EnvelopeAt (env : DecodeEnv) (x : Iteration) : Prop := x.case env = some .encryptedEnvelope
def PayloadAt (env : DecodeEnv) (x : Iteration) : Prop := x.case env = some .encryptedPayload

/-- The byte is no tag the decoder has a case for, the padding has no length, or the section
    does not verify. -/
def Rejects (env : DecodeEnv) (x : Iteration) : Prop :=
  x.case env = some .reject ∨ ∃ t, x.opened env = some (.ok (.refused t))

inductive Outside (env : DecodeEnv) : Nat → ChatPacket → Nat → Bytes → Nat → Iteration → Prop where
  | here {fuel allocs len : Nat} {cp : ChatPacket} {b : Bytes} {s : Decoding}
      (reach : Reaches (decodeGuard len) (decodeBody env (chatPacketDecode env fuel) b)
        (.start cp allocs) s) (more : s.i < len) :
      Outside env (fuel + 1) cp allocs b len ⟨b, len, s⟩
  | payload {fuel allocs len : Nat} {cp : ChatPacket} {b decrypted : Bytes} {s t : Decoding}
      {x : Iteration}
      (reach : Reaches (decodeGuard len) (decodeBody env (chatPacketDecode env fuel) b)
        (.start cp allocs) s) (more : s.i < len) (kind : PayloadAt env ⟨b, len, s⟩)
      (enter : Iteration.opened env ⟨b, len, s⟩ = some (.ok (.section t decrypted)))
      (outside : Outside env fuel t.cp t.allocs decrypted decrypted.length x) :
      Outside env (fuel + 1) cp allocs b len x

inductive Nested (env : DecodeEnv) : Nat → ChatPacket → Nat → Bytes → Nat → Iteration → Prop where
  | envelope {fuel allocs len : Nat} {cp : ChatPacket} {b decrypted : Bytes} {s t : Decoding}
      {x : Iteration}
      (reach : Reaches (decodeGuard len) (decodeBody env (chatPacketDecode env fuel) b)
        (.start cp allocs) s) (more : s.i < len) (kind : EnvelopeAt env ⟨b, len, s⟩)
      (enter : Iteration.opened env ⟨b, len, s⟩ = some (.ok (.section t decrypted)))
      (visit : Visits env fuel t.cp t.allocs decrypted decrypted.length x) :
      Nested env (fuel + 1) cp allocs b len x
  | payload {fuel allocs len : Nat} {cp : ChatPacket} {b decrypted : Bytes} {s t : Decoding}
      {x : Iteration}
      (reach : Reaches (decodeGuard len) (decodeBody env (chatPacketDecode env fuel) b)
        (.start cp allocs) s) (more : s.i < len) (kind : PayloadAt env ⟨b, len, s⟩)
      (enter : Iteration.opened env ⟨b, len, s⟩ = some (.ok (.section t decrypted)))
      (nested : Nested env fuel t.cp t.allocs decrypted decrypted.length x) :
      Nested env (fuel + 1) cp allocs b len x

theorem envelope_body {x : Iteration} {o : Except Fault Opened} (kind : EnvelopeAt env x)
    (opened : x.opened env = some o) (again : DecodeCall) :
    decodeBody env again x.b x.s = enterSection again afterEnvelope o := by
  have known : x.case env = some .encryptedEnvelope := kind
  simp only [Iteration.opened, known, Option.some.injEq] at opened
  simp only [decodeBody_eq, known, decodeCase, opened]

theorem payload_body {x : Iteration} {o : Except Fault Opened} (kind : PayloadAt env x)
    (opened : x.opened env = some o) (again : DecodeCall) :
    decodeBody env again x.b x.s = enterSection again afterPayload o := by
  have known : x.case env = some .encryptedPayload := kind
  simp only [Iteration.opened, known, Option.some.injEq] at opened
  simp only [decodeBody_eq, known, decodeCase, opened]

theorem kind_of_opened {x : Iteration} {o : Except Fault Opened} (opened : x.opened env = some o) :
    EnvelopeAt env x ∨ PayloadAt env x := by
  unfold Iteration.opened at opened
  split at opened
  · rename_i known
    exact .inl known
  · rename_i known
    exact .inr known
  · cases opened

theorem not_payload_of_envelope {x : Iteration} (kind : EnvelopeAt env x) : ¬ PayloadAt env x := by
  intro payload
  have known : x.case env = some .encryptedEnvelope := kind
  cases known.symm.trans payload

theorem refused_body {x : Iteration} {t : Decoding} (refused : x.opened env = some (.ok (.refused t)))
    (again : DecodeCall) : decodeBody env again x.b x.s = .error (.returned (-1) t.cp t.allocs) := by
  rcases kind_of_opened refused with kind | kind
  · exact envelope_body kind refused again
  · exact payload_body kind refused again

theorem rejected_body {x : Iteration} (rejects : Rejects env x) (again : DecodeCall) :
    ∃ cp allocs, decodeBody env again x.b x.s = .error (.returned (-1) cp allocs) := by
  rcases rejects with known | ⟨t, refused⟩
  · exact ⟨_, _, by rw [decodeBody_eq, known]; rfl⟩
  · exact ⟨_, _, refused_body refused again⟩

theorem not_rejects_of_opened {x : Iteration} {t : Decoding} {decrypted : Bytes}
    (enter : x.opened env = some (.ok (.section t decrypted))) : ¬ Rejects env x := by
  rintro (known | ⟨u, refused⟩)
  · simp [Iteration.opened, known] at enter
  · cases enter.symm.trans refused

inductive Returning (env : DecodeEnv) (again : DecodeCall) (x : Iteration) (cp : ChatPacket) (n : Nat) :
    Int → Prop where
  | rejects (rejects : Rejects env x)
      (packet : cp = x.s.cp ∨ ∃ t, x.opened env = some (.ok (.refused t)) ∧ cp = t.cp) :
      Returning env again x cp n (-1)
  | envelope {t : Decoding} {decrypted : Bytes} (kind : EnvelopeAt env x)
      (enter : x.opened env = some (.ok (.section t decrypted)))
      (right : again t.cp t.allocs decrypted decrypted.length = .returned 0 cp n) :
      Returning env again x cp n 0
  | payload {t : Decoding} {decrypted : Bytes} {inner : Int} (kind : PayloadAt env x)
      (enter : x.opened env = some (.ok (.section t decrypted))) (wrong : inner ≠ 0)
      (nested : again t.cp t.allocs decrypted decrypted.length = .returned inner cp n) :
      Returning env again x cp n (-1)

theorem opened_returning {again : DecodeCall} {x : Iteration} {o : Except Fault Opened} {ret : Int}
    {cp : ChatPacket} {n : Nat} (opened : x.opened env = some o)
    (leave : decodeBody env again x.b x.s = .error (.returned ret cp n)) :
    Returning env again x cp n ret := by
  match o with
  | .error f =>
    rcases kind_of_opened opened with kind | kind
    · simp [envelope_body kind opened, enterSection] at leave
    · simp [payload_body kind opened, enterSection] at leave
  | .ok (.refused t) =>
    cases leave.symm.trans (refused_body opened again)
    exact .rejects (.inr ⟨t, opened⟩) (.inr ⟨t, opened, rfl⟩)
  | .ok (.section t decrypted) =>
    cases nested : again t.cp t.allocs decrypted decrypted.length with
    | returned inner cp' n' =>
      rcases kind_of_opened opened with kind | kind
      · simp only [envelope_body kind opened, enterSection, nested, afterEnvelope] at leave
        split at leave
        · rename_i right
          subst right
          cases leave
          exact .envelope kind opened nested
        · cases leave
      · simp only [payload_body kind opened, enterSection, nested, afterPayload] at leave
        split at leave
        · cases leave
        · rename_i wrong
          cases leave
          exact .payload kind opened wrong nested
    | fault | endless =>
      rcases kind_of_opened opened with kind | kind
      · simp [envelope_body kind opened, enterSection, nested, afterEnvelope] at leave
      · simp [payload_body kind opened, enterSection, nested, afterPayload] at leave

theorem body_returning {again : DecodeCall} {x : Iteration} {ret : Int} {cp : ChatPacket} {n : Nat}
    (leave : decodeBody env again x.b x.s = .error (.returned ret cp n)) :
    Returning env again x cp n ret := by
  cases opened : x.opened env with
  | some o => exact opened_returning opened leave
  | none =>
    rw [decodeBody_eq] at leave
    cases known : x.case env with
    | none => simp [known] at leave
    | some c =>
      simp only [known] at leave
      cases c with
      | copy width move store =>
        simp only [decodeCase, Except.mapError] at leave
        split at leave <;> cases leave
      | encryptedEnvelope => simp [Iteration.opened, known] at opened
      | encryptedPayload => simp [Iteration.opened, known] at opened
      | reject =>
        cases leave
        exact .rejects (.inl known) (.inl rfl)
      | fault f => simp [decodeCase] at leave

structure LastState (env : DecodeEnv) (fuel : Nat) (cp : ChatPacket) (allocs : Nat) (b : Bytes) (len : Nat)
    (ret : Int) (cp' : ChatPacket) (n : Nat) (s : Decoding) : Prop where
  reach : Reaches (decodeGuard len) (decodeBody env (chatPacketDecode env fuel) b) (.start cp allocs) s
  ends : ∀ u, ¬ Pass (decodeGuard len) (decodeBody env (chatPacketDecode env fuel) b) s u
  left : (ret = 0 ∧ cp' = s.cp ∧ len ≤ s.i) ∨
    (s.i < len ∧ Returning env (chatPacketDecode env fuel) ⟨b, len, s⟩ cp' n ret)

section
variable {fuel allocs len n : Nat} {cp cp' : ChatPacket} {b : Bytes} {ret : Int}

theorem lastState (run : chatPacketDecode env (fuel + 1) cp allocs b len = .returned ret cp' n) :
    ∃ s, LastState env fuel cp allocs b len ret cp' n s := by
  obtain ⟨s, reach, ⟨done, same⟩ | ⟨inside, leave⟩⟩ := chatPacketDecode_last run (by simp)
  · cases same
    refine ⟨s, reach, fun u pass => ?_, .inl ⟨rfl, rfl, done⟩⟩
    have more : s.i < len := by simpa [decodeGuard] using pass.1
    omega
  · refine ⟨s, reach, fun u pass => ?_, .inr ⟨inside, body_returning (x := ⟨b, len, s⟩) leave⟩⟩
    rw [pass.2] at leave
    cases leave

variable {s last t : Decoding} {decrypted : Bytes}

theorem section_returns (at' : LastState env fuel cp allocs b len ret cp' n last)
    (reach : Reaches (decodeGuard len) (decodeBody env (chatPacketDecode env fuel) b)
      (.start cp allocs) s) (more : s.i < len)
    (enter : Iteration.opened env ⟨b, len, s⟩ = some (.ok (.section t decrypted))) :
    ∃ inner c m, chatPacketDecode env fuel t.cp t.allocs decrypted decrypted.length =
      .returned inner c m := by
  rcases last_or_passed reach at'.reach at'.ends with rfl | ⟨u, _, pass⟩
  · rcases at'.left with ⟨_, _, done⟩ | ⟨_, returning⟩
    · omega
    · cases returning with
      | rejects rejects => exact absurd rejects (not_rejects_of_opened enter)
      | envelope kind enter' right =>
        cases enter.symm.trans enter'
        exact ⟨_, _, _, right⟩
      | payload kind enter' wrong nested =>
        cases enter.symm.trans enter'
        exact ⟨_, _, _, nested⟩
  · cases nested : chatPacketDecode env fuel t.cp t.allocs decrypted decrypted.length with
    | returned inner c m => exact ⟨inner, c, m, rfl⟩
    | fault | endless =>
      have body : decodeBody env (chatPacketDecode env fuel) b s = .ok u := pass
      rcases kind_of_opened enter with kind | kind
      · have := (envelope_body kind enter (chatPacketDecode env fuel)).symm.trans body
        simp [enterSection, nested, afterEnvelope] at this
      · have := (payload_body kind enter (chatPacketDecode env fuel)).symm.trans body
        simp [enterSection, nested, afterPayload] at this

theorem payload_passed {u : Decoding} (kind : PayloadAt env ⟨b, len, s⟩)
    (enter : Iteration.opened env ⟨b, len, s⟩ = some (.ok (.section t decrypted)))
    (pass : decodeBody env (chatPacketDecode env fuel) b s = .ok u) :
    ∃ c m, chatPacketDecode env fuel t.cp t.allocs decrypted decrypted.length = .returned 0 c m := by
  have body := (payload_body kind enter (chatPacketDecode env fuel)).symm.trans pass
  simp only [enterSection] at body
  cases nested : chatPacketDecode env fuel t.cp t.allocs decrypted decrypted.length with
  | returned inner c m =>
    simp only [nested, afterPayload] at body
    split at body
    · rename_i right
      exact ⟨c, m, by rw [right]⟩
    · cases body
  | fault | endless => simp [nested, afterPayload] at body

theorem passed_clean (at' : LastState env fuel cp allocs b len ret cp' n last)
    (inner : ∀ {c m b len c' m'}, chatPacketDecode env fuel c m b len = .returned 0 c' m' →
      ∀ x, Outside env fuel c m b len x → ¬ Rejects env x)
    (notLast : last.i < len → ¬ PayloadAt env ⟨b, len, last⟩ ∧ ¬ Rejects env ⟨b, len, last⟩)
    {x : Iteration} (outside : Outside env (fuel + 1) cp allocs b len x) : ¬ Rejects env x := by
  cases outside with
  | here reach more =>
    rcases last_or_passed reach at'.reach at'.ends with rfl | ⟨u, _, pass⟩
    · exact (notLast more).2
    · intro rejects
      obtain ⟨c, m, body⟩ := rejected_body rejects (chatPacketDecode env fuel)
      cases body.symm.trans pass
  | payload reach more kind enter outside =>
    rcases last_or_passed reach at'.reach at'.ends with rfl | ⟨u, _, pass⟩
    · exact absurd kind (notLast more).1
    · obtain ⟨c, m, right⟩ := payload_passed kind enter pass
      exact inner right x outside

end

/-- A call that returns is a call that returns -1 with something rejected outside of all
    envelopes, or 0 with nothing of the kind: by induction on the depth of the payloads. -/
theorem returned_by_outside {fuel allocs len n : Nat} {cp cp' : ChatPacket} {b : Bytes} {ret : Int}
    (run : chatPacketDecode env fuel cp allocs b len = .returned ret cp' n) :
    (ret = -1 ∧ ∃ x, Outside env fuel cp allocs b len x ∧ Rejects env x) ∨
      (ret = 0 ∧ ∀ x, Outside env fuel cp allocs b len x → ¬ Rejects env x) := by
  induction fuel generalizing cp allocs b len ret cp' n with
  | zero => cases run
  | succ fuel ih =>
    obtain ⟨last, at'⟩ := lastState run
    have inner : ∀ {c m b len c' m'}, chatPacketDecode env fuel c m b len = .returned 0 c' m' →
        ∀ x, Outside env fuel c m b len x → ¬ Rejects env x := by
      intro c m b len c' m' right
      rcases ih right with ⟨wrong, _⟩ | ⟨_, clean⟩
      · cases wrong
      · exact clean
    rcases at'.left with ⟨rfl, _, done⟩ | ⟨more, returning⟩
    · exact .inr ⟨rfl, fun x outside => passed_clean at' inner (fun more => by omega) outside⟩
    · cases returning with
      | rejects rejects => exact .inl ⟨rfl, _, .here at'.reach more, rejects⟩
      | envelope kind enter right =>
        have notLast : ¬ PayloadAt env ⟨b, len, last⟩ ∧ ¬ Rejects env ⟨b, len, last⟩ :=
          ⟨not_payload_of_envelope kind, not_rejects_of_opened enter⟩
        exact .inr ⟨rfl, fun x outside => passed_clean at' inner (fun _ => notLast) outside⟩
      | payload kind enter wrong nested =>
        rcases ih nested with ⟨_, x, outside, rejects⟩ | ⟨right, _⟩
        · exact .inl ⟨rfl, x, .payload at'.reach more kind enter outside, rejects⟩
        · exact absurd right wrong

theorem outside_or_nested {fuel allocs len : Nat} {cp : ChatPacket} {b : Bytes} {x : Iteration}
    (visit : Visits env fuel cp allocs b len x) :
    Outside env fuel cp allocs b len x ∨ Nested env fuel cp allocs b len x := by
  induction visit with
  | here reach more => exact .inl (.here reach more)
  | inside reach more enter visit ih =>
    rcases kind_of_opened enter with kind | kind
    · exact .inr (.envelope reach more kind enter visit)
    · rcases ih with outside | nested
      · exact .inl (.payload reach more kind enter outside)
      · exact .inr (.payload reach more kind enter nested)

theorem Outside.visits {fuel allocs len : Nat} {cp : ChatPacket} {b : Bytes} {x : Iteration}
    (outside : Outside env fuel cp allocs b len x) : Visits env fuel cp allocs b len x := by
  induction outside with
  | here reach more => exact .here reach more
  | payload reach more kind enter outside ih => exact .inside reach more enter ih

theorem Nested.visits {fuel allocs len : Nat} {cp : ChatPacket} {b : Bytes} {x : Iteration}
    (nested : Nested env fuel cp allocs b len x) : Visits env fuel cp allocs b len x := by
  induction nested with
  | envelope reach more kind enter visit => exact .inside reach more enter visit
  | payload reach more kind enter nested ih => exact .inside reach more enter ih

structure Inner (env : DecodeEnv) (fuel : Nat) (cp : ChatPacket) (allocs : Nat) (b : Bytes) (len : Nat)
    (x : Iteration) (t : Decoding) (decrypted : Bytes) (depth : Nat) : Prop where
  returns : ∃ inner c m, chatPacketDecode env depth t.cp t.allocs decrypted decrypted.length =
    .returned inner c m
  visits : ∀ y, Visits env depth t.cp t.allocs decrypted decrypted.length y →
    Visits env fuel cp allocs b len y
  nested : EnvelopeAt env x → ∀ y, Visits env depth t.cp t.allocs decrypted decrypted.length y →
    Nested env fuel cp allocs b len y

theorem inner_of_visit {fuel allocs len n : Nat} {cp cp' : ChatPacket} {b decrypted : Bytes} {ret : Int}
    {x : Iteration} {t : Decoding} (run : chatPacketDecode env fuel cp allocs b len = .returned ret cp' n)
    (visit : Visits env fuel cp allocs b len x)
    (enter : x.opened env = some (.ok (.section t decrypted))) :
    ∃ depth, Inner env fuel cp allocs b len x t decrypted depth := by
  induction visit generalizing ret cp' n with
  | @here fuel allocs len cp b s reach more =>
    obtain ⟨last, at'⟩ := lastState run
    exact ⟨fuel, section_returns at' reach more enter, fun y visit => .inside reach more enter visit,
      fun kind y visit => .envelope reach more kind enter visit⟩
  | inside reach more outer visit ih =>
    obtain ⟨last, at'⟩ := lastState run
    obtain ⟨_, _, _, returned⟩ := section_returns at' reach more outer
    obtain ⟨depth, inner⟩ := ih returned enter
    refine ⟨depth, inner.returns, fun y visit => .inside reach more outer (inner.visits y visit), ?_⟩
    intro kind y visit
    rcases kind_of_opened outer with around | around
    · exact .envelope reach more around outer (inner.visits y visit)
    · exact .payload reach more around outer (inner.nested kind y visit)

def GoesOn (env : DecodeEnv) (x : Iteration) : Prop :=
  ∃ depth u, decodeBody env (chatPacketDecode env depth) x.b x.s = .ok u

/-- Whatever is rejected, at whatever level, makes the whole call return -1; and a call that
    returns 0 has decoded what follows its sections. -/
structure Thorough (env : DecodeEnv) (fuel : Nat) (cp : ChatPacket) (allocs : Nat) (b : Bytes) (len : Nat)
    (ret : Int) : Prop where
  rejected : ∀ x, Visits env fuel cp allocs b len x → Rejects env x → ret = -1
  followed : ret = 0 → ∀ x t decrypted, Visits env fuel cp allocs b len x →
    x.opened env = some (.ok (.section t decrypted)) → t.i < x.len → GoesOn env x

/-- Every envelope is the last field of its string, and nothing in it is rejected. -/
structure SoundEnvelopes (env : DecodeEnv) (fuel : Nat) (cp : ChatPacket) (allocs : Nat) (b : Bytes)
    (len : Nat) : Prop where
  last : ∀ x t decrypted, Visits env fuel cp allocs b len x → EnvelopeAt env x →
    x.opened env = some (.ok (.section t decrypted)) → x.len ≤ t.i
  clean : ∀ x, Nested env fuel cp allocs b len x → ¬ Rejects env x

section
variable {fuel allocs len n : Nat} {cp cp' : ChatPacket} {b : Bytes} {ret : Int}

theorem goesOn_envelope {x : Iteration} {t : Decoding} {decrypted : Bytes}
    (run : chatPacketDecode env fuel cp allocs b len = .returned ret cp' n)
    (visit : Visits env fuel cp allocs b len x) (kind : EnvelopeAt env x)
    (enter : x.opened env = some (.ok (.section t decrypted))) (goesOn : GoesOn env x) :
    ∃ y, Nested env fuel cp allocs b len y ∧ Rejects env y := by
  obtain ⟨depth, inner⟩ := inner_of_visit run visit enter
  obtain ⟨r, c, m, returned⟩ := inner.returns
  obtain ⟨other, u, pass⟩ := goesOn
  have same : chatPacketDecode env other t.cp t.allocs decrypted decrypted.length = .returned r c m := by
    rcases chatPacketDecode_unique other returned (by simp) with same | stuck
    · exact same
    · simp [envelope_body kind enter, enterSection, stuck, afterEnvelope] at pass
  rcases returned_by_outside returned with ⟨_, y, outside, rejects⟩ | ⟨rfl, _⟩
  · exact ⟨y, inner.nested kind y outside.visits, rejects⟩
  · simp [envelope_body kind enter, enterSection, same, afterEnvelope] at pass

theorem goesOn_payload {x : Iteration} {t : Decoding} {decrypted : Bytes}
    (run : chatPacketDecode env fuel cp allocs b len = .returned ret cp' n)
    (visit : Visits env fuel cp allocs b len x) (kind : PayloadAt env x)
    (enter : x.opened env = some (.ok (.section t decrypted)))
    (clean : ∀ y, Visits env fuel cp allocs b len y → ¬ Rejects env y) : GoesOn env x := by
  obtain ⟨depth, inner⟩ := inner_of_visit run visit enter
  obtain ⟨r, c, m, returned⟩ := inner.returns
  rcases returned_by_outside returned with ⟨_, y, outside, rejects⟩ | ⟨rfl, _⟩
  · exact absurd rejects (clean y (inner.visits y outside.visits))
  · exact ⟨depth, _, by rw [payload_body kind enter, enterSection, returned]; rfl⟩

/-- A call that returns is thorough exactly when the decoder comes to something it rejects
    outside of all envelopes, or every envelope is sound. -/
theorem thorough_iff (run : chatPacketDecode env fuel cp allocs b len = .returned ret cp' n) :
    Thorough env fuel cp allocs b len ret ↔
      (∃ x, Outside env fuel cp allocs b len x ∧ Rejects env x) ∨
        SoundEnvelopes env fuel cp allocs b len := by
  constructor
  · intro thorough
    rcases returned_by_outside run with ⟨_, wrong⟩ | ⟨rfl, _⟩
    · exact .inl wrong
    · have clean : ∀ x, Visits env fuel cp allocs b len x → ¬ Rejects env x := by
        intro x visit rejects
        cases thorough.rejected x visit rejects
      refine .inr ⟨?_, fun x nested => clean x nested.visits⟩
      intro x t decrypted visit kind enter
      by_contra more
      have goesOn := thorough.followed rfl x t decrypted visit enter (by omega)
      obtain ⟨y, nested, rejects⟩ := goesOn_envelope run visit kind enter goesOn
      exact clean y nested.visits rejects
  · rintro (⟨x, outside, rejects⟩ | sound)
    · rcases returned_by_outside run with ⟨rfl, _⟩ | ⟨_, clean⟩
      · exact ⟨fun _ _ _ => rfl, by simp⟩
      · exact absurd rejects (clean x outside)
    · rcases returned_by_outside run with ⟨rfl, _⟩ | ⟨rfl, outside⟩
      · exact ⟨fun _ _ _ => rfl, by simp⟩
      · have clean : ∀ x, Visits env fuel cp allocs b len x → ¬ Rejects env x := by
          intro x visit
          rcases outside_or_nested visit with out | nested
          · exact outside x out
          · exact sound.clean x nested
        refine ⟨fun x visit rejects => absurd rejects (clean x visit), ?_⟩
        intro _ x t decrypted visit enter more
        rcases kind_of_opened enter with kind | kind
        · have last := sound.last x t decrypted visit kind enter
          omega
        · exact goesOn_payload run visit kind enter clean

end

def isEnvelope : Option TagCase → Bool
  | some .encryptedEnvelope => true
  | _ => false

def isPayload : Option TagCase → Bool
  | some .encryptedPayload => true
  | _ => false

def isRefusal : Option TagCase → Option (Except Fault Opened) → Bool
  | some .reject, _ | _, some (.ok (.refused _)) => true
  | _, _ => false

/-- Where the cursor stands behind the section that opens here. -/
def sectionEnd (env : DecodeEnv) (x : Iteration) : Option Nat :=
  match x.opened env with
  | some (.ok (.section t _)) => some t.i
  | _ => none

theorem isEnvelope_iff (c : Option TagCase) : isEnvelope c = true ↔ c = some .encryptedEnvelope := by
  unfold isEnvelope
  split <;> simp_all

theorem isPayload_iff (c : Option TagCase) : isPayload c = true ↔ c = some .encryptedPayload := by
  unfold isPayload
  split <;> simp_all

theorem isRefusal_iff (x : Iteration) : isRefusal (x.case env) (x.opened env) = true ↔ Rejects env x := by
  unfold isRefusal Rejects
  split <;> simp_all

theorem sectionEnd_eq_some {x : Iteration} {i : Nat} :
    sectionEnd env x = some i ↔ ∃ t decrypted, x.opened env = some (.ok (.section t decrypted)) ∧ t.i = i := by
  unfold sectionEnd
  split <;> simp_all

instance (x : Iteration) : Decidable (EnvelopeAt env x) := decidable_of_iff _ (isEnvelope_iff _)
instance (x : Iteration) : Decidable (PayloadAt env x) := decidable_of_iff _ (isPayload_iff _)
instance (x : Iteration) : Decidable (Rejects env x) := decidable_of_iff _ (isRefusal_iff x)

theorem thorough_iff_sections : ∃ cp n,
    chatPacketDecode plainEnv 6 (chatPacketInit0 default) 0 bothSections bothSections.length =
        .returned 0 cp n ∧
      Thorough plainEnv 6 (chatPacketInit0 default) 0 bothSections bothSections.length 0 := by
  have clean : ∀ y ∈ visited plainEnv 6 (chatPacketInit0 default) 0 bothSections,
      ¬ Rejects plainEnv y := by decide +kernel
  have last : ∀ y ∈ visited plainEnv 6 (chatPacketInit0 default) 0 bothSections,
      EnvelopeAt plainEnv y → ∀ i ∈ sectionEnd plainEnv y, y.len ≤ i := by decide +kernel
  obtain ⟨cp, n, run⟩ := bothSections_returned
  refine ⟨cp, n, run, (thorough_iff run).mpr (.inr ⟨?_, ?_⟩)⟩
  · intro x t decrypted visit kind enter
    exact last x (visited_bothSections visit) kind _ (sectionEnd_eq_some.mpr ⟨t, decrypted, enter, rfl⟩)
  · intro x nested
    exact clean x (visited_bothSections nested.visits)

/-- An envelope around a byte that no decoder accepts. -/
def noopEnvelope : Bytes :=
  [lengthStored 17].flatMap Field.bytes ++
    (Tag.encryptedEnvelope.toByte ::
      sealBytes plainEnv.crypto plainEnv.pair.sharedkey plainEnv.pair.nullnonce [Tag.noop.toByte])

def lengthRead (i : Nat) : Decoding :=
  { Decoding.start (chatPacketInit0 default) 0 with i := i, cp.envelopeLength := 17 }

theorem noopEnvelope_nested :
    ∃ x, Visits plainEnv 4 (chatPacketInit0 default) 0 noopEnvelope noopEnvelope.length x ∧
      Rejects plainEnv x := by
  have whole : Ahead noopEnvelope noopEnvelope.length (.start (chatPacketInit0 default) 0)
      noopEnvelope := ⟨⟨[], by simp [Decoding.start]⟩, by simp [Decoding.start]⟩
  have small : noopEnvelope.length < 2 ^ 32 := by
    simp [noopEnvelope, length_sealBytes, lengthStored, Field.bytes]
  have known : ∀ f ∈ [lengthStored 17], f.Known plainEnv := by simpa using lengthStored_known 17
  obtain ⟨i, reach, ahead⟩ :=
    reads_fields (chatPacketDecode plainEnv 3) known whole (Nat.le_refl _) small
  have behind : Ahead noopEnvelope noopEnvelope.length (lengthRead i) _ := ahead
  obtain ⟨more, sealed, _⟩ := body_envelope plainEnv (chatPacketDecode plainEnv 3) behind small
  obtain ⟨beyond, here⟩ := behind.here
  have index : advance i 1 = i + 1 := DecodeTermination.advance_inside more small
  have first : noopEnvelope[(lengthRead i).i]? = some Tag.encryptedEnvelope.toByte :=
    getElem?_of_drop here
  have opens := openEnvelope_sealed sealed (Nat.le_refl _) rfl (List.cons_ne_nil _ _)
  have enter : ∃ t, Iteration.opened plainEnv ⟨noopEnvelope, noopEnvelope.length, lengthRead i⟩ =
      some (.ok (.section t [Tag.noop.toByte])) := by
    rw [Iteration.opened, case_of_tag first]
    simp only [tagCase, Iteration.afterTag, lengthRead, index] at opens ⊢
    rw [opens]
    exact ⟨_, rfl⟩
  obtain ⟨t, enter⟩ := enter
  have inside : Decoding.i (.start t.cp t.allocs) < [Tag.noop.toByte].length := by
    simp [Decoding.start]
  exact ⟨_, .inside reach more enter (.here .refl inside), .inl rfl⟩

/-- What is wrong in the envelope does not make the whole call return -1. -/
theorem noopEnvelope_accepted :
    ¬ ∀ fuel b ret cp n, chatPacketDecode plainEnv fuel (chatPacketInit0 default) 0 b b.length =
        .returned ret cp n → Thorough plainEnv fuel (chatPacketInit0 default) 0 b b.length ret := by
  intro always
  obtain ⟨x, visit, rejects⟩ := noopEnvelope_nested
  have accepted : chatPacketDecode plainEnv 4 (chatPacketInit0 default) 0 noopEnvelope
      noopEnvelope.length = .returned 0
        { chatPacketInit0 default with envelopeLength := 17, wasEncrypted := 0 - 1 } 2 := by
    decide +kernel
  cases (always 4 noopEnvelope 0 _ 2 accepted).rejected x visit rejects

end SectionErrors
