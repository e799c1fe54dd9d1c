import ChatFabric.DecodeHistory

/- Two runs of the decoder over one string. There are fields of the packet that it stores and
   never reads; two packets that differ in these lead it through the same iterations, and
   differ in the end where no tag of the string has set them. -/
namespace ChatFabric
open ByteStrings WhileLoop DecodeTermination

/-- Other values for fields that the decoder never reads. Of the flags it only sets bits, so
    all of them set is a value it carries along. -/
structure Overlay where
  flags : Bool
  nonce : Option (Block 8)
  to0 : Option (Block 16)
  to1 : Option (Block 16)
  from0 : Option (Block 16)
  from1 : Option (Block 16)

namespace Overlay

def on (o : Overlay) (cp : ChatPacket) : ChatPacket :=
  { cp with
    wasEncrypted := if o.flags then 0 - 1 else cp.wasEncrypted
    nonce := o.nonce.getD cp.nonce
    toUuid := ⟨o.to0.getD cp.toUuid.u0, o.to1.getD cp.toUuid.u1⟩
    fromUuid := ⟨o.from0.getD cp.fromUuid.u0, o.from1.getD cp.fromUuid.u1⟩ }

def without (o : Overlay) : Tag → Overlay
  | .nonce => { o with nonce := none }
  | .to0 => { o with to0 := none }
  | .to1 => { o with to1 := none }
  | .from0 => { o with from0 := none }
  | .from1 => { o with from1 := none }
  | _ => o

def after (o : Overlay) (tags : List Tag) : Overlay := tags.foldl without o

@[simp] theorem after_nil (o : Overlay) : o.after [] = o := rfl
@[simp] theorem after_cons (o : Overlay) (tag : Tag) (tags : List Tag) :
    o.after (tag :: tags) = (o.without tag).after tags := rfl

theorem after_append (o : Overlay) (first later : List Tag) :
    o.after (first ++ later) = (o.after first).after later := by
  simp [after]

theorem after_eq (o : Overlay) (tags : List Tag) : o.after tags = { o with
    nonce := if .nonce ∈ tags then none else o.nonce
    to0 := if .to0 ∈ tags then none else o.to0
    to1 := if .to1 ∈ tags then none else o.to1
    from0 := if .from0 ∈ tags then none else o.from0
    from1 := if .from1 ∈ tags then none else o.from1 } := by
  induction tags generalizing o with
  | nil => simp
  | cons tag tags ih =>
    rw [after_cons, ih]
    cases tag <;> simp [without]

end Overlay

/-- The second packet is the first with the overlay's values. Data of no length are a pointer
    that nobody follows, and may be anything. -/
structure Overlaid (o : Overlay) (cp cp' : ChatPacket) : Prop where
  rest : ∃ data, cp' = { o.on cp with actionData := data }
  data : cp.actionLength ≠ 0 → cp'.actionData = cp.actionData

structure StateOverlaid (o : Overlay) (s s' : Decoding) : Prop where
  state : s' = { s with cp := s'.cp }
  packet : Overlaid o s.cp s'.cp

inductive EndOverlaid (o : Overlay) : DecodeEnd → DecodeEnd → Prop where
  | returned {ret : Int} {cp cp' : ChatPacket} {allocs : Nat} (packet : Overlaid o cp cp') :
      EndOverlaid o (.returned ret cp allocs) (.returned ret cp' allocs)
  | fault (f : Fault) : EndOverlaid o (.fault f) (.fault f)
  | endless : EndOverlaid o .endless .endless

inductive StepOverlaid {ε : Type} (same : ε → ε → Prop) (o : Overlay) :
    Except ε Decoding → Except ε Decoding → Prop where
  | ok {s s' : Decoding} (states : StateOverlaid o s s') : StepOverlaid same o (.ok s) (.ok s')
  | error {e e' : ε} (errors : same e e') : StepOverlaid same o (.error e) (.error e')

abbrev StoreOverlaid : Overlay → Except Fault Decoding → Except Fault Decoding → Prop :=
  StepOverlaid Eq

inductive CaseOverlaid (o : Overlay) (s s' : Decoding) : TagCase → TagCase → Prop where
  | copy {width move : Nat} {store store' : Bytes → Decoding → Except Fault Decoding}
      (stores : ∀ v, v.length = width → StoreOverlaid o (store v s) (store' v s')) :
      CaseOverlaid o s s' (.copy width move store) (.copy width move store')
  | encryptedEnvelope (states : StateOverlaid o s s') :
      CaseOverlaid o s s' .encryptedEnvelope .encryptedEnvelope
  | encryptedPayload (states : StateOverlaid o s s') :
      CaseOverlaid o s s' .encryptedPayload .encryptedPayload
  | reject (states : StateOverlaid o s s') : CaseOverlaid o s s' .reject .reject
  | fault (f : Fault) : CaseOverlaid o s s' (.fault f) (.fault f)

section
variable {env : DecodeEnv} {o : Overlay} {s s' : Decoding}

theorem StateOverlaid.eq (states : StateOverlaid o s s') :
    ∃ data, s' = { s with cp := { o.on s.cp with actionData := data } } ∧
      (s.cp.actionLength ≠ 0 → data = s.cp.actionData) := by
  obtain ⟨same, ⟨data, rest⟩, dead⟩ := states
  rw [rest] at same dead
  exact ⟨data, same, dead⟩

theorem setControl_overlaid (states : StateOverlaid o s s') (f : CfControl → CfControl) :
    StoreOverlaid o (s.setControl f) (s'.setControl f) := by
  obtain ⟨data, rfl, dead⟩ := states.eq
  unfold Decoding.setControl
  simp only [Overlay.on]
  split
  · exact .error rfl
  · split
    · exact .ok ⟨rfl, ⟨data, rfl⟩, dead⟩
    · exact .error rfl

theorem control_overlaid (states : StateOverlaid o s s') : s'.control = s.control := by
  obtain ⟨data, rfl, _⟩ := states.eq
  rfl

theorem bind_overlaid {α : Type} {r : Except Fault α} {store store' : α → Decoding}
    (states : ∀ a, StateOverlaid o (store a) (store' a)) :
    StoreOverlaid o (r >>= fun a => .ok (store a)) (r >>= fun a => .ok (store' a)) := by
  cases r with
  | error f => exact .error rfl
  | ok a => exact .ok (states a)

theorem padding_overlaid {size : Nat} {store store' : Bytes → Decoding → Except Fault Decoding}
    (states : StateOverlaid o s s')
    (stores : ∀ v, v.length = size → StoreOverlaid o (store v s) (store' v s')) :
    CaseOverlaid o s s' (.padding size store) (.padding size store') := by
  unfold TagCase.padding
  split
  · exact .reject states
  · exact .copy stores

theorem ofControl_overlaid {copy copy' : CfControl → TagCase} (states : StateOverlaid o s s')
    (each : ∀ c, CaseOverlaid o s s' (copy c) (copy' c)) :
    CaseOverlaid o s s' (.ofControl s copy) (.ofControl s' copy') := by
  unfold TagCase.ofControl
  rw [control_overlaid states]
  split
  · exact each _
  · exact .fault _

theorem tagCase_overlaid (env : DecodeEnv) (states : StateOverlaid o s s') (tag : Tag) :
    CaseOverlaid (o.without tag) s s' (tagCase env s tag) (tagCase env s' tag) := by
  obtain ⟨data, rfl, dead⟩ := states.eq
  cases tag with
  | encryptedEnvelope => exact .encryptedEnvelope states
  | encryptedPayload => exact .encryptedPayload states
  | noop | nonceLength | publickeyId | configLength | config | mac | endtag => exact .reject states
  | envelopeRandomPaddingHigh | envelopeRandomPaddingLow | payloadRandomPaddingHigh
  | payloadRandomPaddingLow =>
    exact padding_overlaid states fun v _ => bind_overlaid fun p => ⟨rfl, ⟨data, rfl⟩, dead⟩
  | payload => exact .copy fun v _ => bind_overlaid fun p => ⟨rfl, ⟨data, rfl⟩, dead⟩
  | payloadLength =>
    refine .copy fun v _ => ?_
    by_cases more : s.cp.payloadLength < ofBe32 v
    · simp only [Overlay.on, more, if_true]
      exact .ok ⟨rfl, ⟨data, rfl⟩, dead⟩
    · simp only [Overlay.on, more, if_false]
      exact .ok ⟨rfl, ⟨data, rfl⟩, dead⟩
  | actionLength =>
    refine .copy fun v _ => ?_
    simp only [Overlay.on]
    split
    · exact .ok ⟨rfl, ⟨_, rfl⟩, fun _ => rfl⟩
    · rename_i none
      have zero : ofBe32 v = 0 := UInt32.toNat_inj.mp (by
        have := mt UInt32.lt_iff_toNat_lt.mpr none
        simp only [UInt32.toNat_zero] at this ⊢
        omega)
      exact .ok ⟨rfl, ⟨data, rfl⟩, fun some => absurd zero some⟩
  | actionData =>
    refine .copy fun v size => ?_
    by_cases empty : s.cp.actionLength = 0
    · have none : v = [] := List.eq_nil_of_length_eq_zero (by rw [size, empty]; rfl)
      subst none
      exact .ok ⟨rfl, ⟨data, rfl⟩, dead⟩
    · have same : data = s.cp.actionData := dead empty
      subst same
      exact bind_overlaid fun d => ⟨rfl, ⟨d, rfl⟩, fun _ => rfl⟩
  | appControlI =>
    have entered : StateOverlaid o { s with curControler := s.curControler + 1 }
        { s with cp := { o.on s.cp with actionData := data }, curControler := s.curControler + 1 } :=
      ⟨rfl, ⟨data, rfl⟩, dead⟩
    exact .copy fun v _ => setControl_overlaid entered _
  | appControlType | appControlValue | appControlRangeLow | appControlRangeHigh
  | appControlLabelLength => exact .copy fun v _ => setControl_overlaid states _
  | appControlLabel =>
    refine ofControl_overlaid states fun c => ?_
    simp only
    split
    · exact .fault _
    · refine .copy fun v _ => ?_
      split
      · exact setControl_overlaid ⟨rfl, ⟨data, rfl⟩, dead⟩ _
      · exact .error rfl
  | appControlData =>
    refine ofControl_overlaid states fun c => .copy fun v _ => ?_
    split
    · exact setControl_overlaid ⟨rfl, ⟨data, rfl⟩, dead⟩ _
    · exact .error rfl
  | _ => exact .copy fun v _ => .ok ⟨rfl, ⟨data, rfl⟩, dead⟩

theorem StateOverlaid.marked (states : StateOverlaid o s s') (bit : UInt32) (i : Nat) (dangling : Bool)
    (allocs : Nat) :
    StateOverlaid o
      { s with
        i := i, dangling := dangling, allocs := allocs
        cp.wasEncrypted := s.cp.wasEncrypted ||| bit }
      { s' with
        i := i, dangling := dangling, allocs := allocs
        cp.wasEncrypted := s'.cp.wasEncrypted ||| bit } := by
  obtain ⟨data, rfl, dead⟩ := states.eq
  refine ⟨rfl, ⟨data, ?_⟩, dead⟩
  have minus : (0 - 1 : UInt32) ||| bit = 0 - 1 := by
    rw [show (0 - 1 : UInt32) = -1 by decide, UInt32.neg_one_or]
  cases set : o.flags with
  | true => simp [Overlay.on, set]
  | false => simp [Overlay.on, set]

theorem StateOverlaid.moved (states : StateOverlaid o s s') (i : Nat) :
    StateOverlaid o { s with i := i } { s' with i := i } := by
  obtain ⟨data, rfl, dead⟩ := states.eq
  exact ⟨rfl, ⟨data, rfl⟩, dead⟩

inductive OpenedOverlaid (o : Overlay) : Except Fault Opened → Except Fault Opened → Prop where
  | refused {s s' : Decoding} (states : StateOverlaid o s s') :
      OpenedOverlaid o (.ok (.refused s)) (.ok (.refused s'))
  | section {s s' : Decoding} (decrypted : Bytes) (states : StateOverlaid o s s') :
      OpenedOverlaid o (.ok (.section s decrypted)) (.ok (.section s' decrypted))
  | error (f : Fault) : OpenedOverlaid o (.error f) (.error f)

theorem openEnvelope_overlaid (states : StateOverlaid o s s') (b : Bytes) :
    OpenedOverlaid o (openEnvelope env b s) (openEnvelope env b s') := by
  have marked := states.marked 0x02
  obtain ⟨data, rfl, dead⟩ := states.eq
  simp only [openEnvelope, bind, Except.bind, Overlay.on] at marked ⊢
  cases verifySection env b s.i s.cp.envelopeLength (s.allocs + 1) with
  | error f => exact .error f
  | ok verified =>
    cases verified with
    | false => exact .refused (marked _ _ _)
    | true =>
      cases decryptSection env b s.i s.cp.envelopeLength s.allocs env.pair.nullnonce with
      | error f => exact .error f
      | ok decrypted => exact .section decrypted (marked _ _ _)

theorem openPayload_overlaid (states : StateOverlaid o s s') (b : Bytes) :
    OpenedOverlaid o (openPayload env b s) (openPayload env b s') := by
  have marked := states.marked 0x01
  obtain ⟨data, rfl, dead⟩ := states.eq
  simp only [openPayload, bind, Except.bind, Overlay.on] at marked ⊢
  split
  · cases verifySection env b s.i s.cp.payloadLength (s.allocs + 1) with
    | error f => exact .error f
    | ok verified =>
      cases verified with
      | false =>
        cases free : s.dangling with
        | true => exact .error _
        | false => exact .refused (free ▸ marked _ _ _)
      | true =>
        simp only [if_true]
        cases decryptSection env b s.i s.cp.payloadLength (s.allocs + 2)
          (chatPacketCalcNonce s.cp.serial env.pair.mynonce) with
        | error f => exact .error f
        | ok decrypted => exact .section decrypted (marked _ _ _)
  · exact .error _

end

def tagsMet (moments : List Moment) : List Tag :=
  moments.filterMap fun
    | .tag x => tagAt x
    | _ => none

@[simp] theorem tagsMet_append (first later : List Moment) :
    tagsMet (first ++ later) = tagsMet first ++ tagsMet later := List.filterMap_append ..

section
variable {env : DecodeEnv} {o p : Overlay} {s s' : Decoding}

theorem resumed_overlaid {cp cp' : ChatPacket} (states : StateOverlaid o s s') (packet : Overlaid p cp cp')
    (allocs : Nat) :
    StateOverlaid p { s with cp := cp, allocs := allocs } { s' with cp := cp', allocs := allocs } := by
  obtain ⟨data, rfl, _⟩ := states.eq
  exact ⟨rfl, packet⟩

theorem afterEnvelope_overlaid {e e' : DecodeEnd} (states : StateOverlaid o s s')
    (ends : EndOverlaid p e e') :
    StepOverlaid (EndOverlaid p) p (afterEnvelope s e) (afterEnvelope s' e') := by
  cases ends with
  | @returned ret cp cp' allocs packet =>
    by_cases zero : ret = 0
    · simp only [afterEnvelope, zero, if_true]
      exact .error (.returned packet)
    · simp only [afterEnvelope, zero, if_false]
      exact .ok (resumed_overlaid states packet allocs)
  | fault f => exact .error (.fault f)
  | endless => exact .error .endless

theorem afterPayload_overlaid {e e' : DecodeEnd} (states : StateOverlaid o s s')
    (ends : EndOverlaid p e e') :
    StepOverlaid (EndOverlaid p) p (afterPayload s e) (afterPayload s' e') := by
  cases ends with
  | @returned ret cp cp' allocs packet =>
    by_cases zero : ret = 0
    · simp only [afterPayload, zero, if_true]
      exact .ok (resumed_overlaid states packet allocs)
    · simp only [afterPayload, zero, if_false]
      exact .error (.returned packet)
  | fault f => exact .error (.fault f)
  | endless => exact .error .endless

def CallOverlaid (again : DecodeCall) (inner : ChatPacket → Nat → Bytes → Nat → List Moment) : Prop :=
  ∀ o cp cp' n b len, Overlaid o cp cp' →
    EndOverlaid (o.after (tagsMet (inner cp n b len))) (again cp n b len) (again cp' n b len)

variable {again : DecodeCall} {inner : ChatPacket → Nat → Bytes → Nat → List Moment}

theorem after_closed {x : Iteration} {tag : Tag} (here : tagAt x = some tag)
    (closed : ∀ t decrypted, x.opened env ≠ some (.ok (.section t decrypted))) :
    o.after (tagsMet (momentsAt env inner x)) = o.without tag := by
  rw [momentsAt_closed closed]
  simp [tagsMet, here]

theorem section_overlaid (calls : CallOverlaid again inner) {x : Iteration} {tag : Tag}
    {opened opened' : Except Fault Opened} {after : Decoding → DecodeEnd → Except DecodeEnd Decoding}
    (goes : ∀ {o p s s' e e'}, StateOverlaid o s s' → EndOverlaid p e e' →
      StepOverlaid (EndOverlaid p) p (after s e) (after s' e'))
    (here : tagAt x = some tag) (enters : x.opened env = some opened)
    (same : OpenedOverlaid (o.without tag) opened opened') :
    StepOverlaid (EndOverlaid (o.after (tagsMet (momentsAt env inner x))))
      (o.after (tagsMet (momentsAt env inner x)))
      (enterSection again after opened) (enterSection again after opened') := by
  cases same with
  | error f => exact .error (.fault f)
  | refused states =>
    rw [after_closed here (by simp [enters])]
    have allocs := congrArg Decoding.allocs states.state
    simp only at allocs
    simp only [enterSection, allocs]
    exact .error (.returned states.packet)
  | @«section» t t' decrypted states =>
    rw [momentsAt_section enters]
    have met := calls _ _ _ t.allocs decrypted decrypted.length states.packet
    have allocs := congrArg Decoding.allocs states.state
    simp only at allocs
    simp only [enterSection, allocs]
    simpa [tagsMet, here] using goes states met

theorem copy_overlaid {width move : Nat} {store store' : Bytes → Decoding → Except Fault Decoding}
    {b : Bytes} (index : s'.i = s.i)
    (stores : ∀ v, v.length = width → StoreOverlaid o (store v s) (store' v s')) :
    StepOverlaid (EndOverlaid o) o
      ((decodeCopy b s width move store).mapError DecodeEnd.fault)
      ((decodeCopy b s' width move store').mapError DecodeEnd.fault) := by
  simp only [decodeCopy, bind, Except.bind, index]
  cases read : readAt b s.i width with
  | error f => exact .error (.fault f)
  | ok v =>
    have stored := stores v (readAt_ok read).1
    simp only
    generalize store v s = first at stored ⊢
    generalize store' v s' = second at stored ⊢
    cases stored with
    | error same => exact .error (same ▸ .fault _)
    | ok states => exact .ok (states.moved _)

theorem body_overlaid (env : DecodeEnv) (calls : CallOverlaid again inner) (states : StateOverlaid o s s') (b : Bytes)
    (len : Nat) :
    StepOverlaid (EndOverlaid (o.after (tagsMet (momentsAt env inner ⟨b, len, s⟩))))
      (o.after (tagsMet (momentsAt env inner ⟨b, len, s⟩)))
      (decodeBody env again b s) (decodeBody env again b s') := by
  have index : s'.i = s.i := by rw [states.state]
  have allocs : s'.allocs = s.allocs := by rw [states.state]
  have later := states.moved (advance s.i 1)
  unfold decodeBody
  rw [index]
  cases here : b[s.i]? with
  | none => exact .error (.fault _)
  | some c =>
    cases named : Tag.ofByte c with
    | none =>
      have unknown : ∀ u, byteCase env u c = .reject := fun u => by simp [byteCase, named]
      have none : tagsMet (momentsAt env inner ⟨b, len, s⟩) = [] := by
        rw [momentsAt_closed (by simp [Iteration.opened, Iteration.case, here, unknown])]
        simp [tagsMet, tagAt, here, named]
      simp only [unknown, decodeCase, none, Overlay.after_nil, allocs]
      exact .error (.returned states.packet)
    | some tag =>
      have met : tagAt (⟨b, len, s⟩ : Iteration) = some tag := by simp [tagAt, here, named]
      have known : (⟨b, len, s⟩ : Iteration).case env = some (tagCase env { s with i := advance s.i 1 } tag) := by
        simp [Iteration.case, here, byteCase, named, Iteration.afterTag]
      have cases := tagCase_overlaid env later tag
      simp only [byteCase, named]
      generalize tagCase env { s with i := advance s.i 1 } tag = first at known cases ⊢
      generalize tagCase env { s' with i := advance s.i 1 } tag = second at cases ⊢
      cases cases with
      | @copy width move store store' stores =>
        rw [after_closed met (by simp [Iteration.opened, known])]
        exact copy_overlaid rfl stores
      | encryptedEnvelope states =>
        exact section_overlaid calls afterEnvelope_overlaid met (by simp only [Iteration.opened, known]; rfl)
          (openEnvelope_overlaid states b)
      | encryptedPayload states =>
        exact section_overlaid calls afterPayload_overlaid met (by simp only [Iteration.opened, known]; rfl)
          (openPayload_overlaid states b)
      | reject states =>
        rw [after_closed met (by simp [Iteration.opened, known])]
        simp only [decodeCase, allocs]
        exact .error (.returned states.packet)
      | fault f => exact .error (.fault f)

theorem loop_overlaid (calls : CallOverlaid again inner) (states : StateOverlaid o s s') (b : Bytes)
    (len passes : Nat) :
    EndOverlaid (o.after (tagsMet (loopHistory env again inner b len passes s)))
      (decodeEnd (iterate (decodeGuard len) (decodeBody env again b) passes s))
      (decodeEnd (iterate (decodeGuard len) (decodeBody env again b) passes s')) := by
  induction passes generalizing o s s' with
  | zero => exact .endless
  | succ passes ih =>
    have guard : decodeGuard len s' = decodeGuard len s := by rw [states.state, decodeGuard, decodeGuard]
    cases more : decodeGuard len s with
    | false =>
      have allocs : s'.allocs = s.allocs := by rw [states.state]
      rw [iterate_done more, iterate_done (guard.trans more), loopHistory, more]
      simp only [decodeEnd, allocs]
      exact .returned states.packet
    | true =>
      have body := body_overlaid env calls states b len
      rw [loopHistory, if_pos more, tagsMet_append, Overlay.after_append]
      cases pass : decodeBody env again b s with
      | error e =>
        rw [pass] at body
        generalize turn : decodeBody env again b s' = second at body
        cases body with
        | error ends =>
          rw [iterate_exit more pass, iterate_exit (guard.trans more) turn]
          exact ends
      | ok t =>
        rw [pass] at body
        generalize turn : decodeBody env again b s' = second at body
        cases body with
        | ok states =>
          rw [iterate_pass ⟨more, pass⟩, iterate_pass ⟨guard.trans more, turn⟩]
          exact ih states

/-- The decoder on a packet and on the packet under an overlay, by induction on the depth of
    the sections: the same end, and what is left of the overlay is what no tag has met. -/
theorem chatPacketDecode_overlaid (env : DecodeEnv) (fuel : Nat) :
    CallOverlaid (chatPacketDecode env fuel) (history env fuel) := by
  induction fuel with
  | zero =>
    intro o cp cp' n b len packet
    exact .endless
  | succ fuel ih =>
    intro o cp cp' n b len packet
    rw [history, chatPacketDecode, chatPacketDecode]
    exact loop_overlaid ih ⟨rfl, packet⟩ b len fuel

end

end ChatFabric
