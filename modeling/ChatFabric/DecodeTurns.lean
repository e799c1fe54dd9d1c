import ChatFabric.DecodeTermination

/- What one iteration of the decoder can come to, and the rule for what a call keeps of
   the packet: an invariant of every copy, at every level, is an invariant of the call. -/
namespace ChatFabric
open ByteStrings WhileLoop DecodeTermination

structure SectionState (s t : Decoding) : Prop where
  packet : ∃ w, t.cp = { s.cp with wasEncrypted := w }
  curControler : t.curControler = s.curControler
  paddings : t.h = s.h ∧ t.l = s.l ∧ t.hp = s.hp ∧ t.lp = s.lp

def Opened.state : Opened → Decoding
  | .refused s | .section s _ => s

variable {env : DecodeEnv}

theorem openEnvelope_state {b : Bytes} {s : Decoding} {o : Opened}
    (result : openEnvelope env b s = .ok o) :
    SectionState s o.state := by
  simp only [openEnvelope, bind, Except.bind] at result
  split at result
  · cases result
  · split at result
    · split at result
      · cases result
      · cases result
        exact ⟨⟨_, rfl⟩, rfl, rfl, rfl, rfl, rfl⟩
    · cases result
      exact ⟨⟨_, rfl⟩, rfl, rfl, rfl, rfl, rfl⟩

theorem openPayload_state {b : Bytes} {s : Decoding} {o : Opened}
    (result : openPayload env b s = .ok o) :
    SectionState s o.state := by
  simp only [openPayload, bind, Except.bind] at result
  split at result
  · split at result
    · cases result
    · split at result
      · split at result
        · cases result
        · cases result
          exact ⟨⟨_, rfl⟩, rfl, rfl, rfl, rfl, rfl⟩
      · split at result
        · cases result
        · cases result
          exact ⟨⟨_, rfl⟩, rfl, rfl, rfl, rfl, rfl⟩
  · cases result

theorem opened_state {x : Iteration} {o : Opened} (result : x.opened env = some (.ok o)) :
    SectionState x.afterTag o.state := by
  simp only [Iteration.opened] at result
  split at result
  · exact openEnvelope_state (Option.some.inj result)
  · exact openPayload_state (Option.some.inj result)
  · cases result

/-- What an iteration comes to. A call on a section that returns leaves its packet behind,
    whether the loop goes on or ends with it. -/
inductive Turnout (env : DecodeEnv) (again : DecodeCall) (x : Iteration) :
    Except DecodeEnd Decoding → Prop where
  | copied {width move : Nat} {store : Bytes → Decoding → Except Fault Decoding} {v : Bytes}
      {t : Decoding} (known : x.case env = some (.copy width move store))
      (read : readAt x.b x.afterTag.i width = .ok v) (stored : store v x.afterTag = .ok t) :
      Turnout env again x (.ok { t with i := advance x.afterTag.i move })
  | rejected (w : UInt32) (allocs : Nat)
      (closed : ∀ t decrypted, x.opened env ≠ some (.ok (.section t decrypted)))
      (noCopy : ∀ width move store, x.case env ≠ some (.copy width move store)) :
      Turnout env again x (.error (.returned (-1) { x.s.cp with wasEncrypted := w } allocs))
  | resumed {t : Decoding} {decrypted : Bytes} {ret : Int} {cp : ChatPacket} {allocs : Nat}
      (enter : x.opened env = some (.ok (.section t decrypted)))
      (nested : again t.cp t.allocs decrypted decrypted.length = .returned ret cp allocs) :
      Turnout env again x (.ok { t with cp := cp, allocs := allocs })
  | ended {t : Decoding} {decrypted : Bytes} {ret : Int} {cp : ChatPacket} {allocs : Nat} (r : Int)
      (enter : x.opened env = some (.ok (.section t decrypted)))
      (nested : again t.cp t.allocs decrypted decrypted.length = .returned ret cp allocs) :
      Turnout env again x (.error (.returned r cp allocs))
  | aborted {e : DecodeEnd} (aborts : Aborts e) : Turnout env again x (.error e)

theorem enterSection_turnout {again : DecodeCall} {x : Iteration}
    {after : Decoding → DecodeEnd → Except DecodeEnd Decoding} {o : Except Fault Opened}
    (goes : ∀ t ret cp allocs, after t (.returned ret cp allocs) = .ok { t with cp := cp, allocs := allocs } ∨
      ∃ r, after t (.returned ret cp allocs) = .error (.returned r cp allocs))
    (stops : ∀ t e, Aborts e → after t e = .error e)
    (opened : x.opened env = some o)
    (noCopy : ∀ width move store, x.case env ≠ some (.copy width move store)) :
    Turnout env again x (enterSection again after o) := by
  match o with
  | .ok (.section t decrypted) =>
    simp only [enterSection]
    cases nested : again t.cp t.allocs decrypted decrypted.length with
    | returned ret cp allocs =>
      rcases goes t ret cp allocs with on | ⟨r, off⟩
      · rw [on]
        exact .resumed opened nested
      · rw [off]
        exact .ended r opened nested
    | fault f =>
      rw [stops t (.fault f) (by simp [Aborts])]
      exact .aborted (by simp [Aborts])
    | endless =>
      rw [stops t .endless (by simp [Aborts])]
      exact .aborted (by simp [Aborts])
  | .ok (.refused s) =>
    obtain ⟨⟨w, packet⟩, _, _⟩ := opened_state opened
    simp only [Opened.state] at packet
    simp only [enterSection, packet]
    exact .rejected w s.allocs (by simp [opened]) noCopy
  | .error f =>
    exact .aborted (by simp [Aborts])

theorem decodeBody_turnout (again : DecodeCall) (x : Iteration) :
    Turnout env again x (decodeBody env again x.b x.s) := by
  rw [decodeBody_eq]
  cases known : x.case env with
  | none => exact .aborted (by simp [Aborts])
  | some c =>
    simp only
    cases c with
    | copy width move store =>
      simp only [decodeCase, decodeCopy, bind, Except.bind]
      cases read : readAt x.b x.afterTag.i width with
      | error f => exact .aborted (by simp [Aborts])
      | ok v =>
        simp only
        cases stored : store v x.afterTag with
        | error f => exact .aborted (by simp [Aborts])
        | ok t => exact .copied known read stored
    | encryptedEnvelope =>
      refine enterSection_turnout ?_ ?_ (by simp [Iteration.opened, known]) (by simp [known])
      · intro t ret cp allocs
        by_cases zero : ret = 0
        · exact .inr ⟨0, by simp [afterEnvelope, zero]⟩
        · exact .inl (by simp [afterEnvelope, zero])
      · intro t e aborts
        cases e with
        | returned ret cp allocs => exact absurd rfl (aborts _ _ _)
        | fault f => rfl
        | endless => rfl
    | encryptedPayload =>
      refine enterSection_turnout ?_ ?_ (by simp [Iteration.opened, known]) (by simp [known])
      · intro t ret cp allocs
        by_cases zero : ret = 0
        · exact .inl (by simp [afterPayload, zero])
        · exact .inr ⟨-1, by simp [afterPayload, zero]⟩
      · intro t e aborts
        cases e with
        | returned ret cp allocs => exact absurd rfl (aborts _ _ _)
        | fault f => rfl
        | endless => rfl
    | reject =>
      exact .rejected x.s.cp.wasEncrypted _ (by simp [Iteration.opened, known]) (by simp [known])
    | fault f => exact .aborted (by simp [Aborts])

def Stores (s : Decoding) (Left : Bytes → Decoding → Prop) : TagCase → Prop
  | .copy width _ store => ∀ v t, v.length = width → store v s = .ok t → Left v t
  | _ => True

section stores
variable {s : Decoding} {Left : Bytes → Decoding → Prop}

@[simp] theorem stores_copy {width move : Nat} {store : Bytes → Decoding → Except Fault Decoding} :
    Stores s Left (.copy width move store) ↔
      ∀ v t, v.length = width → store v s = .ok t → Left v t := .rfl

@[simp] theorem stores_reject : Stores s Left .reject := trivial
@[simp] theorem stores_fault (f : Fault) : Stores s Left (.fault f) := trivial
@[simp] theorem stores_encryptedEnvelope : Stores s Left .encryptedEnvelope := trivial
@[simp] theorem stores_encryptedPayload : Stores s Left .encryptedPayload := trivial

@[simp] theorem stores_field {width : Nat} {store : Bytes → ChatPacket → ChatPacket} :
    Stores s Left (.field width store) ↔
      ∀ v, v.length = width → Left v { s with cp := store v s.cp } := by
  simp [Stores, TagCase.field]

@[simp] theorem stores_padding {size : Nat} {store : Bytes → Decoding → Except Fault Decoding} :
    Stores s Left (.padding size store) ↔
      (size ≠ 0 → ∀ v t, v.length = size → store v s = .ok t → Left v t) := by
  by_cases zero : size = 0 <;> simp [TagCase.padding, zero]

theorem stores_ofControl {copy : CfControl → TagCase}
    (each : ∀ c, s.control = .ok c → Stores s Left (copy c)) :
    Stores s Left (.ofControl s copy) := by
  unfold TagCase.ofControl
  split
  · rename_i c found
    exact each c found
  · trivial

theorem setControl_ok {t : Decoding} {f : CfControl → CfControl} (done : s.setControl f = .ok t) :
    ∃ table, s.cp.controlers = some table ∧ s.curControler.toNat < table.length ∧
      t = { s with cp.controlers := some (table.modify s.curControler.toNat f) } := by
  unfold Decoding.setControl at done
  split at done
  · cases done
  · rename_i table there
    split at done
    · rename_i inside
      exact ⟨table, there, inside, (Except.ok.inj done).symm⟩
    · cases done

theorem Stores.mono {Right : Bytes → Decoding → Prop} {c : TagCase} (left : Stores s Left c)
    (implies : ∀ v t, Left v t → Right v t) : Stores s Right c := by
  cases c with
  | copy width move store =>
    intro v t size stored
    exact implies v t (left v t size stored)
  | _ => trivial

end stores

def entryTag : Tag → Bool
  | .appControlI | .appControlType | .appControlValue | .appControlRangeLow | .appControlRangeHigh
  | .appControlLabelLength | .appControlLabel | .appControlData => true
  | _ => false

/-- The entry such a tag is about: app_control_i goes on to the next one first. -/
def entryOf (s : Decoding) (tag : Tag) : UInt32 :=
  if tag = .appControlI then s.curControler + 1 else s.curControler

structure EntryStored (s : Decoding) (tag : Tag) (t : Decoding) : Prop where
  entry : ∃ table table' allocs, s.cp.controlers = some table ∧ table'.length = table.length ∧
    (entryOf s tag).toNat < table.length ∧
    t = { s with
      curControler := entryOf s tag
      cp.controlers := some table'
      allocs := allocs }

theorem entryTag_stores (s : Decoding) {tag : Tag} (entry : entryTag tag = true) :
    Stores s (fun _ t => EntryStored s tag t) (tagCase env s tag) := by
  cases tag with
  | appControlI | appControlType | appControlValue | appControlRangeLow | appControlRangeHigh
  | appControlLabelLength =>
    simp only [tagCase, TagCase.controlField, stores_copy]
    intro v t size stored
    obtain ⟨table, there, inside, rfl⟩ := setControl_ok stored
    exact ⟨table, _, _, there, List.length_modify .., inside, rfl⟩
  | appControlLabel =>
    refine stores_ofControl fun c _ => ?_
    simp only
    split
    · trivial
    · simp only [stores_copy]
      intro v t size stored
      split at stored
      · obtain ⟨table, there, inside, rfl⟩ := setControl_ok stored
        exact ⟨table, _, _, there, List.length_modify .., inside, rfl⟩
      · cases stored
  | appControlData =>
    refine stores_ofControl fun c _ => ?_
    simp only [stores_copy]
    intro v t size stored
    split at stored
    · obtain ⟨table, there, inside, rfl⟩ := setControl_ok stored
      exact ⟨table, _, _, there, List.length_modify .., inside, rfl⟩
    · cases stored
  | _ => cases entry

/-- What a tag leaves alone: all but the tag of the nonce, the nonce; and all but the tags of
    the control table, the table. -/
structure Untouched (s : Decoding) (tag : Tag) (t : Decoding) : Prop where
  nonce : tag ≠ .nonce → t.cp.nonce = s.cp.nonce
  table : tag ≠ .appControls → entryTag tag = false → t.curControler = s.curControler ∧
    t.cp.controlers = s.cp.controlers ∧ t.cp.numOfControllers = s.cp.numOfControllers

theorem Untouched.of_same {s t : Decoding} {tag : Tag} (nonce : t.cp.nonce = s.cp.nonce)
    (cur : t.curControler = s.curControler) (table : t.cp.controlers = s.cp.controlers)
    (count : t.cp.numOfControllers = s.cp.numOfControllers) : Untouched s tag t :=
  ⟨fun _ => nonce, fun _ _ => ⟨cur, table, count⟩⟩

theorem tagCase_untouched (s : Decoding) (tag : Tag) :
    Stores s (fun _ t => Untouched s tag t) (tagCase env s tag) := by
  cases entry : entryTag tag with
  | true =>
    refine (entryTag_stores s entry).mono fun v t stored => ?_
    obtain ⟨table, table', allocs, there, same, inside, rfl⟩ := stored
    refine ⟨fun _ => rfl, fun _ notEntry => ?_⟩
    cases entry.symm.trans notEntry
  | false =>
    cases tag with
    | nonce =>
      intro v t size stored
      cases stored
      exact ⟨fun other => absurd rfl other, fun _ _ => ⟨rfl, rfl, rfl⟩⟩
    | appControls =>
      intro v t size stored
      cases stored
      exact ⟨fun _ => rfl, fun other => absurd rfl other⟩
    | envelopeRandomPaddingHigh | envelopeRandomPaddingLow | payloadRandomPaddingHigh
    | payloadRandomPaddingLow =>
      simp only [tagCase, stores_padding, bind, Except.bind]
      intro _ v t size stored
      split at stored
      · cases stored
      · cases stored
        exact Untouched.of_same rfl rfl rfl rfl
    | payload | actionData =>
      simp only [tagCase, stores_copy, bind, Except.bind]
      intro v t size stored
      split at stored
      · cases stored
      · cases stored
        exact Untouched.of_same rfl rfl rfl rfl
    | payloadLength | actionLength =>
      simp only [tagCase, stores_copy]
      intro v t size stored
      split at stored
      · cases stored
        exact Untouched.of_same rfl rfl rfl rfl
      · cases stored
        exact Untouched.of_same rfl rfl rfl rfl
    | appControlI | appControlType | appControlValue | appControlRangeLow | appControlRangeHigh
    | appControlLabelLength | appControlLabel | appControlData => cases entry
    | encryptedEnvelope | encryptedPayload | noop | nonceLength | publickeyId | configLength | config
    | mac | endtag => trivial
    | _ =>
      intro v t size stored
      cases stored
      exact Untouched.of_same rfl rfl rfl rfl

theorem stores_of_case {x : Iteration} {c : TagCase} {Left : Bytes → Decoding → Prop}
    (known : x.case env = some c)
    (each : ∀ tag, Stores x.afterTag Left (tagCase env x.afterTag tag)) :
    Stores x.afterTag Left c := by
  simp only [Iteration.case, Option.map_eq_some_iff] at known
  obtain ⟨byte, _, rfl⟩ := known
  unfold byteCase
  split
  · exact each _
  · trivial

theorem case_of_tag {x : Iteration} {tag : Tag} (here : x.b[x.s.i]? = some tag.toByte) :
    x.case env = some (tagCase env x.afterTag tag) := by
  simp [Iteration.case, here, byteCase]

def mayRaise : Fault → Tag → Bool
  | .payloadWrite, tag => tag = .payload
  | .actionDataWrite, tag => tag = .actionData
  | .paddingWrite, tag => tag = .envelopeRandomPaddingHigh ∨ tag = .envelopeRandomPaddingLow ∨
      tag = .payloadRandomPaddingHigh ∨ tag = .payloadRandomPaddingLow
  | .controlAccess, tag => entryTag tag
  | _, _ => true

def Raises (s : Decoding) (May : Fault → Prop) : TagCase → Prop
  | .copy width _ store => ∀ v f, v.length = width → store v s = .error f → May f
  | .fault f => May f
  | _ => True

theorem ofControl_raises {s : Decoding} {tag : Tag} (entry : entryTag tag = true)
    {copy : CfControl → TagCase}
    (each : ∀ c, Raises s (fun f => mayRaise f tag = true) (copy c)) :
    Raises s (fun f => mayRaise f tag = true) (.ofControl s copy) := by
  unfold TagCase.ofControl
  split
  · exact each _
  · rename_i f failed
    rcases control_raises failed with rfl | rfl
    · rfl
    · exact entry

theorem tagCase_raises (s : Decoding) (tag : Tag) :
    Raises s (fun f => mayRaise f tag = true) (tagCase env s tag) := by
  cases tag with
  | appControlI | appControlType | appControlValue | appControlRangeLow | appControlRangeHigh
  | appControlLabelLength =>
    intro v f size failed
    rcases setControl_raises failed with rfl | rfl <;> rfl
  | appControlLabel =>
    refine ofControl_raises rfl fun c => ?_
    simp only
    split
    · rfl
    · intro v f size failed
      simp only at failed
      split at failed
      · rcases setControl_raises failed with rfl | rfl <;> rfl
      · cases failed
        rfl
  | appControlData =>
    refine ofControl_raises rfl fun c => ?_
    intro v f size failed
    simp only at failed
    split at failed
    · rcases setControl_raises failed with rfl | rfl <;> rfl
    · cases failed
      rfl
  | envelopeRandomPaddingHigh | envelopeRandomPaddingLow | payloadRandomPaddingHigh
  | payloadRandomPaddingLow =>
    simp only [tagCase, TagCase.padding]
    split
    · trivial
    · intro v f size failed
      simp only [bind, Except.bind] at failed
      split at failed
      · rename_i g wrote
        cases failed
        rw [paddingAt_raises wrote]
        rfl
      · cases failed
  | payload | actionData =>
    intro v f size failed
    simp only [bind, Except.bind] at failed
    split at failed
    · rename_i g copied
      cases failed
      rcases memcpyTo_raises copied with rfl | rfl <;> rfl
    · cases failed
  | payloadLength | actionLength =>
    intro v f size failed
    simp only at failed
    split at failed <;> cases failed
  | encryptedEnvelope | encryptedPayload | noop | nonceLength | publickeyId | configLength | config
  | mac | endtag => trivial
  | _ =>
    intro v f size failed
    cases failed

theorem slice_of_readAt {b v : Bytes} {start count : Nat} (read : readAt b start count = .ok v) :
    v = slice b start count := by
  unfold readAt at read
  split at read
  · exact (Except.ok.inj read).symm
  · cases read

def SectionFault (f : Fault) : Prop := f = .inputRead ∨ f = .nullPointer ∨ f = .doubleFree

theorem verifySection_raises {b : Bytes} {i n : Nat} {length : UInt32} {f : Fault}
    (failed : verifySection env b i length n = .error f) : SectionFault f := by
  simp only [verifySection, bind, Except.bind] at failed
  split at failed
  · rename_i g read
    cases failed
    exact .inl (readAt_fails_iff.mp read).1
  · split at failed
    · split at failed
      · rename_i g read
        cases failed
        exact .inl (readAt_fails_iff.mp read).1
      · cases failed
    · exact .inr (.inl (Except.error.inj failed).symm)

theorem decryptSection_raises {b : Bytes} {i n : Nat} {length : UInt32} {nonce : Block 8} {f : Fault}
    (failed : decryptSection env b i length n nonce = .error f) : SectionFault f := by
  simp only [decryptSection, bind, Except.bind] at failed
  split at failed
  · rename_i g read
    cases failed
    exact .inl (readAt_fails_iff.mp read).1
  · split at failed
    · cases failed
    · exact .inr (.inl (Except.error.inj failed).symm)

theorem opened_raises {x : Iteration} {f : Fault} (failed : x.opened env = some (.error f)) :
    SectionFault f := by
  simp only [Iteration.opened] at failed
  split at failed
  · have failed := Option.some.inj failed
    simp only [openEnvelope, bind, Except.bind] at failed
    split at failed
    · rename_i g verified
      cases failed
      exact verifySection_raises verified
    · split at failed
      · split at failed
        · rename_i g decrypted
          cases failed
          exact decryptSection_raises decrypted
        · cases failed
      · cases failed
  · have failed := Option.some.inj failed
    simp only [openPayload, bind, Except.bind] at failed
    split at failed
    · split at failed
      · rename_i g verified
        cases failed
        exact verifySection_raises verified
      · split at failed
        · split at failed
          · rename_i g decrypted
            cases failed
            exact decryptSection_raises decrypted
          · cases failed
        · split at failed
          · exact .inr (.inr (Except.error.inj failed).symm)
          · cases failed
    · exact .inr (.inl (Except.error.inj failed).symm)
  · cases failed

theorem body_raises {x : Iteration} {f : Fault}
    (stop : ∀ again, decodeBody env again x.b x.s = .error (.fault f)) :
    SectionFault f ∨ ∃ tag, x.b[x.s.i]? = some tag.toByte ∧ mayRaise f tag = true ∧
      ∀ width move store, x.case env = some (.copy width move store) →
        ∃ v, v.length = width ∧ store v x.afterTag = .error f := by
  have one := stop fun _ _ _ _ => .endless
  rw [decodeBody_eq] at one
  cases here : x.b[x.s.i]? with
  | none =>
    simp only [Iteration.case, here, Option.map_none] at one
    cases one
    exact .inl (.inl rfl)
  | some c =>
    have known : x.case env = some (byteCase env x.afterTag c) := by simp [Iteration.case, here]
    simp only [known] at one
    cases named : Tag.ofByte c with
    | none => simp [byteCase, named, decodeCase] at one
    | some tag =>
      have raises : Raises x.afterTag (fun f => mayRaise f tag = true) (byteCase env x.afterTag c) := by
        simpa only [byteCase, named] using tagCase_raises x.afterTag tag
      have byte := congrArg some (Tag.toByte_of_ofByte named)
      cases found : byteCase env x.afterTag c with
      | copy width move store =>
        rw [found] at one raises
        simp only [decodeCase, decodeCopy, bind, Except.bind, Except.mapError] at one
        cases read : readAt x.b x.afterTag.i width with
        | error g =>
          simp only [read, Except.error.injEq, DecodeEnd.fault.injEq] at one
          subst one
          exact .inl (.inl (readAt_fails_iff.mp read).1)
        | ok v =>
          have size := (readAt_ok read).1
          cases stored : store v x.afterTag with
          | error g =>
            simp only [read, stored, Except.error.injEq, DecodeEnd.fault.injEq] at one
            subst one
            refine .inr ⟨tag, byte, raises v g size stored, ?_⟩
            intro width' move' store' same
            rw [known, found] at same
            cases same
            exact ⟨v, size, stored⟩
          | ok t => simp [read, stored] at one
      | encryptedEnvelope =>
        have opens : x.opened env = some (openEnvelope env x.b x.afterTag) := by
          simp [Iteration.opened, known, found]
        rw [found] at one
        simp only [decodeCase] at one
        cases result : openEnvelope env x.b x.afterTag with
        | error g =>
          simp only [result, enterSection, Except.error.injEq, DecodeEnd.fault.injEq] at one
          subst one
          exact .inl (opened_raises (opens.trans (congrArg some result)))
        | ok o => cases o <;> simp [result, enterSection, afterEnvelope] at one
      | encryptedPayload =>
        have opens : x.opened env = some (openPayload env x.b x.afterTag) := by
          simp [Iteration.opened, known, found]
        rw [found] at one
        simp only [decodeCase] at one
        cases result : openPayload env x.b x.afterTag with
        | error g =>
          simp only [result, enterSection, Except.error.injEq, DecodeEnd.fault.injEq] at one
          subst one
          exact .inl (opened_raises (opens.trans (congrArg some result)))
        | ok o => cases o <;> simp [result, enterSection, afterPayload] at one
      | reject =>
        rw [found] at one
        simp [decodeCase] at one
      | fault g =>
        rw [found] at one raises
        simp only [decodeCase, Except.error.injEq, DecodeEnd.fault.injEq] at one
        subst one
        refine .inr ⟨tag, byte, raises, ?_⟩
        intro width move store same
        rw [known, found] at same
        cases same

/-- An invariant of the packet that every copy keeps, and that the marks of the sections
    do not touch. -/
structure KeepsPacket (env : DecodeEnv) (Inv : ChatPacket → Prop) : Prop where
  tags : ∀ s tag, Inv s.cp → Stores s (fun _ t => Inv t.cp) (tagCase env s tag)
  marks : ∀ cp w, Inv cp → Inv { cp with wasEncrypted := w }

namespace KeepsPacket
variable {Inv : ChatPacket → Prop}

theorem opened (keeps : KeepsPacket env Inv) {x : Iteration} {t : Decoding} {decrypted : Bytes}
    (enter : x.opened env = some (.ok (.section t decrypted))) (holds : Inv x.s.cp) : Inv t.cp := by
  obtain ⟨⟨w, packet⟩, _, _⟩ := opened_state enter
  simp only [Opened.state] at packet
  rw [packet]
  exact keeps.marks _ _ holds

theorem turnout (keeps : KeepsPacket env Inv) {again : DecodeCall} {x : Iteration}
    (inner : ∀ {cp n b len ret cp' n'}, again cp n b len = .returned ret cp' n' → Inv cp → Inv cp')
    {r : Except DecodeEnd Decoding} (turn : Turnout env again x r) (holds : Inv x.s.cp) :
    (∀ t, r = .ok t → Inv t.cp) ∧ ∀ ret cp allocs, r = .error (.returned ret cp allocs) → Inv cp := by
  cases turn with
  | copied known read stored =>
    refine ⟨fun t same => ?_, by simp⟩
    cases same
    have left := stores_of_case known (fun tag => keeps.tags x.afterTag tag holds) _ _
      (readAt_ok read).1 stored
    exact left
  | rejected w allocs closed noCopy =>
    refine ⟨by simp, fun ret cp allocs same => ?_⟩
    cases same
    exact keeps.marks _ _ holds
  | resumed enter nested =>
    refine ⟨fun t same => ?_, by simp⟩
    cases same
    exact inner nested (keeps.opened enter holds)
  | ended r enter nested =>
    refine ⟨by simp, fun ret cp allocs same => ?_⟩
    cases same
    exact inner nested (keeps.opened enter holds)
  | aborted aborts =>
    refine ⟨by simp, fun ret cp allocs same => ?_⟩
    cases same
    exact absurd rfl (aborts _ _ _)

/-- What a call returns, by induction on the fuel, that is on the depth of the sections. -/
theorem returned (keeps : KeepsPacket env Inv) {fuel allocs len : Nat} {cp : ChatPacket} {b : Bytes}
    {ret : Int} {cp' : ChatPacket} {allocs' : Nat}
    (run : chatPacketDecode env fuel cp allocs b len = .returned ret cp' allocs') (holds : Inv cp) :
    Inv cp' := by
  induction fuel generalizing cp allocs b len ret cp' allocs' with
  | zero => cases run
  | succ fuel ih =>
    obtain ⟨s, reach, stop⟩ := chatPacketDecode_last run (by simp)
    have reached : Inv s.cp := by
      refine reaches_invariant (fun s => Inv s.cp) reach holds ?_
      intro u v inv pass
      exact (keeps.turnout ih (decodeBody_turnout _ ⟨b, len, u⟩) inv).1 v pass.2
    rcases stop with ⟨_, same⟩ | ⟨_, leave⟩
    · cases same
      exact reached
    · exact (keeps.turnout ih (decodeBody_turnout _ ⟨b, len, s⟩) reached).2 _ _ _ leave

theorem reaches (keeps : KeepsPacket env Inv) {fuel len : Nat} {b : Bytes} {s t : Decoding}
    (reach : Reaches (decodeGuard len) (decodeBody env (chatPacketDecode env fuel) b) s t)
    (holds : Inv s.cp) : Inv t.cp := by
  refine reaches_invariant (fun s => Inv s.cp) reach holds ?_
  intro u v inv pass
  exact (keeps.turnout keeps.returned (decodeBody_turnout _ ⟨b, len, u⟩) inv).1 v pass.2

theorem visited (keeps : KeepsPacket env Inv) {fuel allocs len : Nat} {cp : ChatPacket} {b : Bytes}
    {x : Iteration} (visit : Visits env fuel cp allocs b len x) (holds : Inv cp) : Inv x.s.cp := by
  induction visit with
  | here reach more => exact keeps.reaches reach holds
  | inside reach more enter visit ih => exact ih (keeps.opened enter (keeps.reaches reach holds))

end KeepsPacket
end ChatFabric
