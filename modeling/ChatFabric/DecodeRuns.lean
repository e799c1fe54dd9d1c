import ChatFabric.PacketDecode

/- What a run of the decoder goes through: the iterations of its own loop and those of
   the calls nested in it, whatever fuel they are given. -/
namespace ChatFabric
open ByteStrings WhileLoop

structure Iteration where
  b : Bytes
  len : Nat
  s : Decoding

namespace Iteration

def afterTag (x : Iteration) : Decoding := { x.s with i := advance x.s.i 1 }

@[simp] theorem afterTag_cp (x : Iteration) : x.afterTag.cp = x.s.cp := rfl
@[simp] theorem afterTag_allocs (x : Iteration) : x.afterTag.allocs = x.s.allocs := rfl

def case (env : DecodeEnv) (x : Iteration) : Option TagCase :=
  x.b[x.s.i]?.map (byteCase env x.afterTag)

def opened (env : DecodeEnv) (x : Iteration) : Option (Except Fault Opened) :=
  match x.case env with
  | some .encryptedEnvelope => some (openEnvelope env x.b x.afterTag)
  | some .encryptedPayload => some (openPayload env x.b x.afterTag)
  | _ => none

end Iteration

structure Opens (env : DecodeEnv) (b : Bytes) (i : Nat) (length : UInt32) (nonce : Block 8)
    (t : Decoding) (decrypted : Bytes) : Prop where
  verified : ∃ n, verifySection env b i length n = .ok true
  decrypts : ∃ n, decryptSection env b i length n nonce = .ok decrypted
  cursor : t.i = advance i length.toNat

theorem openEnvelope_opens {env : DecodeEnv} {b decrypted : Bytes} {s t : Decoding}
    (enter : openEnvelope env b s = .ok (.section t decrypted)) :
    Opens env b s.i s.cp.envelopeLength env.pair.nullnonce t decrypted := by
  simp only [openEnvelope, bind, Except.bind] at enter
  split at enter
  · cases enter
  · rename_i verified ran
    split at enter
    · rename_i yes
      subst yes
      split at enter
      · cases enter
      · rename_i plain result
        cases enter
        exact ⟨⟨_, ran⟩, ⟨_, result⟩, rfl⟩
    · cases enter

theorem openPayload_opens {env : DecodeEnv} {b decrypted : Bytes} {s t : Decoding}
    (enter : openPayload env b s = .ok (.section t decrypted)) :
    Opens env b s.i s.cp.payloadLength (chatPacketCalcNonce s.cp.serial env.pair.mynonce) t
      decrypted := by
  simp only [openPayload, bind, Except.bind] at enter
  split at enter
  · split at enter
    · cases enter
    · rename_i verified ran
      split at enter
      · rename_i yes
        subst yes
        split at enter
        · cases enter
        · rename_i plain result
          cases enter
          exact ⟨⟨_, ran⟩, ⟨_, result⟩, rfl⟩
      · split at enter <;> cases enter
  · cases enter

inductive Visits (env : DecodeEnv) : Nat → ChatPacket → Nat → Bytes → Nat → Iteration → Prop where
  | here {fuel allocs len : Nat} {cp : ChatPacket} {b : Bytes} {s : Decoding}
      (reach : Reaches (decodeGuard len) (decodeBody env (chatPacketDecode env fuel) b)
        (.start cp allocs) s) (more : s.i < len) :
      Visits env (fuel + 1) cp allocs b len ⟨b, len, s⟩
  | inside {fuel allocs len : Nat} {cp : ChatPacket} {b decrypted : Bytes} {s t : Decoding}
      {x : Iteration}
      (reach : Reaches (decodeGuard len) (decodeBody env (chatPacketDecode env fuel) b)
        (.start cp allocs) s) (more : s.i < len)
      (enter : Iteration.opened env ⟨b, len, s⟩ = some (.ok (.section t decrypted)))
      (visit : Visits env fuel t.cp t.allocs decrypted decrypted.length x) :
      Visits env (fuel + 1) cp allocs b len x

variable {env : DecodeEnv}

theorem decodeBody_eq (again : DecodeCall) (x : Iteration) :
    decodeBody env again x.b x.s =
      match x.case env with
      | none => .error (.fault .inputRead)
      | some c => decodeCase env again x.b x.afterTag c := by
  simp only [decodeBody, Iteration.case, Iteration.afterTag]
  cases x.b[x.s.i]? <;> rfl

theorem body_of_section {x : Iteration} {t : Decoding} {decrypted : Bytes}
    (enter : x.opened env = some (.ok (.section t decrypted))) (again : DecodeCall) :
    ∃ after, (after = afterEnvelope ∨ after = afterPayload) ∧
      decodeBody env again x.b x.s = after t (again t.cp t.allocs decrypted decrypted.length) := by
  rw [decodeBody_eq]
  unfold Iteration.opened at enter
  split at enter
  · rename_i known
    exact ⟨_, .inl rfl, by simp only [known, decodeCase, Option.some.inj enter, enterSection]⟩
  · rename_i known
    exact ⟨_, .inr rfl, by simp only [known, decodeCase, Option.some.inj enter, enterSection]⟩
  · cases enter

theorem enterSection_agree {again more : DecodeCall}
    (agree : ∀ cp n b len, again cp n b len ≠ .endless → more cp n b len = again cp n b len)
    (after : Decoding → DecodeEnd → Except DecodeEnd Decoding)
    (stuck : ∀ s, after s .endless = .error .endless) {o : Except Fault Opened}
    (ends : enterSection again after o ≠ .error .endless) :
    enterSection more after o = enterSection again after o := by
  match o with
  | .ok (.section s decrypted) =>
    have nested : again s.cp s.allocs decrypted decrypted.length ≠ .endless := by
      intro never
      exact ends (by simp only [enterSection, never, stuck])
    simp only [enterSection, agree _ _ _ _ nested]
  | .ok (.refused s) => rfl
  | .error f => rfl

theorem decodeBody_agree {again more : DecodeCall}
    (agree : ∀ cp n b len, again cp n b len ≠ .endless → more cp n b len = again cp n b len)
    {b : Bytes} {s : Decoding} (ends : decodeBody env again b s ≠ .error .endless) :
    decodeBody env more b s = decodeBody env again b s := by
  rw [decodeBody_eq again ⟨b, 0, s⟩] at ends ⊢
  rw [decodeBody_eq more ⟨b, 0, s⟩]
  cases known : Iteration.case env ⟨b, 0, s⟩ with
  | none => rfl
  | some c =>
    simp only [known] at ends
    cases c with
    | encryptedEnvelope =>
      exact enterSection_agree agree afterEnvelope (fun _ => rfl) ends
    | encryptedPayload =>
      exact enterSection_agree agree afterPayload (fun _ => rfl) ends
    | _ => rfl

/-- A call that comes to an end comes to the same end with more fuel. -/
theorem chatPacketDecode_mono {fuel more : Nat} (le : fuel ≤ more) (cp : ChatPacket) (allocs : Nat)
    (b : Bytes) (len : Nat) (ends : chatPacketDecode env fuel cp allocs b len ≠ .endless) :
    chatPacketDecode env more cp allocs b len = chatPacketDecode env fuel cp allocs b len := by
  induction fuel generalizing more cp allocs b len with
  | zero => exact absurd rfl ends
  | succ fuel ih =>
    obtain ⟨more, rfl⟩ : ∃ k, more = k + 1 := ⟨more - 1, by omega⟩
    simp only [chatPacketDecode] at ends ⊢
    cases run : iterate (decodeGuard len) (decodeBody env (chatPacketDecode env fuel) b) fuel
        (.start cp allocs) with
    | none => exact absurd (by rw [run]; rfl) ends
    | some r =>
      rw [run] at ends
      have notStuck : r ≠ .error .endless := by
        rintro rfl
        exact ends rfl
      have same := iterate_agree DecodeEnd.endless
        (fun s => decodeBody_agree (ih (by omega : fuel ≤ more)) (b := b) (s := s)) run notStuck
      rw [iterate_mono same (by omega)]

theorem chatPacketDecode_unique {fuel : Nat} (more : Nat) {cp : ChatPacket} {allocs : Nat} {b : Bytes}
    {len : Nat} {r : DecodeEnd} (run : chatPacketDecode env fuel cp allocs b len = r)
    (ends : r ≠ .endless) :
    chatPacketDecode env more cp allocs b len = r ∨
      chatPacketDecode env more cp allocs b len = .endless := by
  rcases Nat.le_total fuel more with le | le
  · exact .inl ((chatPacketDecode_mono le cp allocs b len (run ▸ ends)).trans run)
  · by_cases stuck : chatPacketDecode env more cp allocs b len = .endless
    · exact .inr stuck
    · exact .inl ((chatPacketDecode_mono le cp allocs b len stuck).symm.trans run)

theorem reaches_more {fuel more : Nat} (le : fuel ≤ more) {len : Nat} {b : Bytes} {s t : Decoding}
    (reach : Reaches (decodeGuard len) (decodeBody env (chatPacketDecode env fuel) b) s t) :
    Reaches (decodeGuard len) (decodeBody env (chatPacketDecode env more) b) s t := by
  refine Relation.ReflTransGen.mono ?_ _ _ reach
  rintro u v ⟨inside, pass⟩
  refine ⟨inside, ?_⟩
  rw [decodeBody_agree (chatPacketDecode_mono le) (by simp [pass]), pass]

theorem chatPacketDecode_of_loop {fuel passes : Nat} {cp : ChatPacket} {allocs : Nat} {b : Bytes}
    {len : Nat} {r : Except DecodeEnd Decoding}
    (run : iterate (decodeGuard len) (decodeBody env (chatPacketDecode env fuel) b) passes
      (.start cp allocs) = some r) (ends : r ≠ .error .endless) :
    ∃ enough, chatPacketDecode env enough cp allocs b len = decodeEnd (some r) := by
  have agree := iterate_agree DecodeEnd.endless
    (fun s => decodeBody_agree (chatPacketDecode_mono (Nat.le_max_left fuel passes))
      (b := b) (s := s)) run ends
  refine ⟨max fuel passes + 1, ?_⟩
  rw [chatPacketDecode, iterate_mono agree (Nat.le_max_right _ _)]

theorem chatPacketDecode_exit {fuel : Nat} {cp : ChatPacket} {allocs : Nat} {b : Bytes} {len : Nat}
    {s : Decoding} {e : DecodeEnd}
    (reach : Reaches (decodeGuard len) (decodeBody env (chatPacketDecode env fuel) b)
      (.start cp allocs) s) (more : s.i < len)
    (leave : decodeBody env (chatPacketDecode env fuel) b s = .error e) (ends : e ≠ .endless) :
    ∃ enough, chatPacketDecode env enough cp allocs b len = e := by
  obtain ⟨passes, same⟩ := iterate_of_reaches reach
  have run := (same 1).trans (iterate_exit (by simp [decodeGuard, more]) leave 0)
  exact chatPacketDecode_of_loop run (by simpa using ends)

theorem chatPacketDecode_done {fuel : Nat} {cp : ChatPacket} {allocs : Nat} {b : Bytes} {len : Nat}
    {s : Decoding}
    (reach : Reaches (decodeGuard len) (decodeBody env (chatPacketDecode env fuel) b)
      (.start cp allocs) s) (done : len ≤ s.i) :
    ∃ enough, chatPacketDecode env enough cp allocs b len = .returned 0 s.cp s.allocs := by
  obtain ⟨passes, same⟩ := iterate_of_reaches reach
  have run := (same 1).trans (iterate_done (by simpa [decodeGuard] using done) 0)
  exact chatPacketDecode_of_loop run (by simp)

theorem chatPacketDecode_last {fuel : Nat} {cp : ChatPacket} {allocs : Nat} {b : Bytes} {len : Nat}
    {e : DecodeEnd} (run : chatPacketDecode env (fuel + 1) cp allocs b len = e) (ends : e ≠ .endless) :
    ∃ s, Reaches (decodeGuard len) (decodeBody env (chatPacketDecode env fuel) b) (.start cp allocs) s ∧
      ((len ≤ s.i ∧ e = .returned 0 s.cp s.allocs) ∨
        (s.i < len ∧ decodeBody env (chatPacketDecode env fuel) b s = .error e)) := by
  rw [chatPacketDecode] at run
  cases loop : iterate (decodeGuard len) (decodeBody env (chatPacketDecode env fuel) b) fuel
      (.start cp allocs) with
  | none =>
    rw [loop] at run
    exact absurd run.symm ends
  | some r =>
    rw [loop] at run
    obtain ⟨s, reach, ⟨done, rfl⟩ | ⟨more, f, leave, rfl⟩⟩ := iterate_result loop
    · exact ⟨s, reach, .inl ⟨by simpa [decodeGuard] using done, run.symm⟩⟩
    · have same : f = e := run
      exact ⟨s, reach, .inr ⟨by simpa [decodeGuard] using more, same ▸ leave⟩⟩

theorem fault_of_visit {fuel : Nat} {cp : ChatPacket} {allocs : Nat} {b : Bytes} {len : Nat}
    {x : Iteration} {f : Fault} (visit : Visits env fuel cp allocs b len x)
    (stop : ∀ again, decodeBody env again x.b x.s = .error (.fault f)) :
    ∃ enough, chatPacketDecode env enough cp allocs b len = .fault f := by
  induction visit with
  | here reach more => exact chatPacketDecode_exit reach more (stop _) (by simp)
  | @inside fuel allocs len cp b decrypted s t x reach more enter visit ih =>
    obtain ⟨enough, nested⟩ := ih stop
    have nested' := (chatPacketDecode_mono (Nat.le_max_right fuel enough) _ _ _ _
      (by simp [nested])).trans nested
    refine chatPacketDecode_exit (reaches_more (Nat.le_max_left fuel enough) reach) more ?_ (by simp)
    obtain ⟨after, kind, body⟩ := body_of_section enter
      (chatPacketDecode env (max fuel enough))
    rw [nested'] at body
    rcases kind with rfl | rfl <;> exact body

def Aborts (e : DecodeEnd) : Prop := ∀ ret cp allocs, e ≠ .returned ret cp allocs

theorem afterEnvelope_aborts {s : Decoding} {r e : DecodeEnd} (aborts : Aborts e)
    (leave : afterEnvelope s r = .error e) : r = e := by
  unfold afterEnvelope at leave
  split at leave
  · split at leave <;> cases leave
    exact absurd rfl (aborts _ _ _)
  · exact Except.error.inj leave

theorem afterPayload_aborts {s : Decoding} {r e : DecodeEnd} (aborts : Aborts e)
    (leave : afterPayload s r = .error e) : r = e := by
  unfold afterPayload at leave
  split at leave
  · split at leave <;> cases leave
    exact absurd rfl (aborts _ _ _)
  · exact Except.error.inj leave

theorem enterSection_aborts {again : DecodeCall}
    {after : Decoding → DecodeEnd → Except DecodeEnd Decoding} {o : Except Fault Opened}
    {e : DecodeEnd} (aborts : Aborts e) (only : ∀ {s r}, after s r = .error e → r = e)
    (leave : enterSection again after o = .error e) :
    (∃ f, e = .fault f ∧ ∀ again, enterSection again after o = .error (.fault f)) ∨
      ∃ t decrypted, o = .ok (.section t decrypted) ∧
        again t.cp t.allocs decrypted decrypted.length = e := by
  match o with
  | .ok (.section t decrypted) => exact .inr ⟨t, decrypted, rfl, only leave⟩
  | .ok (.refused s) => exact absurd (Except.error.inj leave).symm (aborts _ _ _)
  | .error f => exact .inl ⟨f, (Except.error.inj leave).symm, fun _ => rfl⟩

theorem decodeBody_aborts {again : DecodeCall} {x : Iteration} {e : DecodeEnd} (aborts : Aborts e)
    (leave : decodeBody env again x.b x.s = .error e) :
    (∃ f, e = .fault f ∧ ∀ again, decodeBody env again x.b x.s = .error (.fault f)) ∨
      ∃ t decrypted, x.opened env = some (.ok (.section t decrypted)) ∧
        again t.cp t.allocs decrypted decrypted.length = e := by
  simp only [decodeBody_eq] at leave ⊢
  simp only [Iteration.opened]
  cases known : x.case env with
  | none =>
    simp only [known] at leave
    exact .inl ⟨_, (Except.error.inj leave).symm, fun _ => rfl⟩
  | some c =>
    simp only [known] at leave
    cases c with
    | encryptedEnvelope =>
      refine (enterSection_aborts aborts (afterEnvelope_aborts aborts) leave).imp id ?_
      rintro ⟨t, decrypted, same, result⟩
      exact ⟨t, decrypted, congrArg some same, result⟩
    | encryptedPayload =>
      refine (enterSection_aborts aborts (afterPayload_aborts aborts) leave).imp id ?_
      rintro ⟨t, decrypted, same, result⟩
      exact ⟨t, decrypted, congrArg some same, result⟩
    | copy width move store =>
      simp only [decodeCase, Except.mapError] at leave ⊢
      split at leave
      · rename_i f copied
        exact .inl ⟨f, (Except.error.inj leave).symm, fun _ => rfl⟩
      · cases leave
    | reject => exact absurd (Except.error.inj leave).symm (aborts _ _ _)
    | fault f => exact .inl ⟨f, (Except.error.inj leave).symm, fun _ => rfl⟩

theorem visit_of_fault {fuel : Nat} {cp : ChatPacket} {allocs : Nat} {b : Bytes} {len : Nat}
    {f : Fault} (run : chatPacketDecode env fuel cp allocs b len = .fault f) :
    ∃ x, Visits env fuel cp allocs b len x ∧
      ∀ again, decodeBody env again x.b x.s = .error (.fault f) := by
  induction fuel generalizing cp allocs b len with
  | zero => cases run
  | succ fuel ih =>
    obtain ⟨s, reach, ⟨_, returned⟩ | ⟨inside, leave⟩⟩ := chatPacketDecode_last run (by simp)
    · cases returned
    · rcases decodeBody_aborts (x := ⟨b, len, s⟩) (by simp [Aborts]) leave with
        ⟨g, same, stop⟩ | ⟨t, decrypted, enter, nested⟩
      · cases same
        exact ⟨⟨b, len, s⟩, .here reach inside, stop⟩
      · obtain ⟨x, visit, stop⟩ := ih nested
        exact ⟨x, .inside reach inside enter visit, stop⟩

end ChatFabric
