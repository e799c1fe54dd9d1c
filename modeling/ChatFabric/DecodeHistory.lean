import ChatFabric.DecodeTurns

/- The history of a run of the decoder: the tags it comes to, in their order, and where the
   calls on its sections begin and end. An observer goes along a history; what it noted can
   be compared with the state the decoder is in. -/
namespace ChatFabric
open ByteStrings WhileLoop DecodeTermination

def tagAt (x : Iteration) : Option Tag := x.b[x.s.i]?.bind Tag.ofByte

theorem tagAt_of_byte {x : Iteration} {tag : Tag} (here : x.b[x.s.i]? = some tag.toByte) :
    tagAt x = some tag := by
  simp [tagAt, here]

theorem byte_of_tagAt {x : Iteration} {tag : Tag} (named : tagAt x = some tag) :
    x.b[x.s.i]? = some tag.toByte := by
  simp only [tagAt, Option.bind_eq_some_iff] at named
  obtain ⟨c, here, named⟩ := named
  rw [here, Tag.toByte_of_ofByte named]

inductive Moment where
  | tag (x : Iteration)
  | enter (x : Iteration)     -- the call on the section that this tag opened
  | leave

def momentsAt (env : DecodeEnv) (inner : ChatPacket → Nat → Bytes → Nat → List Moment)
    (x : Iteration) : List Moment :=
  .tag x :: match x.opened env with
    | some (.ok (.section t decrypted)) =>
      .enter x :: (inner t.cp t.allocs decrypted decrypted.length ++ [.leave])
    | _ => []

def loopHistory (env : DecodeEnv) (again : DecodeCall)
    (inner : ChatPacket → Nat → Bytes → Nat → List Moment) (b : Bytes) (len : Nat) :
    Nat → Decoding → List Moment
  | 0, _ => []
  | passes + 1, s =>
    if decodeGuard len s then
      momentsAt env inner ⟨b, len, s⟩ ++
        match decodeBody env again b s with
        | .ok t => loopHistory env again inner b len passes t
        | .error _ => []
    else []

/-- The history of a call, with the fuel for its loop and for the depth of its sections. -/
def history (env : DecodeEnv) : Nat → ChatPacket → Nat → Bytes → Nat → List Moment
  | 0, _, _, _, _ => []
  | fuel + 1, cp, allocs, b, len =>
    loopHistory env (chatPacketDecode env fuel) (history env fuel) b len fuel (.start cp allocs)

section visits
variable {env : DecodeEnv}

theorem opened_uncopied {x : Iteration} {o : Except Fault Opened} (enter : x.opened env = some o) :
    ∀ width move store, x.case env ≠ some (.copy width move store) := by
  intro width move store known
  simp [Iteration.opened, known] at enter

theorem momentsAt_closed {inner : ChatPacket → Nat → Bytes → Nat → List Moment} {x : Iteration}
    (closed : ∀ t decrypted, x.opened env ≠ some (.ok (.section t decrypted))) :
    momentsAt env inner x = [.tag x] := by
  unfold momentsAt
  split
  · rename_i t decrypted opened
    exact absurd opened (closed t decrypted)
  · rfl

theorem momentsAt_section {inner : ChatPacket → Nat → Bytes → Nat → List Moment} {x : Iteration}
    {t : Decoding} {decrypted : Bytes} (enter : x.opened env = some (.ok (.section t decrypted))) :
    momentsAt env inner x = [.tag x, .enter x] ++
      (inner t.cp t.allocs decrypted decrypted.length ++ [.leave]) := by
  simp [momentsAt, enter]

theorem tag_mem_momentsAt {inner : ChatPacket → Nat → Bytes → Nat → List Moment} {x y : Iteration}
    (mem : .tag y ∈ momentsAt env inner x) :
    y = x ∨ ∃ t decrypted, x.opened env = some (.ok (.section t decrypted)) ∧
      .tag y ∈ inner t.cp t.allocs decrypted decrypted.length := by
  unfold momentsAt at mem
  rcases List.mem_cons.mp mem with same | mem
  · cases same
    exact .inl rfl
  · split at mem
    · rename_i t decrypted enter
      simp only [List.mem_cons, List.mem_append, reduceCtorEq, false_or, List.not_mem_nil,
        or_false] at mem
      exact .inr ⟨t, decrypted, enter, mem⟩
    · cases mem

theorem visits_of_mem_history {fuel allocs len : Nat} {cp : ChatPacket} {b : Bytes} {x : Iteration}
    (mem : .tag x ∈ history env fuel cp allocs b len) : Visits env fuel cp allocs b len x := by
  induction fuel generalizing cp allocs b len with
  | zero => cases mem
  | succ fuel ih =>
    -- by induction on the passes, from any state the loop has come to
    suffices each : ∀ passes s, Reaches (decodeGuard len) (decodeBody env (chatPacketDecode env fuel) b)
        (.start cp allocs) s →
        .tag x ∈ loopHistory env (chatPacketDecode env fuel) (history env fuel) b len passes s →
        Visits env (fuel + 1) cp allocs b len x from each fuel _ .refl mem
    intro passes
    induction passes with
    | zero =>
      intro s reach mem
      cases mem
    | succ passes later =>
      intro s reach mem
      rw [loopHistory] at mem
      split at mem
      · rename_i more
        have inside : s.i < len := by simpa [decodeGuard] using more
        rcases List.mem_append.mp mem with here | mem
        · rcases tag_mem_momentsAt here with rfl | ⟨t, decrypted, enter, nested⟩
          · exact .here reach inside
          · exact .inside reach inside enter (ih nested)
        · split at mem
          · rename_i t pass
            exact later t (.tail reach ⟨more, pass⟩) mem
          · cases mem
      · cases mem

theorem mem_loopHistory {fuel len : Nat} {b : Bytes} {s t : Decoding}
    (reach : Reaches (decodeGuard len) (decodeBody env (chatPacketDecode env fuel) b) s t)
    (inside : t.i < len) :
    ∃ n, ∀ more, fuel ≤ more → ∀ inner passes, n ≤ passes → ∀ m ∈ momentsAt env inner ⟨b, len, t⟩,
      m ∈ loopHistory env (chatPacketDecode env more) inner b len passes s := by
  induction reach using Relation.ReflTransGen.head_induction_on with
  | refl =>
    refine ⟨1, fun more _ inner passes enough m mem => ?_⟩
    obtain ⟨passes, rfl⟩ : ∃ k, passes = k + 1 := ⟨passes - 1, by omega⟩
    have guard : decodeGuard len t = true := by simp [decodeGuard, inside]
    rw [loopHistory, if_pos guard]
    exact List.mem_append_left _ mem
  | @head u v pass _ ih =>
    obtain ⟨n, found⟩ := ih
    refine ⟨n + 1, fun more le inner passes enough m mem => ?_⟩
    obtain ⟨passes, rfl⟩ : ∃ k, passes = k + 1 := ⟨passes - 1, by omega⟩
    have same : decodeBody env (chatPacketDecode env more) b u = .ok v := by
      rw [decodeBody_agree (chatPacketDecode_mono le) (by simp [pass.2]), pass.2]
    rw [loopHistory, if_pos pass.1, same]
    exact List.mem_append_right _ (found more le inner passes (by omega) m mem)

theorem mem_history_of_visits {fuel allocs len : Nat} {cp : ChatPacket} {b : Bytes} {x : Iteration}
    (visit : Visits env fuel cp allocs b len x) :
    ∃ n, ∀ more, n ≤ more → .tag x ∈ history env more cp allocs b len := by
  induction visit with
  | @here fuel allocs len cp b s reach inside =>
    obtain ⟨n, found⟩ := mem_loopHistory reach inside
    refine ⟨max fuel n + 1, fun more le => ?_⟩
    obtain ⟨more, rfl⟩ : ∃ k, more = k + 1 := ⟨more - 1, by omega⟩
    exact found more (by omega) _ more (by omega) _ (by simp [momentsAt])
  | @inside fuel allocs len cp b decrypted s t x reach inside enter visit ih =>
    obtain ⟨n, found⟩ := mem_loopHistory reach inside
    obtain ⟨k, nested⟩ := ih
    refine ⟨max (max fuel n) k + 1, fun more le => ?_⟩
    obtain ⟨more, rfl⟩ : ∃ k, more = k + 1 := ⟨more - 1, by omega⟩
    refine found more (by omega) _ more (by omega) _ ?_
    rw [momentsAt_section enter]
    have mem := nested more (by omega)
    simp [mem]

end visits

section observer
variable {σ : Type} (note : σ → Moment → σ) (good : σ → Iteration → Prop)

def Along : σ → List Moment → Prop
  | _, [] => True
  | o, m :: ms => (∀ x, m = .tag x → good o x) ∧ Along (note o m) ms

@[simp] theorem along_nil (o : σ) : Along note good o [] := trivial

theorem along_cons (o : σ) (m : Moment) (ms : List Moment) :
    Along note good o (m :: ms) ↔ (∀ x, m = .tag x → good o x) ∧ Along note good (note o m) ms := .rfl

theorem along_append (o : σ) (first later : List Moment) :
    Along note good o (first ++ later) ↔
      Along note good o first ∧ Along note good (first.foldl note o) later := by
  induction first generalizing o with
  | nil => simp
  | cons m ms ih => simp only [List.cons_append, along_cons, ih, List.foldl_cons, and_assoc]

variable {note good}

theorem Along.mono {o : σ} {ms : List Moment} (along : Along note good o ms)
    (better : σ → Iteration → Prop) (implies : ∀ o x, good o x → better o x) :
    Along note better o ms := by
  induction ms generalizing o with
  | nil => trivial
  | cons m ms ih => exact ⟨fun x same => implies o x (along.1 x same), ih along.2⟩

theorem Along.and {other : σ → Iteration → Prop} {o : σ} {ms : List Moment}
    (first : Along note good o ms) (second : Along note other o ms) :
    Along note (fun o x => good o x ∧ other o x) o ms := by
  induction ms generalizing o with
  | nil => trivial
  | cons m ms ih =>
    exact ⟨fun x same => ⟨first.1 x same, second.1 x same⟩, ih first.2 second.2⟩

theorem along_iff_forall {each : Iteration → Prop} {o : σ} {ms : List Moment} :
    Along note (fun _ x => each x) o ms ↔ ∀ x, .tag x ∈ ms → each x := by
  induction ms generalizing o with
  | nil => simp
  | cons m ms ih =>
    rw [along_cons, ih]
    constructor
    · rintro ⟨first, later⟩ x mem
      rcases List.mem_cons.mp mem with same | mem
      · exact first x same.symm
      · exact later x mem
    · intro all
      exact ⟨fun x same => all x (by simp [same]), fun x mem => all x (by simp [mem])⟩

end observer

/-- A relation between what was noted and the state, kept from tag to tag. The frame stands
    for what an outer call has to find again when the call on its section is over. -/
structure Observes {φ σ : Type} (env : DecodeEnv) (note : σ → Moment → σ)
    (Rel : φ → σ → Decoding → Prop) : Prop where
  copies : ∀ {f o} {x : Iteration} {tag : Tag}, x.b[x.s.i]? = some tag.toByte → Rel f o x.s →
    Stores x.afterTag (fun v t => readAt x.b x.afterTag.i v.length = .ok v →
      ∀ i, Rel f (note o (.tag x)) { t with i := i }) (tagCase env x.afterTag tag)
  rejects : ∀ {f o} {x : Iteration},
    (∀ width move store, x.case env ≠ some (.copy width move store)) → Rel f o x.s →
    ∀ w, ∃ u, u.cp = { x.s.cp with wasEncrypted := w } ∧ Rel f (note o (.tag x)) u
  enters : ∀ {f o} {x : Iteration} {t : Decoding} {decrypted : Bytes},
    x.opened env = some (.ok (.section t decrypted)) → Rel f o x.s →
    ∃ g, Rel g (note (note o (.tag x)) (.enter x)) (.start t.cp t.allocs) ∧
      ∀ o' u allocs, Rel g o' u → Rel f (note o' .leave) { t with cp := u.cp, allocs := allocs }

namespace Observes
variable {φ σ : Type} {env : DecodeEnv} {note : σ → Moment → σ} {Rel : φ → σ → Decoding → Prop}
  {good : σ → Iteration → Prop}

def Follows (note : σ → Moment → σ) (good : σ → Iteration → Prop) (Rel : φ → σ → Decoding → Prop)
    (f : φ) (o : σ) (h : List Moment) (r : DecodeEnd) : Prop :=
  Along note good o h ∧ ∀ ret cp allocs, r = .returned ret cp allocs →
    ∃ u, u.cp = cp ∧ Rel f (h.foldl note o) u

theorem copied (obs : Observes env note Rel) {f : φ} {o : σ} {x : Iteration} {width move : Nat}
    {store : Bytes → Decoding → Except Fault Decoding} {v : Bytes} {t : Decoding}
    (known : x.case env = some (.copy width move store)) (read : readAt x.b x.afterTag.i width = .ok v)
    (stored : store v x.afterTag = .ok t) (rel : Rel f o x.s) (i : Nat) :
    Rel f (note o (.tag x)) { t with i := i } := by
  have size := (readAt_ok read).1
  have case := known
  simp only [Iteration.case, Option.map_eq_some_iff] at case
  obtain ⟨c, here, case⟩ := case
  unfold byteCase at case
  split at case
  · rename_i tag named
    have kept := obs.copies (by rw [here, Tag.toByte_of_ofByte named]) rel
    rw [case] at kept
    exact kept v t size stored (size ▸ read) i
  · cases case

/-- An observer at one iteration: by cases on what comes of it, the call on a section being
    followed by hypothesis. -/
theorem moments (obs : Observes env note Rel) (implies : ∀ f o x, Rel f o x.s → good o x)
    {again : DecodeCall} {inner : ChatPacket → Nat → Bytes → Nat → List Moment}
    (nested : ∀ g o cp n b len, Rel g o (.start cp n) →
      Follows note good Rel g o (inner cp n b len) (again cp n b len))
    {f : φ} {o : σ} {x : Iteration} (rel : Rel f o x.s) :
    Along note good o (momentsAt env inner x) ∧
      ∀ r, Turnout env again x r →
        (∀ t, r = .ok t → Rel f ((momentsAt env inner x).foldl note o) t) ∧
        ∀ ret cp allocs, r = .error (.returned ret cp allocs) →
          ∃ u, u.cp = cp ∧ Rel f ((momentsAt env inner x).foldl note o) u := by
  have first : ∀ y, Moment.tag x = .tag y → good o y := by
    rintro y ⟨⟩
    exact implies f o x rel
  by_cases opens : ∃ t decrypted, x.opened env = some (.ok (.section t decrypted))
  · obtain ⟨t, decrypted, enter⟩ := opens
    obtain ⟨g, entered, left⟩ := obs.enters enter rel
    obtain ⟨along, returned⟩ := nested g _ _ _ decrypted decrypted.length entered
    rw [momentsAt_section enter]
    constructor
    · rw [along_append, along_append]
      exact ⟨⟨first, by simp, trivial⟩, along, by simp, trivial⟩
    intro r turn
    simp only [List.foldl_append, List.foldl_cons, List.foldl_nil]
    cases turn with
    | copied known =>
      simp only [Iteration.opened, known] at enter
      cases enter
    | rejected w allocs closed => exact absurd enter (closed t decrypted)
    | resumed enter' ran =>
      cases enter.symm.trans enter'
      obtain ⟨u, rfl, inside⟩ := returned _ _ _ ran
      refine ⟨fun v same => ?_, by simp⟩
      cases same
      exact left _ u _ inside
    | ended r enter' ran =>
      cases enter.symm.trans enter'
      obtain ⟨u, rfl, inside⟩ := returned _ _ _ ran
      refine ⟨by simp, fun ret cp n same => ?_⟩
      cases same
      exact ⟨{ t with cp := u.cp, allocs := 0 }, rfl, left _ u 0 inside⟩
    | aborted aborts =>
      refine ⟨by simp, fun ret cp n same => ?_⟩
      cases same
      exact absurd rfl (aborts _ _ _)
  · have closed : ∀ t decrypted, x.opened env ≠ some (.ok (.section t decrypted)) :=
      fun t decrypted enter => opens ⟨t, decrypted, enter⟩
    rw [momentsAt_closed closed]
    refine ⟨⟨first, trivial⟩, fun r turn => ?_⟩
    cases turn with
    | copied known read stored =>
      refine ⟨fun t same => ?_, by simp⟩
      cases same
      exact obs.copied known read stored rel _
    | rejected w allocs closed noCopy =>
      refine ⟨by simp, fun ret cp n same => ?_⟩
      cases same
      exact obs.rejects noCopy rel w
    | resumed enter => exact absurd enter (closed _ _)
    | ended r enter => exact absurd enter (closed _ _)
    | aborted aborts =>
      refine ⟨by simp, fun ret cp n same => ?_⟩
      cases same
      exact absurd rfl (aborts _ _ _)

/-- An observer along a loop, by induction on its passes. -/
theorem loop (obs : Observes env note Rel) (implies : ∀ f o x, Rel f o x.s → good o x)
    {again : DecodeCall} {inner : ChatPacket → Nat → Bytes → Nat → List Moment}
    (nested : ∀ g o cp n b len, Rel g o (.start cp n) →
      Follows note good Rel g o (inner cp n b len) (again cp n b len))
    {f : φ} {o : σ} {s : Decoding} (b : Bytes) (len passes : Nat) (rel : Rel f o s) :
    Follows note good Rel f o (loopHistory env again inner b len passes s)
      (decodeEnd (iterate (decodeGuard len) (decodeBody env again b) passes s)) := by
  induction passes generalizing o s with
  | zero => exact ⟨trivial, by simp [iterate, decodeEnd]⟩
  | succ passes ih =>
    cases more : decodeGuard len s with
    | false =>
      rw [iterate_done more, loopHistory, more]
      refine ⟨trivial, fun ret cp allocs same => ?_⟩
      cases same
      exact ⟨s, rfl, rel⟩
    | true =>
      obtain ⟨along, turned⟩ := obs.moments implies nested (x := ⟨b, len, s⟩) rel
      have turn : Turnout env again ⟨b, len, s⟩ (decodeBody env again b s) :=
        decodeBody_turnout again ⟨b, len, s⟩
      obtain ⟨on, off⟩ := turned _ turn
      rw [loopHistory, more, if_pos rfl]
      cases pass : decodeBody env again b s with
      | ok t =>
        obtain ⟨later, ends⟩ := ih (on t pass)
        rw [iterate_pass ⟨more, pass⟩]
        refine ⟨(along_append ..).mpr ⟨along, later⟩, fun ret cp allocs same => ?_⟩
        rw [List.foldl_append]
        exact ends ret cp allocs same
      | error e =>
        rw [iterate_exit more pass]
        simp only [List.append_nil]
        refine ⟨along, fun ret cp allocs same => ?_⟩
        simp only [decodeEnd] at same
        subst same
        exact off ret cp allocs pass

/-- An observer along the history of a call, by induction on the depth of the sections. -/
theorem follows (obs : Observes env note Rel) (good : σ → Iteration → Prop)
    (implies : ∀ f o x, Rel f o x.s → good o x) {f : φ} {o : σ} {cp : ChatPacket} {allocs : Nat} (rel : Rel f o (.start cp allocs))
    (fuel : Nat) (b : Bytes) (len : Nat) :
    Follows note good Rel f o (history env fuel cp allocs b len)
      (chatPacketDecode env fuel cp allocs b len) := by
  induction fuel generalizing f o cp allocs b len with
  | zero => exact ⟨trivial, by simp [chatPacketDecode]⟩
  | succ fuel ih =>
    rw [history, chatPacketDecode]
    exact obs.loop implies (fun g o cp n b len rel => ih rel b len) b len fuel rel

end Observes
end ChatFabric
