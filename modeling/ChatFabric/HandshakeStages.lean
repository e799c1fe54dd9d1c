import ChatFabric.Handshake
import Mathlib.Data.List.Perm.Basic
import Mathlib.Tactic.IntervalCases

/- A pairing without duplicates follows a script of ten messages. One of them is under way
   at a time, and it is the answer to the one before; a request or a refusal beside it
   changes nothing. To lose the one of the script is to lose the pairing. -/
namespace HandshakeStages
open Runs Handshake

/-- The ten messages of a pairing, each with the side it is for. -/
def script : List (Side × Message) :=
  [(.device, .pairRequest), (.controller, .pairRequestAck), (.device, .publickeyRequest),
    (.controller, .publickeySend false), (.device, .publickeySend true), (.controller, .publickeyAck),
    (.device, .nonceRequest), (.controller, .nonceSend false), (.device, .nonceSend true),
    (.controller, .nonceAck)]

def peerAt (i : Nat) (s : Side) : Peer :=
  ((script.take i).filter fun turn => turn.1 = s).foldl (fun p turn => (react p turn.2).1)
    ⟨.unconfigured, false, false⟩

/-- What a side has sent by then that the other waits for. The first message is the request,
    which nobody waits for. -/
def awaitedAt (i : Nat) (s : Side) : List Message :=
  match i, script[i]? with
  | _ + 1, some (dest, m) => if dest = s.other then [m] else []
  | _, _ => []

/-- Messages that the script does without, but for the request it begins with. -/
def aside (m : Message) : Bool := m = .pairRequest ∨ m = .fail

/-- The peers are where the first i messages bring them, with the given ones under way. -/
structure At (n : Net) (i : Nat) (under : Side → List Message) : Prop where
  peer : ∀ s, n.peer s = peerAt i s
  flight : ∀ s, ((n.flight s).filter fun m => !aside m).Perm (under s)
  asks : .pairRequest ∉ n.flight .device

def Live (n : Net) : Prop := ∃ i ≤ 10, At n i (awaitedAt i)

def Dead (n : Net) : Prop := ∃ i, 0 < i ∧ i < 10 ∧ At n i fun _ => []

theorem script_turns : ∀ i < 10, ∃ dest m, script[i]? = some (dest, m) ∧
    peerAt (i + 1) dest = (react (peerAt i dest) m).1 ∧
    peerAt (i + 1) dest.other = peerAt i dest.other ∧
    awaitedAt (i + 1) dest = (react (peerAt i dest) m).2.toList.filter (fun m => !aside m) ∧
    awaitedAt (i + 1) dest.other = [] ∧ awaitedAt i dest = [] ∧
    awaitedAt i dest.other = (if i = 0 then [] else [m]) ∧ (aside m ↔ i = 0) := by
  intro i bound
  interval_cases i <;> exact ⟨_, _, rfl, by decide⟩

theorem react_never_asks (p : Peer) (m : Message) : (react p m).2 ≠ some .pairRequest := by
  cases m <;> simp only [react] <;> (try split) <;> (try split) <;> simp

theorem peerAt_started : ∀ i ≤ 10, 0 < i → (peerAt i .device).phase ≠ .unconfigured := by decide

theorem peerAt_last (s : Side) : (peerAt 10 s).phase = .paired := by cases s <;> rfl

theorem peerAt_before : ∀ i < 10, (peerAt i .controller).phase ≠ .paired := by decide

variable {n : Net} {i : Nat} {under : Side → List Message}

theorem filter_eraseIdx {keep : Message → Bool} {ms : List Message} {k : Nat}
    (dropped : ∀ m, ms[k]? = some m → keep m = false) :
    ((ms.eraseIdx k).filter keep).Perm (ms.filter keep) := by
  by_cases bound : k < ms.length
  · have perm := (List.getElem_cons_eraseIdx_perm bound).filter keep
    rwa [List.filter_cons_of_neg] at perm
    simp [dropped ms[k] (List.getElem?_eq_getElem bound)]
  · rw [List.eraseIdx_of_length_le (Nat.le_of_not_lt bound)]

theorem filter_eraseIdx_cons {keep : Message → Bool} {ms : List Message} {k : Nat} {m : Message}
    (known : ms[k]? = some m) (kept : keep m) :
    (m :: (ms.eraseIdx k).filter keep).Perm (ms.filter keep) := by
  obtain ⟨bound, rfl⟩ := List.getElem?_eq_some_iff.mp known
  have perm := (List.getElem_cons_eraseIdx_perm bound).filter keep
  rwa [List.filter_cons_of_pos kept] at perm

theorem fresh_at : At Net.fresh 0 (awaitedAt 0) where
  peer s := rfl
  flight s := by simp [Net.fresh, awaitedAt]
  asks := by simp [Net.fresh]

theorem At.send {s : Side} {ms : List Message} (here : At n i under) (asideAll : ∀ m ∈ ms, aside m)
    (asks : s = .device → .pairRequest ∉ ms) : At (n.send s ms) i under := by
  have dropped : ms.filter (fun m => !aside m) = [] := by
    simpa [List.filter_eq_nil_iff] using asideAll
  refine ⟨here.peer, ?_, ?_⟩
  · intro t
    by_cases same : t = s
    · subst same
      simpa [Net.send, dropped] using here.flight t
    · simpa [Net.send, Function.update_of_ne same] using here.flight t
  · by_cases same : s = .device
    · subst same
      simpa [Net.send, here.asks] using asks rfl
    · simpa [Net.send, Function.update_of_ne (Ne.symm same)] using here.asks

theorem asks_remove (s : Side) (k : Nat) (asks : .pairRequest ∉ n.flight .device) :
    .pairRequest ∉ (n.remove s k).flight .device := by
  simp only [Net.remove]
  by_cases same : s = .device
  · subst same
    rw [Function.update_self]
    exact fun member => asks (List.mem_of_mem_eraseIdx member)
  · rwa [Function.update_of_ne (Ne.symm same)]

theorem At.remove {s : Side} {k : Nat} (here : At n i under)
    (dropped : ∀ m, (n.flight s)[k]? = some m → aside m) : At (n.remove s k) i under := by
  refine ⟨here.peer, ?_, asks_remove s k here.asks⟩
  apply (Function.forall_update_iff n.flight fun t ms =>
    (ms.filter fun m => !aside m).Perm (under t)).mpr
  refine ⟨?_, fun t _ => here.flight t⟩
  exact (filter_eraseIdx fun m known => by simp [dropped m known]).trans (here.flight s)

theorem At.receive {dest : Side} {m : Message} (here : At n i fun _ => []) (bound : i < 10)
    (turn : script[i]? = some (dest, m)) : At (n.receive dest m) (i + 1) (awaitedAt (i + 1)) := by
  obtain ⟨_, _, turn', onward, still, answer, silent, _⟩ := script_turns i bound
  cases turn.symm.trans turn'
  have peer : ∀ s, (n.receive dest m).peer s = peerAt (i + 1) s := by
    intro s
    simp only [Net.receive, Net.send]
    rcases Side.eq_or s dest with rfl | rfl
    · rw [Function.update_self, here.peer, onward]
    · rw [Function.update_of_ne dest.other_ne, here.peer, still]
  refine ⟨peer, ?_, ?_⟩
  · intro s
    have nothing := List.perm_nil.mp (here.flight s)
    simp only [Net.receive, Net.send]
    rcases Side.eq_or s dest with rfl | rfl
    · rw [Function.update_self, List.filter_append, nothing, here.peer, answer, List.nil_append]
    · rw [Function.update_of_ne dest.other_ne, nothing, silent]
  · simp only [Net.receive, Net.send]
    by_cases same : dest = .device
    · subst same
      simpa [here.asks] using react_never_asks _ _
    · simpa only [Function.update_of_ne (Ne.symm same)] using here.asks

theorem At.taken {dest : Side} {m : Message} {k : Nat} (here : At n i (awaitedAt i)) (bound : i < 10)
    (turn : script[i]? = some (dest, m)) (known : (n.flight dest.other)[k]? = some m) :
    At (n.remove dest.other k) i fun _ => [] := by
  refine ⟨here.peer, ?_, asks_remove _ k here.asks⟩
  intro s
  obtain ⟨_, _, turn', _, _, _, _, idle, awaited, first⟩ := script_turns i bound
  cases turn.symm.trans turn'
  simp only [Net.remove]
  rcases Side.eq_or s dest with rfl | rfl
  · rw [Function.update_of_ne s.other_ne.symm, ← idle]
    exact here.flight s
  · rw [Function.update_self]
    have under := here.flight dest.other
    rw [awaited] at under
    by_cases begins : i = 0
    · rw [if_pos begins] at under
      have dropped := first.mpr begins
      refine (filter_eraseIdx fun m' known' => ?_).trans under
      cases known.symm.trans known'
      simp [dropped]
    · rw [if_neg begins] at under
      have kept : (!aside m) = true := by simpa using mt first.mp begins
      exact ((filter_eraseIdx_cons known kept).trans under).cons_inv

theorem At.turn {dest : Side} {m : Message} {k : Nat} (here : At n i (awaitedAt i)) (bound : i < 10)
    (turn : script[i]? = some (dest, m)) (known : (n.flight dest.other)[k]? = some m) :
    At ((n.remove dest.other k).receive dest m) (i + 1) (awaitedAt (i + 1)) :=
  (here.taken bound turn known).receive bound turn

theorem At.receive_aside {dest : Side} {m : Message} (here : At n i under) (bound : i ≤ 10)
    (other : aside m) (started : m = .pairRequest → dest = .device ∧ 0 < i) :
    At (n.receive dest m) i under := by
  have stays : ∃ reply, react (n.peer dest) m = (n.peer dest, reply) ∧
      ∀ m' ∈ reply.toList, m' = .fail := by
    rcases (by simpa [aside] using other : m = .pairRequest ∨ m = .fail) with rfl | rfl
    · obtain ⟨rfl, positive⟩ := started rfl
      have busy := peerAt_started i bound positive
      rw [← here.peer] at busy
      exact ⟨some .fail, by simp [react, busy], by simp⟩
    · exact ⟨none, rfl, by simp⟩
  obtain ⟨reply, reacts, fails⟩ := stays
  have same : n.receive dest m = n.send dest reply.toList := by
    rw [Net.receive, reacts, Function.update_eq_self]
  rw [same]
  refine here.send (fun m' member => ?_) fun _ member => ?_
  · simp [aside, fails m' member]
  · cases fails _ member

theorem At.requested {dest : Side} {k : Nat} (here : At n i under)
    (known : (n.flight dest.other)[k]? = some .pairRequest) : dest = .device := by
  cases dest
  · exact absurd (List.mem_of_getElem? known) here.asks
  · rfl

theorem At.deliver_aside {dest : Side} {m : Message} {k : Nat} (here : At n i under) (bound : i ≤ 10)
    (known : (n.flight dest.other)[k]? = some m) (other : aside m)
    (later : m = .pairRequest → 0 < i) : At ((n.remove dest.other k).receive dest m) i under := by
  refine (here.remove fun m' known' => ?_).receive_aside bound other fun request => ?_
  · cases known.symm.trans known'
    exact other
  · exact ⟨here.requested (request ▸ known), later request⟩

theorem At.request (here : At n i under) : At (n.next .request) i under := by
  simp only [Net.next]
  split
  · exact here.send (by simp [aside]) (by simp)
  · exact here

theorem At.awaited {s : Side} {m : Message} {k : Nat} (here : At n i under)
    (known : (n.flight s)[k]? = some m) (kept : ¬ aside m) : m ∈ under s := by
  refine (here.flight s).mem_iff.mp (List.mem_filter.mpr ⟨List.mem_of_getElem? known, ?_⟩)
  simpa using kept

theorem turn_of_awaited {dest : Side} {m : Message} (member : m ∈ awaitedAt i dest.other) :
    0 < i ∧ i < 10 ∧ script[i]? = some (dest, m) := by
  simp only [awaitedAt, Side.other_other] at member
  split at member
  · rename_i j dest' m' turn
    split at member
    · rename_i same
      rw [List.mem_singleton.mp member, ← same]
      exact ⟨j.succ_pos, (List.getElem?_eq_some_iff.mp turn).1, turn⟩
    · simp at member
  · simp at member

def Single : Act → Prop
  | .duplicate _ _ => False
  | _ => True

def Kept (n : Net) : Act → Prop
  | .lose s k => ∀ m, (n.flight s)[k]? = some m → aside m
  | _ => True

theorem Live.deliver (live : Live n) (dest : Side) (k : Nat) : Live (n.next (.deliver dest k)) := by
  obtain ⟨i, bound, here⟩ := live
  simp only [Net.next]
  split
  · rename_i m known
    by_cases other : aside m
    · by_cases begins : m = .pairRequest ∧ i = 0
      · obtain ⟨rfl, rfl⟩ := begins
        cases here.requested known
        exact ⟨1, by decide, here.turn (by decide) rfl known⟩
      · refine ⟨i, bound, here.deliver_aside bound known other ?_⟩
        intro request
        exact Nat.pos_of_ne_zero fun zero => begins ⟨request, zero⟩
    · obtain ⟨_, short, turn⟩ := turn_of_awaited (here.awaited known other)
      exact ⟨i + 1, short, here.turn short turn known⟩
  · exact ⟨i, bound, here⟩

theorem Live.next {a : Act} (live : Live n) (single : Single a) (kept : Kept n a) :
    Live (n.next a) := by
  cases a with
  | request =>
    obtain ⟨i, bound, here⟩ := live
    exact ⟨i, bound, here.request⟩
  | deliver dest k => exact live.deliver dest k
  | lose s k =>
    obtain ⟨i, bound, here⟩ := live
    exact ⟨i, bound, here.remove kept⟩
  | duplicate s k => exact single.elim

theorem Live.lost {a : Act} (live : Live n) (lost : ¬ Kept n a) : Dead (n.next a) := by
  cases a with
  | lose s k =>
    obtain ⟨i, bound, here⟩ := live
    obtain ⟨m, known, kept⟩ : ∃ m, (n.flight s)[k]? = some m ∧ ¬ aside m := by
      simpa [Kept] using lost
    rw [← s.other_other] at known ⊢
    obtain ⟨positive, short, turn⟩ := turn_of_awaited (here.awaited known kept)
    exact ⟨i, positive, short, here.taken short turn known⟩
  | _ => exact absurd trivial lost

theorem Dead.next {a : Act} (dead : Dead n) (single : Single a) : Dead (n.next a) := by
  obtain ⟨i, positive, short, here⟩ := dead
  have nothing : ∀ {s : Side} {k : Nat} {m : Message}, (n.flight s)[k]? = some m → aside m := by
    intro s k m known
    by_contra kept
    simpa using here.awaited known kept
  refine ⟨i, positive, short, ?_⟩
  cases a with
  | request => exact here.request
  | deliver dest k =>
    simp only [Net.next]
    split
    · rename_i m known
      exact here.deliver_aside short.le known (nothing known) fun _ => positive
    · exact here
  | lose s k => exact here.remove fun m known => nothing known
  | duplicate s k => exact single.elim

theorem Dead.unpaired (dead : Dead n) : (n.peer .controller).phase ≠ .paired := by
  obtain ⟨i, _, short, here⟩ := dead
  rw [here.peer]
  exact peerAt_before i short

/-- What takes a pairing on: the controller asks, and what is under way arrives. -/
def Onward : Act → Prop
  | .request | .deliver _ _ => True
  | _ => False

theorem At.onward (here : At n i (awaitedAt i)) (bound : i < 10) :
    ∃ acts, (∀ a ∈ acts, Onward a) ∧ At (run Net.next n acts) (i + 1) (awaitedAt (i + 1)) := by
  obtain ⟨dest, m, turn, _, _, _, _, _, awaited, _⟩ := script_turns i bound
  have deliver : ∀ {n' : Net}, At n' i (awaitedAt i) → m ∈ n'.flight dest.other → ∃ k,
      At (n'.next (.deliver dest k)) (i + 1) (awaitedAt (i + 1)) := by
    intro n' here' member
    obtain ⟨k, known⟩ := List.mem_iff_getElem?.mp member
    refine ⟨k, ?_⟩
    simp only [Net.next, known]
    exact here'.turn bound turn known
  by_cases begins : i = 0
  · subst begins
    cases turn
    have asked : Message.pairRequest ∈ (n.next .request).flight .controller := by
      have unpaired := peerAt_before 0 (by decide)
      rw [← here.peer] at unpaired
      simp [Net.next, unpaired, Net.send]
    obtain ⟨k, there⟩ := deliver here.request asked
    exact ⟨[.request, .deliver .device k], by simp [Onward], there⟩
  · rw [if_neg begins] at awaited
    have member : m ∈ (n.flight dest.other).filter fun m => !aside m :=
      (here.flight dest.other).mem_iff.mpr (by simp [awaited])
    obtain ⟨k, there⟩ := deliver here (List.mem_filter.mp member).1
    exact ⟨[.deliver dest k], by simp [Onward], there⟩

theorem Live.completes (live : Live n) :
    ∃ acts, (∀ a ∈ acts, Onward a) ∧ ∀ s, ((run Net.next n acts).peer s).phase = .paired := by
  obtain ⟨i, bound, here⟩ := live
  obtain ⟨left, sum⟩ := Nat.exists_eq_add_of_le bound
  induction left generalizing n i with
  | zero =>
    cases sum
    refine ⟨[], by simp, ?_⟩
    intro s
    rw [run, List.foldl_nil, here.peer, peerAt_last]
  | succ left ih =>
    obtain ⟨acts, onward, there⟩ := here.onward (by omega)
    obtain ⟨more, onward', paired⟩ := ih (i + 1) (by omega) there (by omega)
    refine ⟨acts ++ more, ?_, ?_⟩
    · exact fun a member => (List.mem_append.mp member).elim (onward a) (onward' a)
    · rwa [run_append]

end HandshakeStages
