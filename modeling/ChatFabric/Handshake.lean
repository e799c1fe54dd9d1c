import ChatFabric.Runs
import Mathlib.Logic.Function.Basic

/- The pairing handshake by itself: two peers, what each has of the other, and the messages
   in flight between them. Nobody resets, which the commands they exchange never ask for. -/
namespace Handshake
open Runs

inductive Side where
  | controller | device
  deriving DecidableEq

def Side.other : Side → Side
  | .controller => .device
  | .device => .controller

@[simp] theorem Side.other_other (s : Side) : s.other.other = s := by cases s <;> rfl

theorem Side.other_ne (s : Side) : s.other ≠ s := by cases s <;> simp [other]

theorem Side.eq_or (s t : Side) : s = t ∨ s = t.other := by cases s <;> cases t <;> simp [other]

inductive Phase where
  | unconfigured | publickeySetup | nonceSetup | paired
  deriving DecidableEq

/-- Whether a peer has the other's public key, and its nonce. -/
structure Peer where
  phase : Phase
  keyed : Bool
  nonced : Bool
  deriving DecidableEq

/-- A key or a nonce is sent first, or in answer to the other's. -/
inductive Message where
  | pairRequest | pairRequestAck | fail
  | publickeyRequest | publickeySend (answer : Bool) | publickeyAck
  | nonceRequest | nonceSend (answer : Bool) | nonceAck
  deriving DecidableEq

def react (p : Peer) : Message → Peer × Option Message
  | .pairRequest =>
    if p.phase = .unconfigured then ({ p with phase := .publickeySetup }, some .pairRequestAck)
    else (p, some .fail)
  | .pairRequestAck =>
    if p.phase = .unconfigured then ({ p with phase := .publickeySetup }, some .publickeyRequest)
    else (p, none)
  | .fail => (p, none)
  | .publickeyRequest =>
    if p.phase = .publickeySetup then (p, some (.publickeySend p.keyed)) else (p, none)
  | .publickeySend answer =>
    if p.phase = .publickeySetup then
      if answer then ({ p with keyed := true, phase := .nonceSetup }, some .publickeyAck)
      else ({ p with keyed := true }, some (.publickeySend true))
    else (p, none)
  | .publickeyAck =>
    if p.phase = .publickeySetup then ({ p with phase := .nonceSetup }, some .nonceRequest)
    else (p, none)
  | .nonceRequest =>
    if p.phase = .nonceSetup then (p, some (.nonceSend p.nonced)) else (p, none)
  | .nonceSend answer =>
    if p.phase = .nonceSetup then
      if answer then ({ p with nonced := true, phase := .paired }, some .nonceAck)
      else ({ p with nonced := true }, some (.nonceSend true))
    else (p, none)
  | .nonceAck =>
    if p.phase = .nonceSetup then ({ p with phase := .paired }, none) else (p, none)

/-- The peers and, for each side, what it has sent that is still under way. -/
structure Net where
  peer : Side → Peer
  flight : Side → List Message

inductive Act where
  | request
  | deliver (dest : Side) (k : Nat)
  | lose (of : Side) (k : Nat)
  | duplicate (of : Side) (k : Nat)

namespace Net

def send (n : Net) (s : Side) (ms : List Message) : Net :=
  { n with flight := Function.update n.flight s (n.flight s ++ ms) }

def remove (n : Net) (s : Side) (k : Nat) : Net :=
  { n with flight := Function.update n.flight s ((n.flight s).eraseIdx k) }

def receive (n : Net) (dest : Side) (m : Message) : Net :=
  { n with peer := Function.update n.peer dest (react (n.peer dest) m).1 }.send dest
    (react (n.peer dest) m).2.toList

def next (n : Net) : Act → Net
  | .request =>
    if (n.peer .controller).phase ≠ .paired then n.send .controller [.pairRequest] else n
  | .deliver dest k =>
    match (n.flight dest.other)[k]? with
    | some m => (n.remove dest.other k).receive dest m
    | none => n
  | .lose s k => n.remove s k
  | .duplicate s k => n.send s (n.flight s)[k]?.toList

def fresh : Net := ⟨fun _ => ⟨.unconfigured, false, false⟩, fun _ => []⟩

end Net

def Backed (sender receiver : Peer) : Message → Prop
  | .publickeySend answer => answer → sender.keyed
  | .publickeyAck | .nonceRequest => sender.keyed ∧ receiver.keyed
  | .nonceSend answer => (sender.keyed ∧ receiver.keyed) ∧ (answer → sender.nonced)
  | .nonceAck => sender.nonced ∧ receiver.nonced
  | .pairRequest | .pairRequestAck | .fail | .publickeyRequest => True

structure InStep (p : Peer) : Prop where
  keyed : p.phase = .nonceSetup ∨ p.phase = .paired → p.keyed
  nonced : p.phase = .paired → p.nonced

structure Grows (p q : Peer) : Prop where
  keyed : p.keyed → q.keyed
  nonced : p.nonced → q.nonced

theorem react_grows (p : Peer) (m : Message) : Grows p (react p m).1 := by
  cases m <;> simp only [react] <;> (try split) <;> (try split) <;> constructor <;> simp

theorem Backed.grows {p p' q q' : Peer} {m : Message} (backed : Backed p q m) (first : Grows p p')
    (second : Grows q q') : Backed p' q' m := by
  cases m with
  | publickeySend answer => exact fun yes => first.keyed (backed yes)
  | publickeyAck | nonceRequest => exact ⟨first.keyed backed.1, second.keyed backed.2⟩
  | nonceSend answer =>
    exact ⟨⟨first.keyed backed.1.1, second.keyed backed.1.2⟩, fun yes => first.nonced (backed.2 yes)⟩
  | nonceAck => exact ⟨first.nonced backed.1, second.nonced backed.2⟩
  | pairRequest | pairRequestAck | fail | publickeyRequest => trivial

section
variable {sender p : Peer} {m : Message} (step : InStep p) (backed : Backed sender p m)
include step backed

theorem react_inStep : InStep (react p m).1 := by
  obtain ⟨phase, keyed, nonced⟩ := p
  have ⟨hasKey, hasNonce⟩ := step
  cases m with
  | pairRequest | pairRequestAck | publickeyAck | nonceAck =>
    simp only [react]
    split
    · constructor <;> simp_all [Backed]
    · exact step
  | publickeySend answer | nonceSend answer =>
    simp only [react]
    split
    · cases answer <;> constructor <;> simp_all [Backed]
    · exact step
  | fail => exact step
  | publickeyRequest | nonceRequest =>
    simp only [react]
    split <;> exact step

theorem react_backed : ∀ reply ∈ (react p m).2, Backed (react p m).1 sender reply := by
  obtain ⟨phase, keyed, nonced⟩ := p
  have ⟨hasKey, hasNonce⟩ := step
  cases m with
  | publickeySend answer | nonceSend answer =>
    simp only [react]
    split
    · cases answer <;> simp_all [Backed]
    · simp
  | fail => simp [react]
  | _ =>
    simp only [react]
    split <;> simp_all [Backed]

end

theorem keyed_of_nonceSend {p : Peer} {m : Message} {answer : Bool} (step : InStep p)
    (sends : (react p m).2 = some (.nonceSend answer)) : (react p m).1.keyed := by
  cases m with
  | nonceRequest | nonceSend a =>
    simp only [react] at sends ⊢
    split at sends
    · rename_i setup
      have keyed := step.keyed (.inl setup)
      rw [if_pos setup]
      first | exact keyed | (split <;> exact keyed)
    · cases sends
  | publickeySend a =>
    simp only [react] at sends
    split at sends
    · split at sends <;> simp at sends
    · cases sends
  | fail => cases sends
  | _ =>
    simp only [react] at sends
    split at sends <;> simp at sends

structure Agreed (n : Net) : Prop where
  peers : ∀ s, InStep (n.peer s)
  flight : ∀ s, ∀ m ∈ n.flight s, Backed (n.peer s) (n.peer s.other) m

variable {n : Net}

theorem fresh_agreed : Agreed Net.fresh where
  peers s := ⟨by simp [Net.fresh], by simp [Net.fresh]⟩
  flight s m member := by simp [Net.fresh] at member

theorem send_agreed {s : Side} {ms : List Message} (agreed : Agreed n)
    (backed : ∀ m ∈ ms, Backed (n.peer s) (n.peer s.other) m) : Agreed (n.send s ms) := by
  refine ⟨agreed.peers, (Function.forall_update_iff n.flight fun t ms =>
    ∀ m ∈ ms, Backed (n.peer t) (n.peer t.other) m).mpr ⟨?_, fun t _ => agreed.flight t⟩⟩
  intro m member
  exact (List.mem_append.mp member).elim (agreed.flight s m) (backed m)

theorem remove_agreed (s : Side) (k : Nat) (agreed : Agreed n) : Agreed (n.remove s k) := by
  refine ⟨agreed.peers, (Function.forall_update_iff n.flight fun t ms =>
    ∀ m ∈ ms, Backed (n.peer t) (n.peer t.other) m).mpr ⟨?_, fun t _ => agreed.flight t⟩⟩
  intro m member
  exact agreed.flight s m (List.mem_of_mem_eraseIdx member)

theorem receive_agreed {dest : Side} {m : Message} (agreed : Agreed n)
    (backed : Backed (n.peer dest.other) (n.peer dest) m) : Agreed (n.receive dest m) := by
  have step := agreed.peers dest
  have grows : ∀ t, Grows (n.peer t) (Function.update n.peer dest (react (n.peer dest) m).1 t) :=
    (Function.forall_update_iff n.peer fun t q => Grows (n.peer t) q).mpr
      ⟨react_grows _ _, fun t _ => ⟨id, id⟩⟩
  have inStep : ∀ t, InStep (Function.update n.peer dest (react (n.peer dest) m).1 t) :=
    (Function.forall_update_iff n.peer fun _ q => InStep q).mpr
      ⟨react_inStep step backed, fun t _ => agreed.peers t⟩
  have moved : Agreed { n with peer := Function.update n.peer dest (react (n.peer dest) m).1 } :=
    ⟨inStep, fun t m' member => (agreed.flight t m' member).grows (grows t) (grows t.other)⟩
  apply send_agreed moved
  intro reply member
  simp only [Function.update_self, Function.update_of_ne dest.other_ne]
  exact react_backed step backed reply (Option.mem_toList.mp member)

theorem next_agreed (a : Act) (agreed : Agreed n) : Agreed (n.next a) := by
  cases a with
  | request =>
    simp only [Net.next]
    split
    · exact send_agreed agreed (by simp [Backed])
    · exact agreed
  | deliver dest k =>
    simp only [Net.next]
    split
    · rename_i m under
      have backed := agreed.flight dest.other m (List.mem_of_getElem? under)
      rw [Side.other_other] at backed
      exact receive_agreed (remove_agreed dest.other k agreed) backed
    · exact agreed
  | lose s k => exact remove_agreed s k agreed
  | duplicate s k =>
    refine send_agreed agreed fun m member => agreed.flight s m ?_
    exact List.mem_of_getElem? (Option.mem_toList.mp member)

end Handshake
