import ChatFabric.HandshakeStages
import ChatFabric.PairingNetwork

/- Whatever the handshake can do without losing anything, two parties can bring about:
   by the controller asking and what is under way arriving. -/
namespace PairingRuns
open ByteStrings Runs ChatFabric Handshake PairingNetwork

def Onward : Action → Prop
  | .request _ | .deliver _ _ _ => True
  | _ => False

variable {crypto : Crypto} {ids : Side → Identity} {n : Network}

theorem live_of_fresh (fresh : Fresh crypto ids n) : HandshakeStages.Live (handshake n) := by
  rw [fresh.handshake_eq]
  exact ⟨0, by decide, HandshakeStages.fresh_at⟩

theorem onward_step (commute : Commute crypto ids) (inv : Inv crypto ids n) {a : Act}
    (onward : HandshakeStages.Onward a) :
    ∃ b, Onward b ∧ handshake (n.next crypto b) = (handshake n).next a := by
  cases a with
  | request => exact ⟨.request default, trivial, (request_inv inv default).2⟩
  | deliver dest k =>
    obtain ⟨fuel, same⟩ := next_complete commute inv dest k
    exact ⟨.deliver dest k (willing fuel), trivial, same⟩
  | _ => exact onward.elim

theorem onward_run (commute : Commute crypto ids) (inv : Inv crypto ids n) {acts : List Act}
    (onward : ∀ a ∈ acts, HandshakeStages.Onward a) :
    ∃ more, (∀ b ∈ more, Onward b) ∧
      handshake (run (Network.next crypto) n more) = run Net.next (handshake n) acts := by
  induction acts generalizing n with
  | nil => exact ⟨[], by simp, rfl⟩
  | cons a rest ih =>
    obtain ⟨b, first, same⟩ := onward_step commute inv (onward a (by simp))
    obtain ⟨more, later, reached⟩ := ih (next_inv commute inv b).1 fun a member =>
      onward a (List.mem_cons_of_mem _ member)
    refine ⟨b :: more, ?_, ?_⟩
    · simpa [first] using later
    · rw [same] at reached
      exact reached

theorem completes (commute : Commute crypto ids) (inv : Inv crypto ids n)
    (live : HandshakeStages.Live (handshake n)) :
    ∃ more, (∀ b ∈ more, Onward b) ∧
      ∀ s, ((run (Network.next crypto) n more).party s).pair.state = .paired := by
  obtain ⟨acts, onward, paired⟩ := live.completes
  obtain ⟨more, onward', reached⟩ := onward_run commute inv onward
  refine ⟨more, onward', ?_⟩
  intro s
  have phase := paired s
  rw [← reached] at phase
  exact phaseOf_paired.mp phase

def x25519 : Crypto where
  curve25519Donna _ _ := .ofBytes 32
    [0x2e, 0xd7, 0x6a, 0xb5, 0x49, 0xb1, 0xe7, 0x3c, 0x03, 0x1e, 0xb4, 0x9c, 0x94, 0x48, 0xf0, 0x79,
      0x8a, 0xea, 0x81, 0xb6, 0x98, 0x27, 0x9a, 0x0c, 0x3d, 0xc3, 0xe4, 0x9f, 0xbf, 0xc4, 0xb9, 0x53]
  poly1305Auth _ _ := .zero 16

def filled (n : Nat) (b : UInt8) : Block n := ⟨List.replicate n b, List.length_replicate⟩

def twoKeys : Side → Identity
  | .controller => {
      uuid := ⟨filled 16 1, filled 16 2⟩
      privatekey := filled 32 1
      publickey := .ofBytes 32
        [0xa4, 0xe0, 0x92, 0x92, 0xb6, 0x51, 0xc2, 0x78, 0xb9, 0x77, 0x2c, 0x56, 0x9f, 0x5f, 0xa9, 0xbb,
          0x13, 0xd9, 0x06, 0xb4, 0x6a, 0xb6, 0x8c, 0x9d, 0xf9, 0xdc, 0x2b, 0x44, 0x09, 0xf8, 0xa2, 0x09]
      mynonce := filled 8 1 }
  | .device => {
      uuid := ⟨filled 16 3, filled 16 4⟩
      privatekey := filled 32 2
      publickey := .ofBytes 32
        [0xce, 0x8d, 0x3a, 0xd1, 0xcc, 0xb6, 0x33, 0xec, 0x7b, 0x70, 0xc1, 0x78, 0x14, 0xa5, 0xc7, 0x6e,
          0xcd, 0x02, 0x96, 0x85, 0x05, 0x0d, 0x34, 0x47, 0x45, 0xba, 0x05, 0x87, 0x0e, 0x58, 0x7d, 0x59]
      mynonce := filled 8 2 }

def apart : Network where
  party s := {
    config := { (default : ChatFabricConfig) with
      uuid := (twoKeys s).uuid
      publickey := (twoKeys s).publickey
      privatekey := (twoKeys s).privatekey }
    pair := cfPairInit default (twoKeys s).mynonce
    configFile := none
    pairFile := none }
  flight _ := []

theorem apart_fresh (crypto : Crypto) : Fresh crypto twoKeys apart :=
  ⟨fun _ => ⟨rfl, rfl, rfl⟩, fun _ => ⟨default, rfl⟩, fun _ => rfl⟩

end PairingRuns
