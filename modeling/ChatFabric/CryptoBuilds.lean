import ChatFabric.HandshakeAgreement
import ChatFabric.KeyAgreement
import ChatFabric.KeyConsistency
import ChatFabric.Poly1305Words32
import ChatFabric.Poly1305Words64

/- The crypto that the parties run, curve25519-donna.c and poly1305-donna.c, in the build for the ESP8266
   and in that for the hosts. -/
namespace CryptoBuilds
open ByteStrings ByteNumbers Runs ChatFabric Handshake PairingNetwork KeyAgreement MontgomeryCurve
open Poly1305 hiding Residue
open HandshakeAgreement (paired_with same_key)

section
variable {Numbers : Type} [Arithmetic Numbers]

theorem poly1305Auth_spec (lawful : Lawful Numbers) (memory : Block 16) (m : Bytes) (key : Block 32) :
    (poly1305Auth Numbers memory m key).length = 16 ∧ leNumber (poly1305Auth Numbers memory m key) = tag key m := by
  have once := Lawful.finish_pieces lawful memory key [m]
  rwa [List.flatten_singleton] at once

/-- The crypto of a build, with what its stack holds where a state of poly1305 comes to lie. -/
def cryptoOf (lawful : Lawful Numbers) (memory : Block 16) : Crypto where
  curve25519Donna := donna
  poly1305Auth m key := ⟨poly1305Auth Numbers memory m key, (poly1305Auth_spec lawful memory m key).1⟩

end

def espCrypto : Block 16 → Crypto := cryptoOf Header32.lawful
def hostCrypto : Block 16 → Crypto := cryptoOf Header64.lawful

theorem eq_of_number {a b : Bytes} (left : a.length = 16) (right : b.length = 16)
    (same : leNumber a = leNumber b) : a = b :=
  leNumber_injective (left.trans right.symm) same

theorem crypto_same (memory other : Block 16) : espCrypto memory = hostCrypto other := by
  have tags (m : Bytes) (key : Block 32) :
      (espCrypto memory).poly1305Auth m key = (hostCrypto other).poly1305Auth m key := by
    obtain ⟨left, first⟩ := poly1305Auth_spec Header32.lawful memory m key
    obtain ⟨right, second⟩ := poly1305Auth_spec Header64.lawful other m key
    exact Subtype.ext (eq_of_number left right (first.trans second.symm))
  have same : (espCrypto memory).poly1305Auth = (hostCrypto other).poly1305Auth := funext₂ tags
  exact congrArg (Crypto.mk donna) same

/-- Whatever the pieces a message comes in and whatever the buffers hold, both headers make the same 16
    bytes of it: the sum of its blocks modulo 2^130 - 5, and the pad. -/
theorem both_headers_tag (memory other : Block 16) (key : Block 32) (pieces : List Bytes) :
    (poly1305Finish (pieces.foldl poly1305Update (poly1305Init memory key : State Header32.Numbers))).1 =
        poly1305Auth Header64.Numbers other pieces.flatten key ∧
      (poly1305Auth Header64.Numbers other pieces.flatten key).length = 16 ∧
      leNumber (poly1305Auth Header64.Numbers other pieces.flatten key) = tag key pieces.flatten := by
  obtain ⟨left, first⟩ := Lawful.finish_pieces Header32.lawful memory key pieces
  obtain ⟨right, second⟩ := poly1305Auth_spec Header64.lawful other pieces.flatten key
  exact ⟨eq_of_number left right (first.trans second.symm), right, second⟩

section
variable {ids : Side → Identity} {n : Network} {memory : Block 16} {basepoint : Block 32}

theorem commute_of_own (own : ∀ s, (ids s).publickey = donna (ids s).privatekey basepoint) :
    Commute (espCrypto memory) ids := by
  change donna (ids .controller).privatekey (ids .device).publickey =
    donna (ids .device).privatekey (ids .controller).publickey
  rw [own, own]
  exact donna_comm ..

theorem coordinate_nine : xCoordinate nine = (coordinateOf KeyConsistency.basepoint : Residue) := by
  have number : coordinateOf KeyConsistency.basepoint = 9 := by decide
  rw [number]
  rfl

/-- Two that are paired share a key of the curve, the x-coordinate of the point at 9 multiplied with both
    secrets. -/
theorem paired_share_multiple (own : ∀ s, (ids s).publickey = donna (ids s).privatekey KeyConsistency.basepoint)
    (fresh : Fresh (espCrypto memory) ids n) (inputs : List Action) :
    ∀ t ∈ states (Network.next (espCrypto memory)) n inputs, (∀ s, (t.party s).pair.state = .paired) →
      (t.party .controller).pair.sharedkey = (t.party .device).pair.sharedkey ∧
        ((leNumber (t.party .device).pair.sharedkey.val : ℕ) : Residue) =
          xCoordinate ((scalarOf (ids .device).privatekey * scalarOf (ids .controller).privatekey) • nine) := by
  intro t member both
  obtain ⟨front, _, _, rfl⟩ := mem_states_iff.mp member
  have commute : PairingNetwork.Commute (espCrypto memory) ids := commute_of_own own
  have inv := run_inv commute fresh.inv front
  have pairs (s : Side) := paired_with inv (both s)
  refine ⟨same_key commute inv pairs, ?_⟩
  rw [(pairs .device).sharedkey, (inv.owns _).privatekey, (inv.owns _).publickey, own]
  exact donna_multiple nine coordinate_nine _ _

end

def apartWith (ids : Side → Identity) : Network where
  party s := {
    config := { (default : ChatFabricConfig) with
      uuid := (ids s).uuid
      publickey := (ids s).publickey
      privatekey := (ids s).privatekey }
    pair := cfPairInit default (ids s).mynonce
    configFile := none
    pairFile := none }
  flight _ := []

theorem apartWith_fresh (crypto : Crypto) (ids : Side → Identity) : Fresh crypto ids (apartWith ids) :=
  ⟨fun _ ↦ ⟨rfl, rfl, rfl⟩, fun _ ↦ ⟨default, rfl⟩, fun _ ↦ rfl⟩

def ownKeys (ids : Side → Identity) (s : Side) : Identity :=
  { ids s with publickey := donna (ids s).privatekey KeyConsistency.basepoint }

theorem ownKeys_own (ids : Side → Identity) (s : Side) :
    (ownKeys ids s).publickey = donna (ownKeys ids s).privatekey KeyConsistency.basepoint := by
  simp only [ownKeys]

theorem paired_share_multiple_apart : ∃ inputs,
    ((leNumber ((run (Network.next (espCrypto (.zero 16))) (apartWith (ownKeys PairingRuns.twoKeys)) inputs).party
        .device).pair.sharedkey.val : ℕ) : Residue) =
      xCoordinate ((scalarOf (ownKeys PairingRuns.twoKeys .device).privatekey *
        scalarOf (ownKeys PairingRuns.twoKeys .controller).privatekey) • nine) := by
  have own := ownKeys_own PairingRuns.twoKeys
  have fresh := apartWith_fresh (espCrypto (.zero 16)) (ownKeys PairingRuns.twoKeys)
  obtain ⟨inputs, _, paired⟩ := PairingRuns.completes (commute_of_own own) fresh.inv
    (PairingRuns.live_of_fresh fresh)
  exact ⟨inputs, (paired_share_multiple own fresh inputs _
    (mem_states_iff.mpr ⟨inputs, [], by simp, rfl⟩) paired).2⟩

end CryptoBuilds
