import ChatFabric.PairingRuns

/- Whoever is paired has the other's uuid, nonce and key, whatever became of the datagrams. -/
namespace HandshakeAgreement
open ByteStrings Runs ChatFabric Handshake PairingNetwork PairingRuns

structure PairedWith (crypto : Crypto) (p other : Party) : Prop where
  uuid : p.pair.uuid = other.config.uuid
  nonce : p.pair.nonce = other.pair.mynonce
  sharedkey : p.pair.sharedkey = crypto.curve25519Donna p.config.privatekey other.config.publickey

variable {crypto : Crypto} {ids : Side → Identity} {n : Network}

theorem paired_with {s : Side} (inv : Inv crypto ids n) (paired : (n.party s).pair.state = .paired) :
    PairedWith crypto (n.party s) (n.party s.other) := by
  have step := inv.agreed.peers s
  have phase : ((handshake n).peer s).phase = .paired := phaseOf_paired.mpr paired
  have keyed : (n.party s).pair.hasPublicKey = 1 := by
    simpa [handshake, peerOf] using step.keyed (.inr phase)
  have nonced : (n.party s).pair.hasNonce = 1 := by
    simpa [handshake, peerOf] using step.nonced phase
  have holds := inv.holds s
  refine ⟨?_, ?_, ?_⟩
  · rw [holds.uuid (by simp [paired]), (inv.owns s.other).uuid]
  · rw [holds.nonced nonced, (inv.holds s.other).mynonce]
  · rw [(holds.keyed keyed).2, sharedKey, (inv.owns s).privatekey, (inv.owns s.other).publickey]

theorem same_key (commute : Commute crypto ids) (inv : Inv crypto ids n)
    (both : ∀ s, PairedWith crypto (n.party s) (n.party s.other)) :
    (n.party .controller).pair.sharedkey = (n.party .device).pair.sharedkey := by
  rw [(both .controller).sharedkey, (both .device).sharedkey]
  simp only [Side.other, (inv.owns _).privatekey, (inv.owns _).publickey]
  exact commute

/-- In every run of two fresh parties, whoever is paired is paired with the other one, and
    two that are paired share one key and hold each other's nonce. -/
theorem paired_agree (commute : Commute crypto ids) (fresh : Fresh crypto ids n)
    (inputs : List Action) : ∀ t ∈ states (Network.next crypto) n inputs,
      (∀ s, (t.party s).pair.state = .paired →
        PairedWith crypto (t.party s) (t.party s.other)) ∧
      ((∀ s, (t.party s).pair.state = .paired) →
        (t.party .controller).pair.sharedkey = (t.party .device).pair.sharedkey ∧
        (t.party .controller).pair.nonce = (t.party .device).pair.mynonce ∧
        (t.party .device).pair.nonce = (t.party .controller).pair.mynonce) := by
  intro t member
  obtain ⟨front, _, _, rfl⟩ := mem_states_iff.mp member
  have inv := run_inv commute fresh.inv front
  constructor
  · intro s paired
    exact paired_with inv paired
  · intro both
    have pairs : ∀ s, PairedWith crypto _ _ := fun s => paired_with inv (both s)
    exact ⟨same_key commute inv pairs, (pairs .controller).nonce, (pairs .device).nonce⟩

theorem paired_agree_apart :
    ∃ inputs, (∀ s, ((run (Network.next x25519) apart inputs).party s).pair.state = .paired) ∧
      ((run (Network.next x25519) apart inputs).party .controller).pair.sharedkey =
        ((run (Network.next x25519) apart inputs).party .device).pair.sharedkey := by
  have commute : Commute x25519 twoKeys := rfl
  obtain ⟨inputs, _, paired⟩ := completes commute (apart_fresh x25519).inv
    (live_of_fresh (apart_fresh x25519))
  have agree := paired_agree commute (apart_fresh x25519) inputs _
    (mem_states_iff.mpr ⟨inputs, [], by simp, rfl⟩)
  exact ⟨inputs, paired, (agree.2 paired).1⟩

end HandshakeAgreement
