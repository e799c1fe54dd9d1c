import ChatFabric.PairingRuns

/- Which losses a pairing survives. The controller only ever repeats its request, a party
   that is on its way answers that with CMD_FAIL, and nothing else is sent again. -/
namespace HandshakeRecovery
open Runs ChatFabric Handshake PairingNetwork PairingRuns

def Single : Action → Prop
  | .duplicate _ _ => False
  | _ => True

/-- What is lost, if anything, is a CMD_PAIR_REQUEST or a CMD_FAIL. -/
def Harmless (n : Network) : Action → Prop
  | .lose s k => ∀ d, (n.flight s)[k]? = some d → commandOf d = .pairRequest ∨ commandOf d = .fail
  | _ => True

def BothPaired (n : Network) : Prop := ∀ s, (n.party s).pair.state = .paired

def Recovers (crypto : Crypto) (n : Network) : Prop :=
  ∃ more, (∀ a ∈ more, Onward a) ∧ BothPaired (run (Network.next crypto) n more)

variable {crypto : Crypto} {ids : Side → Identity} {n : Network}

theorem aside_messageOf {s : Side} {d : ByteStrings.Bytes} (said : Said crypto ids s d) :
    HandshakeStages.aside (messageOf d) ↔ commandOf d = .pairRequest ∨ commandOf d = .fail := by
  obtain ⟨cp, pair, pad, wrote⟩ := said
  rw [messageOf, wrote.bytes, commandOf_wire]
  rcases wrote.formed.cmd with cmd | cmd | cmd | cmd | cmd | cmd | cmd | cmd | cmd <;>
    simp [cmd, messageWith, HandshakeStages.aside]

theorem kept_iff (inv : Inv crypto ids n) (a : Action) :
    HandshakeStages.Kept (handshake n) (actOf a) ↔ Harmless n a := by
  cases a with
  | lose s k =>
    simp only [actOf, HandshakeStages.Kept, Harmless, handshake, List.getElem?_map,
      Option.map_eq_some_iff]
    constructor
    · intro kept d known
      exact (aside_messageOf (inv.said s d (List.mem_of_getElem? known))).mp (kept _ ⟨d, known, rfl⟩)
    · rintro harmless m ⟨d, known, rfl⟩
      exact (aside_messageOf (inv.said s d (List.mem_of_getElem? known))).mpr (harmless d known)
  | _ => exact Iff.rfl

theorem single_actOf {a : Action} (single : Single a) : HandshakeStages.Single (actOf a) := by
  cases a <;> exact single

structure OnItsWay (crypto : Crypto) (ids : Side → Identity) (n : Network) : Prop where
  inv : Inv crypto ids n
  live : HandshakeStages.Live (handshake n)

structure Wedged (crypto : Crypto) (ids : Side → Identity) (n : Network) : Prop where
  inv : Inv crypto ids n
  dead : HandshakeStages.Dead (handshake n)

theorem OnItsWay.next (commute : Commute crypto ids) (way : OnItsWay crypto ids n) {a : Action}
    (single : Single a) (harmless : Harmless n a) : OnItsWay crypto ids (n.next crypto a) := by
  obtain ⟨inv', same | same⟩ := next_inv commute way.inv a
  · refine ⟨inv', ?_⟩
    rw [same]
    exact way.live.next (single_actOf single) ((kept_iff way.inv a).mpr harmless)
  · rwa [same]

theorem OnItsWay.lost (way : OnItsWay crypto ids n) {a : Action} (lost : ¬ Harmless n a) :
    Wedged crypto ids (n.next crypto a) := by
  have dead := way.live.lost (mt (kept_iff way.inv a).mp lost)
  cases a with
  | lose s k =>
    refine ⟨way.inv.remove s k, ?_⟩
    simp only [Network.next, handshake_remove]
    exact dead
  | _ => exact absurd trivial lost

theorem Wedged.next (commute : Commute crypto ids) (wedged : Wedged crypto ids n) {a : Action}
    (single : Single a) : Wedged crypto ids (n.next crypto a) := by
  obtain ⟨inv', same | same⟩ := next_inv commute wedged.inv a
  · refine ⟨inv', ?_⟩
    rw [same]
    exact wedged.dead.next (single_actOf single)
  · rwa [same]

theorem single_of_onward {a : Action} (onward : Onward a) : Single a := by
  cases a with
  | request | deliver => trivial
  | _ => exact onward.elim

theorem Wedged.stays (commute : Commute crypto ids) (wedged : Wedged crypto ids n) :
    ¬ Recovers crypto n := by
  rintro ⟨more, onward, both⟩
  have last : Wedged crypto ids (run (Network.next crypto) n more) :=
    run_invariant_of_all (fun _ _ wedged onward => wedged.next commute (single_of_onward onward))
      wedged onward
  exact last.dead.unpaired (phaseOf_paired.mpr (both .controller))

/-- In every run without copies, the pairing can still be brought to its end exactly when
    nothing was lost but CMD_PAIR_REQUEST and CMD_FAIL. -/
theorem recovers_iff (commute : Commute crypto ids) (fresh : Fresh crypto ids n)
    (inputs : List Action) (single : ∀ a ∈ inputs, Single a) :
    Recovers crypto (run (Network.next crypto) n inputs) ↔
      EveryStep (Network.next crypto) Harmless n inputs := by
  have start : OnItsWay crypto ids n := ⟨fresh.inv, live_of_fresh fresh⟩
  have keep : ∀ n a, OnItsWay crypto ids n → Single a → Harmless n a →
      OnItsWay crypto ids (n.next crypto a) := by
    intro n a way single harmless
    exact way.next commute single harmless
  have lose : ∀ n a, OnItsWay crypto ids n → ¬ Harmless n a → Wedged crypto ids (n.next crypto a) := by
    intro n a way lost
    exact way.lost lost
  have trap : ∀ n a, Wedged crypto ids n → Single a → Wedged crypto ids (n.next crypto a) := by
    intro n a wedged single
    exact wedged.next commute single
  have good : ∀ n, OnItsWay crypto ids n → Recovers crypto n := by
    intro n way
    exact completes commute way.inv way.live
  have bad : ∀ n, Wedged crypto ids n → ¬ Recovers crypto n := by
    intro n wedged
    exact wedged.stays commute
  exact end_iff_every_step keep lose trap good bad start single

theorem recovers_iff_apart :
    Recovers x25519 (run (Network.next x25519) apart
      [.request default, .lose .controller 0, .request default]) := by
  have commute : Commute x25519 twoKeys := rfl
  refine (recovers_iff commute (apart_fresh x25519) _ (by simp [Single])).mpr
    ⟨trivial, ?_, trivial, trivial⟩
  intro d known
  cases known
  exact .inl (by decide)

/-- The acknowledgement of the request is lost: the device takes no second request, and the
    controller never gets past asking. -/
theorem lost_ack_wedges :
    ¬ ∀ (crypto : Crypto) (ids : Side → Identity) (n : Network), Commute crypto ids →
      Fresh crypto ids n → ∀ inputs, (∀ a ∈ inputs, Single a) →
        Recovers crypto (run (Network.next crypto) n inputs) := by
  intro recovers
  have commute : Commute x25519 twoKeys := rfl
  have fresh := apart_fresh x25519
  let asked : Network := apart.next x25519 (.request default)
  let answered : Network := asked.next x25519 (.deliver .device 0 (willing 400))
  have way : OnItsWay x25519 twoKeys apart := ⟨fresh.inv, live_of_fresh fresh⟩
  have way₁ : OnItsWay x25519 twoKeys asked := way.next commute trivial trivial
  have way₂ : OnItsWay x25519 twoKeys answered := way₁.next commute trivial trivial
  have acknowledged : (answered.flight .device)[0]?.map commandOf = some .pairRequestAck := by
    decide +kernel
  have lost : ¬ Harmless answered (.lose .device 0) := by
    intro harmless
    obtain ⟨d, known, ack⟩ := Option.map_eq_some_iff.mp acknowledged
    simpa [ack] using harmless d known
  have wedged := (way₂.lost lost).stays commute
  have recovered := recovers x25519 twoKeys apart commute fresh
    [.request default, .deliver .device 0 (willing 400), .lose .device 0] (by simp [Single])
  simp only [run, List.foldl_cons, List.foldl_nil] at recovered
  exact wedged recovered

end HandshakeRecovery
