import ChatFabric.PairingFlags

/- The order in which a fresh record goes through its states, when it is stored, and what
   a paired record keeps. -/
namespace PairingOrder
open ByteStrings Runs ChatFabric PairingFlags

variable {crypto : Crypto} {config : ChatFabricConfig} {cp : ChatPacket}
  {pair next : ChatFabricPairing}

def RecordKept (crypto : Crypto) (files : FileAccess) (p : Party) (cp reply : ChatPacket)
    (replyCmd : Command) : Prop :=
  ∀ o, stateMachine crypto files p cp reply replyCmd = .ok o → o.party.pair = p.pair

/-- A paired record is kept but for the uuid of the peer, which every pair request of
    somebody else overwrites: it is copied before the state is looked at. -/
theorem recordKept_iff (crypto : Crypto) (files : FileAccess) (p : Party) (cp reply : ChatPacket)
    (replyCmd : Command) (paired : p.pair.state = .paired) :
    RecordKept crypto files p cp reply replyCmd ↔
      ¬ (cp.cmd = .pairRequest ∧ cp.fromUuid ≠ p.pair.uuid) := by
  constructor
  · rintro kept ⟨cmd, other⟩
    have here : misaddressed p.config cp = false := by simp [misaddressed, cmd]
    have run : stateMachine crypto files p cp reply replyCmd = _ :=
      stateMachine_pair here (by simp [cmd]) (by simp [cmd])
    have same := kept _ run
    rw [saved_pair] at same
    simp only [pairSwitch, cmd, paired] at same
    exact other (congrArg ChatFabricPairing.uuid same)
  · intro known o run
    rcases paired_step paired (stateMachine_step run) with same | ⟨cmd, renamed⟩
    · exact same
    · have uuid : cp.fromUuid = p.pair.uuid := by
        by_contra other
        exact known ⟨cmd, other⟩
      rw [renamed, uuid]

def pairedParty : Party := ⟨default, { (default : ChatFabricPairing) with state := .paired }, none, none⟩

def requestOf (peer : UuidTuple) : ChatPacket :=
  { chatPacketInit0 default with cmd := .pairRequest, fromUuid := peer }

theorem recordKept_iff_peer :
    RecordKept default ⟨true, true⟩ pairedParty (requestOf default) (chatPacketInit0 default)
      .sendReplyFalse :=
  (recordKept_iff default ⟨true, true⟩ pairedParty _ _ _ rfl).mpr (by decide)

theorem stranger_not_recordKept :
    ¬ ∀ crypto files p cp reply replyCmd, p.pair.state = .paired →
      RecordKept crypto files p cp reply replyCmd := by
  intro kept
  have run : stateMachine default ⟨true, true⟩ pairedParty (requestOf ⟨.ofBytes 16 [1], .zero 16⟩)
      (chatPacketInit0 default) .sendReplyFalse = _ :=
    stateMachine_pair rfl (by decide) (by decide)
  have same := kept _ _ pairedParty _ _ _ rfl _ run
  revert same
  decide +kernel

inductive OnePlace : PairState → PairState → Prop where
  | publickey : OnePlace .unconfigured .publickeySetup
  | nonce : OnePlace .publickeySetup .nonceSetup
  | paired : OnePlace .nonceSetup .paired

structure Ordered (pair next : ChatFabricPairing) : Prop where
  state : next.state = pair.state ∨ OnePlace pair.state next.state ∨
    (next.state = .unconfigured ∧ pair.state ≠ .paired)
  paired : pair.state = .paired → next.state = .paired
  hasPublicKey : pair.hasPublicKey ≠ 0 → next.hasPublicKey ≠ 0
  hasNonce : pair.hasNonce ≠ 0 → next.hasNonce ≠ 0

theorem Ordered.refl (pair : ChatFabricPairing) : Ordered pair pair :=
  ⟨.inl rfl, id, id, id⟩

theorem step_ordered (handshake : verifiable pair.state = false)
    (step : PairStep crypto config cp pair next) : Ordered pair next := by
  cases step with
  | keep => exact .refl pair
  | addressed => exact ⟨.inl rfl, id, id, id⟩
  | reset started => exact ⟨.inr (.inr ⟨rfl, started⟩), fun paired => absurd paired started, id, id⟩
  | begun cmd fresh =>
    exact ⟨.inr (.inl (by rw [fresh]; exact .publickey)), by simp [fresh], id, id⟩
  | keyAcked cmd setup => exact ⟨.inr (.inl (by rw [setup]; exact .nonce)), by simp [setup], id, id⟩
  | nonceAcked cmd setup => exact ⟨.inr (.inl (by rw [setup]; exact .paired)), by simp, id, id⟩
  | keyed cmd setup =>
    refine ⟨?_, by simp [setup], by simp, id⟩
    rw [setup]
    split
    · exact .inr (.inl .nonce)
    · exact .inl rfl
  | nonced cmd setup =>
    refine ⟨?_, by simp [setup], id, by simp⟩
    rw [setup]
    split
    · exact .inr (.inl .paired)
    · exact .inl rfl
  | verified configured => simp [configured] at handshake

/-- cfPairWrite runs in the call: where its file opens, and there was none, there is one
    afterwards. -/
def WritesPair (crypto : Crypto) (p : Party) (a : Received) : Prop :=
  ∃ o, stateMachine crypto { a.files with pairOpens := true } { p with pairFile := none } a.cp
    a.reply a.replyCmd = .ok o ∧ o.party.pairFile ≠ none

theorem commandSwitch_anyPairFile (files : FileAccess) (opens : Bool) (p : Party)
    (file : Option Bytes) (reply : ChatPacket) :
    commandSwitch crypto { files with pairOpens := opens } { p with pairFile := file } cp reply =
      (commandSwitch crypto files p cp reply).map
        fun handled => { handled with party.pairFile := file } := by
  by_cases get : cp.cmd = .configGet
  · simp only [commandSwitch, get, createConfigString_eq, bind, Except.bind, Except.map]
  by_cases set : cp.cmd = .configSet
  · simp only [commandSwitch, set, bind, Except.bind]
    cases cfConfigSetFromStr p.config cp.payload cp.payloadLength with
    | error f => rfl
    | ok config =>
      simp only [cfConfigWrite_eq, Except.map]
      split <;> rfl
  · simp only [commandSwitch_pair get set, Except.map]

theorem writesPair_iff (s : Fed) (a : Received) :
    WritesPair crypto s.party a ↔
      s.party.pair.state ≠ .paired ∧ (feed crypto s a).party.pair.state = .paired := by
  unfold WritesPair feed
  cases elsewhere : misaddressed s.party.config a.cp with
  | true => simp [stateMachine, elsewhere]
  | false =>
    simp only [stateMachine, elsewhere, Bool.false_eq_true, if_false, commandSwitch_anyPairFile, bind,
      Except.bind, savePaired_eq]
    cases commandSwitch crypto a.files s.party a.cp
        { a.reply with toUuid := a.cp.fromUuid, fromUuid := s.party.config.uuid } with
    | error f => simp [Except.map]
    | ok handled =>
      simp only [Except.map, Except.ok.injEq, exists_eq_left', saved_pair]
      unfold saved
      split
      · rename_i entered
        obtain ⟨moved, paired⟩ := entered
        simp only at moved paired
        simp [paired, paired ▸ moved.symm]
      · rename_i kept
        simp only [ne_eq, not_true_eq_false, false_iff, not_and]
        intro unpaired paired
        exact kept ⟨fun same => unpaired (same.symm.trans paired), paired⟩

/-- The four states of the handshake; no other is ever entered. -/
def HandshakeState (state : PairState) : Prop :=
  state = .unconfigured ∨ state = .publickeySetup ∨ state = .nonceSetup ∨ state = .paired

theorem HandshakeState.unverifiable {state : PairState} (handshake : HandshakeState state) :
    verifiable state = false := by
  rcases handshake with rfl | rfl | rfl | rfl <;> rfl

theorem OnePlace.handshake {state next : PairState} (place : OnePlace state next) :
    HandshakeState next := by
  cases place with
  | publickey => exact .inr (.inl rfl)
  | nonce => exact .inr (.inr (.inl rfl))
  | paired => exact .inr (.inr (.inr rfl))

theorem Ordered.handshake (ordered : Ordered pair next) (handshake : HandshakeState pair.state) :
    HandshakeState next.state := by
  rcases ordered.state with same | place | ⟨reset, _⟩
  · rwa [same]
  · exact place.handshake
  · exact .inl reset

theorem feed_ordered {s : Fed} (a : Received) (handshake : HandshakeState s.party.pair.state) :
    Ordered s.party.pair (feed crypto s a).party.pair := by
  unfold feed
  split
  · rename_i o run
    exact step_ordered handshake.unverifiable (stateMachine_step run)
  · exact .refl _

structure OrderedStep (crypto : Crypto) (s : Fed) (a : Received) : Prop where
  order : Ordered s.party.pair (feed crypto s a).party.pair
  writes : WritesPair crypto s.party a ↔
    s.party.pair.state ≠ .paired ∧ (feed crypto s a).party.pair.state = .paired

theorem paired_stays (inputs : List Received) {s : Fed} (paired : s.party.pair.state = .paired) :
    (run (feed crypto) s inputs).party.pair.state = .paired := by
  have keep : ∀ s a, s.party.pair.state = .paired → (feed crypto s a).party.pair.state = .paired :=
    fun s a paired => (feed_ordered a (.inr (.inr (.inr paired)))).paired paired
  exact run_invariant keep paired inputs

/-- In every run from a fresh record the state goes through the handshake in its order, and the
    record is stored once, where it becomes a paired one. -/
theorem states_ordered (crypto : Crypto) (config : ChatFabricConfig) (memory : ChatFabricPairing)
    (random : Block 8) (configFile pairFile : Option Bytes) (inputs : List Received) :
    (∀ s ∈ states (feed crypto) (fresh config memory random configFile pairFile) inputs,
        HandshakeState s.party.pair.state) ∧
      EveryStep (feed crypto) (OrderedStep crypto) (fresh config memory random configFile pairFile)
        inputs ∧
      ∀ front a middle b back, inputs = front ++ a :: (middle ++ b :: back) →
        let first := run (feed crypto) (fresh config memory random configFile pairFile) front
        WritesPair crypto first.party a →
          ¬ WritesPair crypto (run (feed crypto) (feed crypto first a) middle).party b := by
  have start : HandshakeState
      (fresh config memory random configFile pairFile).party.pair.state := .inl rfl
  have keep : ∀ s a, HandshakeState s.party.pair.state →
      HandshakeState (feed crypto s a).party.pair.state :=
    fun s a handshake => (feed_ordered a handshake).handshake handshake
  refine ⟨every_state keep start inputs, ?_, ?_⟩
  · apply every_step keep (fun s a handshake => ?_) start inputs
    exact ⟨feed_ordered a handshake, writesPair_iff s a⟩
  · intro front a middle b back _ first writes again
    have entered := ((writesPair_iff first a).mp writes).2
    exact ((writesPair_iff _ b).mp again).1 (paired_stays middle entered)

end PairingOrder
