import ChatFabric.PairSteps
import ChatFabric.Runs

/- Runs of stateMachine from a fresh record, and what a paired record holds. The two
   commands that can end the handshake do not look at the key and nonce flags. -/
namespace PairingFlags
open ByteStrings Runs ChatFabric

structure Fed where
  party : Party
  seen : List (ChatFabricConfig × ChatPacket)

structure Received where
  cp : ChatPacket
  reply : ChatPacket
  files : FileAccess
  replyCmd : Command

def feed (crypto : Crypto) (s : Fed) (a : Received) : Fed :=
  match stateMachine crypto a.files s.party a.cp a.reply a.replyCmd with
  | .ok o => ⟨o.party, s.seen ++ [(s.party.config, a.cp)]⟩
  | .error _ => s

def fresh (config : ChatFabricConfig) (memory : ChatFabricPairing) (random : Block 8)
    (configFile pairFile : Option Bytes) : Fed :=
  ⟨⟨config, cfPairInit memory random, configFile, pairFile⟩, []⟩

def KeyReceived (crypto : Crypto) (s : Fed) : Prop :=
  ∃ r ∈ s.seen, r.2.cmd = .publickeySend ∧
    s.party.pair.sharedkey = crypto.curve25519Donna r.1.privatekey r.2.publickey

def NonceReceived (s : Fed) : Prop :=
  ∃ r ∈ s.seen, r.2.cmd = .nonceSend ∧ s.party.pair.nonce = r.2.nonce

structure Keyed (crypto : Crypto) (s : Fed) : Prop where
  hasPublicKey : s.party.pair.hasPublicKey = 1
  hasNonce : s.party.pair.hasNonce = 1
  key : KeyReceived crypto s
  nonce : NonceReceived s

def PairedKeyed (crypto : Crypto) (s : Fed) : Prop :=
  s.party.pair.state = .paired → Keyed crypto s

/-- A handshake command that pairs a record without its key, or without its nonce. -/
def EndsUnkeyed (s : Fed) (a : Received) : Prop :=
  misaddressed s.party.config a.cp = false ∧ s.party.pair.state = .nonceSetup ∧
    ((a.cp.cmd = .nonceAck ∧ ¬ (s.party.pair.hasPublicKey = 1 ∧ s.party.pair.hasNonce = 1)) ∨
      (a.cp.cmd = .nonceSend ∧ a.cp.flags = 1 ∧ s.party.pair.hasPublicKey ≠ 1))

/-- What every run keeps: the flags tell the truth, and only the four states of the
    handshake are reached. -/
structure Inv (crypto : Crypto) (s : Fed) : Prop where
  key : s.party.pair.hasPublicKey = 1 → KeyReceived crypto s
  nonce : s.party.pair.hasNonce = 1 → NonceReceived s
  state : verifiable s.party.pair.state = false

variable {crypto : Crypto}

theorem fresh_inv (config : ChatFabricConfig) (memory : ChatFabricPairing) (random : Block 8)
    (configFile pairFile : Option Bytes) :
    Inv crypto (fresh config memory random configFile pairFile) where
  key flag := by cases flag
  nonce flag := by cases flag
  state := rfl

theorem KeyReceived.later {s : Fed} {p : Party} {r : ChatFabricConfig × ChatPacket}
    (received : KeyReceived crypto s) (same : p.pair.sharedkey = s.party.pair.sharedkey) :
    KeyReceived crypto ⟨p, s.seen ++ [r]⟩ := by
  obtain ⟨first, member, cmd, key⟩ := received
  exact ⟨first, List.mem_append_left _ member, cmd, same.trans key⟩

theorem NonceReceived.later {s : Fed} {p : Party} {r : ChatFabricConfig × ChatPacket}
    (received : NonceReceived s) (same : p.pair.nonce = s.party.pair.nonce) :
    NonceReceived ⟨p, s.seen ++ [r]⟩ := by
  obtain ⟨first, member, cmd, nonce⟩ := received
  exact ⟨first, List.mem_append_left _ member, cmd, same.trans nonce⟩

theorem Inv.untaken {s : Fed} {p : Party} {r : ChatFabricConfig × ChatPacket} (inv : Inv crypto s)
    (hasPublicKey : p.pair.hasPublicKey = s.party.pair.hasPublicKey)
    (hasNonce : p.pair.hasNonce = s.party.pair.hasNonce)
    (sharedkey : p.pair.sharedkey = s.party.pair.sharedkey)
    (nonce : p.pair.nonce = s.party.pair.nonce) (state : verifiable p.pair.state = false) :
    Inv crypto ⟨p, s.seen ++ [r]⟩ where
  key flag := (inv.key (hasPublicKey.symm.trans flag)).later sharedkey
  nonce flag := (inv.nonce (hasNonce.symm.trans flag)).later nonce
  state := state

theorem step_inv {s : Fed} {cp : ChatPacket} {p : Party} (inv : Inv crypto s)
    (step : PairStep crypto s.party.config cp s.party.pair p.pair) :
    Inv crypto ⟨p, s.seen ++ [(s.party.config, cp)]⟩ := by
  have newest : (s.party.config, cp) ∈ s.seen ++ [(s.party.config, cp)] := by simp
  have state := inv.state
  generalize same : p.pair = pair at step
  cases step with
  | keyed cmd setup =>
    refine ⟨fun _ => ⟨_, newest, cmd, by simp [same]⟩, fun flag => ?_, ?_⟩
    · exact (inv.nonce (by simpa [same] using flag)).later (by simp [same])
    · simp only [same]
      split <;> rfl
  | nonced cmd setup =>
    refine ⟨fun flag => ?_, fun _ => ⟨_, newest, cmd, by simp [same]⟩, ?_⟩
    · exact (inv.key (by simpa [same] using flag)).later (by simp [same])
    · simp only [same]
      split <;> rfl
  | verified configured state' => simp [configured] at state
  | keep | addressed =>
    exact inv.untaken (by simp [same]) (by simp [same]) (by simp [same]) (by simp [same])
      (by simpa [same] using state)
  | reset | begun | keyAcked | nonceAcked =>
    exact inv.untaken (by simp [same]) (by simp [same]) (by simp [same]) (by simp [same])
      (by simp [same, verifiable])

theorem feed_inv {s : Fed} {a : Received} (inv : Inv crypto s) : Inv crypto (feed crypto s a) := by
  unfold feed
  split
  · rename_i o run
    exact step_inv inv (stateMachine_step run)
  · exact inv

theorem step_to_paired {config : ChatFabricConfig} {cp : ChatPacket}
    {pair next : ChatFabricPairing} (handshake : verifiable pair.state = false)
    (unpaired : pair.state ≠ .paired) (step : PairStep crypto config cp pair next)
    (paired : next.state = .paired) :
    pair.state = .nonceSetup ∧
      ((cp.cmd = .nonceAck ∧ next = { pair with state := .paired }) ∨
        (cp.cmd = .nonceSend ∧ cp.flags = 1 ∧
          next = { pair with nonce := cp.nonce, hasNonce := 1, state := .paired })) := by
  cases step with
  | keep => exact absurd paired unpaired
  | addressed => exact absurd paired unpaired
  | reset | begun | keyAcked => cases paired
  | keyed cmd setup => simp only at paired; split at paired <;> cases paired
  | nonced cmd setup =>
    simp only at paired
    split at paired
    · rename_i one
      exact ⟨setup, .inr ⟨cmd, one, by simp [one]⟩⟩
    · cases paired
  | nonceAcked cmd setup => exact ⟨setup, .inl ⟨cmd, rfl⟩⟩
  | verified configured => simp [configured] at handshake

theorem keyed_of_inv {s : Fed} (inv : Inv crypto s) (key : s.party.pair.hasPublicKey = 1)
    (nonce : s.party.pair.hasNonce = 1) : Keyed crypto s :=
  ⟨key, nonce, inv.key key, inv.nonce nonce⟩

theorem feed_unkeyed {s : Fed} {a : Received} (ends : EndsUnkeyed s a) :
    ¬ PairedKeyed crypto (feed crypto s a) := by
  obtain ⟨here, setup, ends⟩ := ends
  intro keyed
  have notGet : a.cp.cmd ≠ .configGet := by rcases ends with ⟨cmd, _⟩ | ⟨cmd, _⟩ <;> simp [cmd]
  have notSet : a.cp.cmd ≠ .configSet := by rcases ends with ⟨cmd, _⟩ | ⟨cmd, _⟩ <;> simp [cmd]
  simp only [feed, stateMachine_pair here notGet notSet, PairedKeyed, saved_pair] at keyed
  rcases ends with ⟨cmd, missing⟩ | ⟨cmd, one, missing⟩
  · have flags := keyed (by simp [pairSwitch, cmd, setup])
    have key := flags.hasPublicKey
    have nonce := flags.hasNonce
    simp only [saved_pair, pairSwitch, cmd, setup, if_true] at key nonce
    exact missing ⟨key, nonce⟩
  · have flags := keyed (by simp [pairSwitch, cmd, setup, one])
    have key := flags.hasPublicKey
    simp only [saved_pair, pairSwitch, cmd, setup, one, if_true] at key
    exact missing key

theorem flags_of_step {s : Fed} {a : Received} {next : ChatFabricPairing} (inv : Inv crypto s)
    (good : PairedKeyed crypto s) (here : misaddressed s.party.config a.cp = false)
    (fine : ¬ EndsUnkeyed s a) (step : PairStep crypto s.party.config a.cp s.party.pair next)
    (paired : next.state = .paired) : next.hasPublicKey = 1 ∧ next.hasNonce = 1 := by
  by_cases before : s.party.pair.state = .paired
  · have flags := good before
    obtain ⟨uuid, rfl⟩ := step_of_paired before step
    exact ⟨flags.hasPublicKey, flags.hasNonce⟩
  · obtain ⟨setup, ⟨cmd, rfl⟩ | ⟨cmd, one, rfl⟩⟩ := step_to_paired inv.state before step paired
    · by_contra missing
      exact fine ⟨here, setup, .inl ⟨cmd, missing⟩⟩
    · refine ⟨?_, rfl⟩
      by_contra missing
      exact fine ⟨here, setup, .inr ⟨cmd, one, missing⟩⟩

theorem feed_pairedKeyed_iff {s : Fed} {a : Received} (inv : Inv crypto s)
    (good : PairedKeyed crypto s) :
    PairedKeyed crypto (feed crypto s a) ↔ ¬ EndsUnkeyed s a := by
  constructor
  · exact fun keyed ends => feed_unkeyed ends keyed
  · intro fine paired
    have next := feed_inv (a := a) inv
    revert paired next
    unfold feed
    split
    · rename_i o run
      intro paired next
      rcases stateMachine_cases run with ⟨_, rfl⟩ | ⟨here, handled, switched, rfl⟩
      · have flags := good paired
        exact keyed_of_inv next flags.hasPublicKey flags.hasNonce
      · have step := commandSwitch_step switched
        rw [← saved_pair a.files s.party.pair.state handled.party] at step
        have flags := flags_of_step inv good here fine step paired
        exact keyed_of_inv next flags.1 flags.2
    · intro paired _
      exact good paired

/-- In every run from a fresh record, whatever packets it is fed, a paired record holds the
    key and the nonce throughout exactly when no step ends the handshake unkeyed. -/
theorem pairedKeyed_iff (crypto : Crypto) (config : ChatFabricConfig) (memory : ChatFabricPairing)
    (random : Block 8) (configFile pairFile : Option Bytes) (inputs : List Received) :
    (∀ s ∈ states (feed crypto) (fresh config memory random configFile pairFile) inputs,
      PairedKeyed crypto s) ↔
    EveryStep (feed crypto) (fun s a => ¬ EndsUnkeyed s a)
      (fresh config memory random configFile pairFile) inputs :=
  every_state_iff_every_step (fun _ _ inv _ => feed_inv inv)
    (fun _ _ inv good => feed_pairedKeyed_iff inv good)
    (fresh_inv config memory random configFile pairFile) (fun paired => by cases paired) inputs

def received (cmd : Command) : Received :=
  ⟨{ chatPacketInit0 default with cmd := cmd }, chatPacketInit0 default, ⟨true, true⟩, .sendReplyFalse⟩

def unkeyedRun : List Received := [received .pairRequest, received .publickeyAck, received .nonceAck]

theorem unkeyedRun_pairs :
    ¬ ∀ s ∈ states (feed default) (fresh default default default none none) unkeyedRun,
      PairedKeyed default s := by
  intro all
  have last := all (run (feed default) (fresh default default default none none) unkeyedRun)
    (mem_states_iff.mpr ⟨unkeyedRun, [], by simp, rfl⟩)
  have keyed := (last (by decide +kernel)).hasPublicKey
  exact absurd keyed (by decide +kernel)

end PairingFlags
