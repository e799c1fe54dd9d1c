import ChatFabric.PairSteps
import ChatFabric.Runs

/- What two parties answer each other when every reply is delivered. Each message has a
   number of replies it can still lead to, from the states of the two. -/
namespace ReplyChains
open Runs ChatFabric

/-- A packet on its way: who is to receive it, and who sent it. -/
structure Flight where
  receiver : Party
  sender : Party
  cp : ChatPacket

/-- What arrives of a reply is its header; the rest is left open. Instead of the command it
    may be the one of a packet that could not be decoded. -/
structure Delivered (sent got : ChatPacket) : Prop where
  cmd : got.cmd = sent.cmd ∨ got.cmd = .packetDecryptFailed
  flags : got.flags = sent.flags
  toUuid : got.toUuid = sent.toUuid
  fromUuid : got.fromUuid = sent.fromUuid

inductive Bounce (crypto : Crypto) : Flight → Flight → Prop where
  | reply {f : Flight} {files : FileAccess} {reply got : ChatPacket} {replyCmd : Command} {o : Outcome}
      (ran : stateMachine crypto files f.receiver f.cp reply replyCmd = .ok o)
      (asks : o.replyCmd = .sendReplyTrue) (delivered : Delivered o.reply got) :
      Bounce crypto f ⟨f.sender, o.party, got⟩

structure Addressed (f : Flight) : Prop where
  toUuid : f.cp.toUuid = f.receiver.config.uuid
  fromUuid : f.cp.fromUuid = f.sender.config.uuid

def waiting (pair : ChatFabricPairing) : Nat := if verifiable pair.state then 1 else 0

/-- How many replies a command can lead to. -/
def hops (cmd : Command) (flags : UInt32) (receiver sender : ChatFabricPairing) : Nat :=
  match cmd with
  | .hello | .appMessage | .appList | .configGet | .configSet | .other _ _ => 1
  | .verifyAck => waiting receiver + waiting sender
  | .verifySynack => 3
  | .verifySyn => 4
  | .nonceSend => if flags = 1 then 1 else 2
  | .nonceRequest => if receiver.hasPublicKey = 1 then 3 else 11
  | .publickeyAck => if sender.hasPublicKey = 1 then 4 else 12
  | .publickeySend => if flags = 1 then 5 else 6
  | .publickeyRequest => 7
  | .pairRequestAck => 8
  | .pairRequest => 9
  | .pairRequestReset => 10
  | .helloAck | .nonceAck | .nonceReset | .publickeyReset | .appMessageAck | .appRegister
  | .appListAck | .configMessage | .configDeligate | .configPair | .sendReplyFalse
  | .sendReplyTrue | .packetDecryptFailed | .fail | .invaildCmd => 0

def Flight.hops (f : Flight) : Nat := ReplyChains.hops f.cp.cmd f.cp.flags f.receiver.pair f.sender.pair

theorem waiting_le (pair : ChatFabricPairing) : waiting pair ≤ 1 := by
  unfold waiting
  split <;> omega

theorem hops_le (cmd : Command) (flags : UInt32) (receiver sender : ChatFabricPairing) :
    hops cmd flags receiver sender ≤ 12 := by
  have one := waiting_le receiver
  have two := waiting_le sender
  unfold hops
  split
  all_goals repeat' split
  all_goals omega

variable {crypto : Crypto} {config : ChatFabricConfig} {cp reply : ChatPacket}
  {pair other : ChatFabricPairing}

theorem pairSwitch_hops
    (asks : (pairSwitch crypto config cp pair reply).retval = .sendReplyTrue) :
    hops (pairSwitch crypto config cp pair reply).reply.cmd
        (pairSwitch crypto config cp pair reply).reply.flags other
        (pairSwitch crypto config cp pair reply).pair <
      hops cp.cmd cp.flags pair other := by
  have small := waiting_le other
  cases cmd : cp.cmd with
  | verifyAck =>
    simp only [pairSwitch, cmd] at asks ⊢
    split at asks
    · rename_i configured
      have before : waiting pair = 1 := if_pos configured
      have after : waiting { pair with state := .paired } = 0 := rfl
      simp only [configured, if_true, hops, before, after]
      omega
    · cases asks
  | verifySynack =>
    simp only [pairSwitch, cmd] at asks ⊢
    split at asks
    · rename_i configured
      have mine := waiting_le { pair with state := .configuredSynack }
      simp only [configured, if_true, hops]
      omega
    · cases asks
  | nonceRequest =>
    simp only [pairSwitch, cmd] at asks ⊢
    split at asks
    · rename_i setup
      split at asks
      · rename_i one
        simp only [setup, one, if_true, hops]
        split <;> omega
      · rename_i other
        simp [setup, other, hops]
    · cases asks
  | publickeyAck =>
    simp only [pairSwitch, cmd, publickeyRequest] at asks ⊢
    by_cases setup : pair.state = .publickeySetup
    · simp only [setup, if_true, reduceCtorEq, if_false, hops]
      split <;> omega
    · simp [setup] at asks
  | publickeyRequest =>
    simp only [pairSwitch, cmd, publickeyRequest] at asks ⊢
    split at asks
    · rename_i setup
      simp only [setup, if_true, hops]
      split <;> omega
    · cases asks
  | publickeySend | nonceSend =>
    simp only [pairSwitch, cmd] at asks ⊢
    split at asks
    · rename_i setup
      split at asks
      · rename_i one
        simp [setup, one, hops]
      · rename_i different
        simp [setup, different, hops]
    · cases asks
  | pairRequest =>
    by_cases fresh : pair.state = .unconfigured
    · simp [pairSwitch, cmd, fresh, hops]
    · simp [pairSwitch, cmd, fresh, hops]
  | pairRequestReset =>
    by_cases paired : pair.state = .paired
    · simp [pairSwitch, cmd, paired, hops]
    · simp [pairSwitch, cmd, paired, hops]
  | pairRequestAck | verifySyn | appMessage | appList =>
    simp only [pairSwitch, cmd] at asks ⊢
    split at asks
    · rename_i state
      simp [state, hops]
    · cases asks
  | hello | other =>
    simp [pairSwitch, cmd, hops]
  | nonceAck =>
    simp only [pairSwitch, cmd] at asks
    split at asks
    · cases asks
    · cases asks
  | _ =>
    simp only [pairSwitch, cmd] at asks
    cases asks

theorem pairSwitch_addresses (crypto : Crypto) (config : ChatFabricConfig) (cp : ChatPacket)
    (pair : ChatFabricPairing) (reply : ChatPacket) :
    (pairSwitch crypto config cp pair reply).reply.toUuid = reply.toUuid ∧
      (pairSwitch crypto config cp pair reply).reply.fromUuid = reply.fromUuid := by
  cases cmd : cp.cmd with
  | publickeyAck | publickeyRequest =>
    simp only [pairSwitch, cmd, publickeyRequest]
    repeat' split
    all_goals simp
  | _ =>
    simp only [pairSwitch, cmd]
    repeat' split
    all_goals simp

@[simp] theorem saved_uuid (files : FileAccess) (previous : PairState) (p : Party) :
    (saved files previous p).config.uuid = p.config.uuid := by
  unfold saved
  split <;> rfl

/-- A reply that is asked for: it leads to less, it goes back, and its sender is still who it
    says, but where its config has just been set. -/
structure Asked (p : Party) (cp : ChatPacket) (o : Outcome) : Prop where
  fewer : ∀ other, hops o.reply.cmd o.reply.flags other o.party.pair <
    hops cp.cmd cp.flags p.pair other
  toUuid : o.reply.toUuid = cp.fromUuid
  fromUuid : o.reply.fromUuid = p.config.uuid
  uuid : o.party.config.uuid = p.config.uuid ∨ o.reply.cmd = .appMessageAck

theorem stateMachine_asked {files : FileAccess} {p : Party} {replyCmd : Command} {o : Outcome}
    (here : cp.toUuid = p.config.uuid)
    (ran : stateMachine crypto files p cp reply replyCmd = .ok o)
    (asks : o.replyCmd = .sendReplyTrue) : Asked p cp o := by
  rcases stateMachine_cases ran with ⟨elsewhere, _⟩ | ⟨_, handled, switched, rfl⟩
  · simp [misaddressed, here] at elsewhere
  cases commandSwitch_commanded switched with
  | get cmd =>
    refine ⟨fun other => ?_, rfl, rfl, .inl (saved_uuid ..)⟩
    simp [cmd, hops]
  | set cmd config read =>
    refine ⟨fun other => ?_, rfl, rfl, .inr rfl⟩
    simp [cmd, hops]
  | pair notGet notSet =>
    obtain ⟨toUuid, fromUuid⟩ := pairSwitch_addresses crypto p.config cp p.pair
      { reply with toUuid := cp.fromUuid, fromUuid := p.config.uuid }
    refine ⟨fun other => ?_, toUuid, fromUuid, .inl (saved_uuid ..)⟩
    rw [saved_pair]
    exact pairSwitch_hops asks

/-- A packet on its way that is addressed well; an answer to one that leads to no more need
    not find its sender again. -/
structure Live (f : Flight) : Prop where
  toUuid : f.cp.toUuid = f.receiver.config.uuid
  fromUuid : f.cp.fromUuid = f.sender.config.uuid ∨ f.hops = 0

theorem bounce_hops {f g : Flight} (live : Live f) (bounce : Bounce crypto f g) :
    g.hops < f.hops ∧ Live g := by
  obtain ⟨ran, asks, delivered⟩ := bounce
  rename_i files reply got replyCmd o
  have asked := stateMachine_asked live.toUuid ran asks
  have reached : hops got.cmd got.flags f.sender.pair o.party.pair ≤
      hops o.reply.cmd o.reply.flags f.sender.pair o.party.pair := by
    rcases delivered.cmd with same | failed
    · exact Nat.le_of_eq (by rw [same, delivered.flags])
    · rw [failed]
      exact Nat.zero_le _
  have fewer := asked.fewer f.sender.pair
  constructor
  · exact Nat.lt_of_le_of_lt reached fewer
  constructor
  · rw [delivered.toUuid, asked.toUuid]
    rcases live.fromUuid with known | last
    · exact known
    · simp only [Flight.hops] at last
      omega
  · rw [delivered.fromUuid, asked.fromUuid]
    rcases asked.uuid with same | ack
    · exact .inl same.symm
    · right
      rw [ack] at reached
      exact Nat.le_zero.mp reached

/-- Two parties exchange at most twelve replies to a packet of the one to the other, whatever
    states they are in and whatever the packet is. -/
theorem chain_ends (crypto : Crypto) (f : Flight) (addressed : Addressed f) {n : Nat} {g : Flight}
    (chain : Chain (Bounce crypto) n f g) : n ≤ 12 := by
  have start : Live f := ⟨addressed.toUuid, .inl addressed.fromUuid⟩
  have short := chain_le_measure Flight.hops (fun _ _ live bounce => (bounce_hops live bounce).1)
    (fun _ _ live bounce => (bounce_hops live bounce).2) start chain
  exact Nat.le_trans short (hops_le _ _ _ _)

def answer (f : Flight) : Option Flight :=
  match stateMachine default ⟨true, true⟩ f.receiver f.cp (chatPacketInit0 default) .sendReplyFalse with
  | .ok o => if o.replyCmd = .sendReplyTrue then some ⟨f.sender, o.party, o.reply⟩ else none
  | .error _ => none

def answers : Nat → Flight → Option Flight
  | 0, f => some f
  | n + 1, f => (answer f).bind (answers n)

theorem bounce_of_answer {f g : Flight} (answered : answer f = some g) : Bounce default f g := by
  unfold answer at answered
  split at answered
  · rename_i o ran
    split at answered
    · rename_i asks
      cases answered
      exact .reply ran asks ⟨.inl rfl, rfl, rfl, rfl⟩
    · cases answered
  · cases answered

theorem chain_of_answers {n : Nat} {f g : Flight} (all : answers n f = some g) :
    Chain (Bounce default) n f g := by
  induction n generalizing f with
  | zero =>
    cases all
    exact .none _
  | succ n ih =>
    obtain ⟨h, first, rest⟩ := Option.bind_eq_some_iff.mp all
    exact .more (bounce_of_answer first) (ih rest)

/-- A key is acknowledged, between two that have never had one: they begin again, and it takes
    all twelve. -/
def keyless (state : PairState) : Party :=
  ⟨default, { (default : ChatFabricPairing) with state := state }, none, none⟩

def acked : Flight :=
  ⟨keyless .publickeySetup, keyless .nonceSetup, { chatPacketInit0 default with cmd := .publickeyAck }⟩

theorem chain_ends_acked : ∃ g, Chain (Bounce default) 12 acked g ∧ 12 ≤ 12 := by
  have twelve : (answers 12 acked).isSome = true := by decide +kernel
  obtain ⟨g, all⟩ := Option.isSome_iff_exists.mp twelve
  have chain := chain_of_answers all
  exact ⟨g, chain, chain_ends default acked ⟨rfl, rfl⟩ chain⟩

end ReplyChains
