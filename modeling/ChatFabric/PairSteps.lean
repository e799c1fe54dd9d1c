import ChatFabric.StateMachine

/- What one call of stateMachine can make of the pairing record, and what it leaves
   alone. Every invariant of the record is derived from this list of changes. -/
namespace ChatFabric
open ByteStrings

inductive PairStep (crypto : Crypto) (config : ChatFabricConfig) (cp : ChatPacket)
    (pair : ChatFabricPairing) : ChatFabricPairing → Prop where
  | keep : PairStep crypto config cp pair pair
  | reset (started : pair.state ≠ .paired) :
      PairStep crypto config cp pair { pair with state := .unconfigured }
  | addressed (cmd : cp.cmd = .pairRequest) (started : pair.state ≠ .unconfigured) :
      PairStep crypto config cp pair { pair with uuid := cp.fromUuid }
  | begun (cmd : cp.cmd = .pairRequest ∨ cp.cmd = .pairRequestAck) (fresh : pair.state = .unconfigured) :
      PairStep crypto config cp pair { pair with uuid := cp.fromUuid, state := .publickeySetup }
  | keyAcked (cmd : cp.cmd = .publickeyAck) (setup : pair.state = .publickeySetup) :
      PairStep crypto config cp pair { pair with state := .nonceSetup }
  | keyed (cmd : cp.cmd = .publickeySend) (setup : pair.state = .publickeySetup) :
      PairStep crypto config cp pair { pair with
        publickey := cp.publickey
        hasPublicKey := 1
        sharedkey := crypto.curve25519Donna config.privatekey cp.publickey
        state := if cp.flags = 1 then .nonceSetup else .publickeySetup }
  | nonced (cmd : cp.cmd = .nonceSend) (setup : pair.state = .nonceSetup) :
      PairStep crypto config cp pair { pair with
        nonce := cp.nonce
        hasNonce := 1
        state := if cp.flags = 1 then .paired else .nonceSetup }
  | nonceAcked (cmd : cp.cmd = .nonceAck) (setup : pair.state = .nonceSetup) :
      PairStep crypto config cp pair { pair with state := .paired }
  | verified (configured : verifiable pair.state) (state : PairState) :
      PairStep crypto config cp pair { pair with state := state }

variable {crypto : Crypto} {config : ChatFabricConfig} {cp reply : ChatPacket}
  {pair : ChatFabricPairing}

@[simp] theorem publickeyRequest_pair (s : Switched) : (publickeyRequest config s).pair = s.pair := by
  unfold publickeyRequest
  split <;> rfl

theorem pairSwitch_step :
    PairStep crypto config cp pair (pairSwitch crypto config cp pair reply).pair := by
  cases cmd : cp.cmd with
  | pairRequestReset =>
    simp only [pairSwitch, cmd]
    split
    · rename_i started
      exact .reset started
    · exact .keep
  | pairRequest =>
    simp only [pairSwitch, cmd]
    split
    · rename_i fresh
      exact .begun (.inl cmd) fresh
    · rename_i started
      exact .addressed cmd started
  | pairRequestAck =>
    simp only [pairSwitch, cmd]
    split
    · rename_i fresh
      exact .begun (.inr cmd) fresh
    · exact .keep
  | nonceRequest =>
    simp only [pairSwitch, cmd]
    split
    · rename_i setup
      split
      · exact .keep
      · exact .reset (by simp [setup])
    · exact .keep
  | nonceAck =>
    simp only [pairSwitch, cmd]
    split
    · rename_i setup
      exact .nonceAcked cmd setup
    · exact .keep
  | nonceSend =>
    simp only [pairSwitch, cmd]
    split
    · rename_i setup
      have step : PairStep crypto config cp pair _ := .nonced cmd setup
      split
      · rename_i one
        simpa only [one, if_true] using step
      · rename_i other
        simpa only [other, if_false, ← setup] using step
    · exact .keep
  | publickeyAck =>
    simp only [pairSwitch, cmd, publickeyRequest_pair]
    split
    · rename_i setup
      exact .keyAcked cmd setup
    · exact .keep
  | publickeySend =>
    simp only [pairSwitch, cmd]
    split
    · rename_i setup
      have step : PairStep crypto config cp pair _ := .keyed cmd setup
      split
      · rename_i one
        simpa only [one, if_true] using step
      · rename_i other
        simpa only [other, if_false, ← setup] using step
    · exact .keep
  | verifySyn | verifySynack | verifyAck =>
    simp only [pairSwitch, cmd]
    split
    · rename_i configured
      exact .verified configured _
    · exact .keep
  | publickeyRequest =>
    simp only [pairSwitch, cmd, publickeyRequest_pair]
    exact .keep
  | appMessage | appList =>
    simp only [pairSwitch, cmd]
    split <;> exact .keep
  | _ =>
    simp only [pairSwitch, cmd]
    exact .keep

@[simp] theorem cfConfigWrite_eq (files : FileAccess) (p : Party) :
    cfConfigWrite files p =
      .ok (if files.configOpens then { p with configFile := some (fileBytes p.config) } else p) := by
  simp only [cfConfigWrite, configFileBytes_eq, bind, Except.bind]

@[simp] theorem cfPairWrite_eq (files : FileAccess) (p : Party) :
    cfPairWrite files p =
      .ok (if files.pairOpens then { p with pairFile := some (pairBytes p.pair) } else p) := by
  simp only [cfPairWrite, pairFileBytes_eq, bind, Except.bind]

def saved (files : FileAccess) (previous : PairState) (p : Party) : Party :=
  if p.pair.state ≠ previous ∧ p.pair.state = .paired then
    { p with
      config.hasPairs := 1
      pairFile := if files.pairOpens then some (pairBytes p.pair) else p.pairFile }
  else p

@[simp] theorem savePaired_eq (files : FileAccess) (previous : PairState) (p : Party) :
    savePaired files previous p = .ok (saved files previous p) := by
  unfold savePaired saved
  split
  · rw [cfPairWrite_eq]
    split <;> simp_all
  · rfl

@[simp] theorem saved_pair (files : FileAccess) (previous : PairState) (p : Party) :
    (saved files previous p).pair = p.pair := by
  unfold saved
  split <;> rfl

theorem saved_unchanged {files : FileAccess} {previous : PairState} {p : Party}
    (same : p.pair.state = previous) : saved files previous p = p := by
  simp [saved, same]

theorem commandSwitch_pair {files : FileAccess} {p : Party} (notGet : cp.cmd ≠ .configGet)
    (notSet : cp.cmd ≠ .configSet) :
    commandSwitch crypto files p cp reply =
      let s := pairSwitch crypto p.config cp p.pair reply
      .ok ⟨{ p with pair := s.pair }, s.reply, s.retval⟩ := by
  unfold commandSwitch
  split <;> first | exact absurd ‹_› notGet | exact absurd ‹_› notSet | rfl

inductive Commanded (crypto : Crypto) (files : FileAccess) (p : Party) (cp reply : ChatPacket) :
    Handled → Prop where
  | get (cmd : cp.cmd = .configGet) :
      Commanded crypto files p cp reply ⟨p, { reply with
        cmd := .configMessage
        payload := some (configString p.config)
        payloadLength := UInt32.ofNat (configString p.config).length }, .sendReplyTrue⟩
  | set (cmd : cp.cmd = .configSet) (config : ChatFabricConfig)
      (read : cfConfigSetFromStr p.config cp.payload cp.payloadLength = .ok config) :
      Commanded crypto files p cp reply ⟨{ p with
        config := config
        configFile := if files.configOpens then some (fileBytes config) else p.configFile },
        { reply with cmd := .appMessageAck }, .sendReplyTrue⟩
  | pair (notGet : cp.cmd ≠ .configGet) (notSet : cp.cmd ≠ .configSet) :
      Commanded crypto files p cp reply
        ⟨{ p with pair := (pairSwitch crypto p.config cp p.pair reply).pair },
          (pairSwitch crypto p.config cp p.pair reply).reply,
          (pairSwitch crypto p.config cp p.pair reply).retval⟩

theorem commandSwitch_commanded {files : FileAccess} {p : Party} {handled : Handled}
    (run : commandSwitch crypto files p cp reply = .ok handled) :
    Commanded crypto files p cp reply handled := by
  by_cases get : cp.cmd = .configGet
  · simp only [commandSwitch, get, createConfigString_eq, bind, Except.bind] at run
    cases run
    exact .get get
  by_cases set : cp.cmd = .configSet
  · simp only [commandSwitch, set, bind, Except.bind] at run
    split at run
    · cases run
    · rename_i config read
      have step : Commanded crypto files p cp reply _ := .set set config read
      simp only [cfConfigWrite_eq] at run
      cases run
      split
      · rename_i opens
        simpa only [opens, if_true] using step
      · rename_i closed
        simpa only [closed, if_false, Bool.false_eq_true] using step
  · rw [commandSwitch_pair get set] at run
    cases run
    exact .pair get set

theorem commandSwitch_step {files : FileAccess} {p : Party} {handled : Handled}
    (run : commandSwitch crypto files p cp reply = .ok handled) :
    PairStep crypto p.config cp p.pair handled.party.pair := by
  cases commandSwitch_commanded run with
  | get => exact .keep
  | set => exact .keep
  | pair => exact pairSwitch_step

theorem stateMachine_cases {files : FileAccess} {p : Party} {replyCmd : Command} {o : Outcome}
    (run : stateMachine crypto files p cp reply replyCmd = .ok o) :
    (misaddressed p.config cp = true ∧ o = ⟨p, reply, replyCmd, .invaildDest⟩) ∨
      (misaddressed p.config cp = false ∧ ∃ handled,
        commandSwitch crypto files p cp
          { reply with toUuid := cp.fromUuid, fromUuid := p.config.uuid } = .ok handled ∧
        o = ⟨saved files p.pair.state handled.party, handled.reply, handled.retval, .ok⟩) := by
  unfold stateMachine at run
  cases elsewhere : misaddressed p.config cp with
  | true =>
    rw [elsewhere] at run
    exact .inl ⟨rfl, (Except.ok.inj run).symm⟩
  | false =>
    simp only [elsewhere, bind, Except.bind] at run
    simp only [Bool.false_eq_true, if_false, savePaired_eq] at run
    split at run
    · cases run
    · rename_i handled switched
      exact .inr ⟨rfl, handled, switched, (Except.ok.inj run).symm⟩

theorem stateMachine_step {files : FileAccess} {p : Party} {replyCmd : Command} {o : Outcome}
    (run : stateMachine crypto files p cp reply replyCmd = .ok o) :
    PairStep crypto p.config cp p.pair o.party.pair := by
  rcases stateMachine_cases run with ⟨_, rfl⟩ | ⟨_, handled, switched, rfl⟩
  · exact .keep
  · rw [saved_pair]
    exact commandSwitch_step switched

theorem stateMachine_pair {files : FileAccess} {p : Party} {replyCmd : Command}
    (here : misaddressed p.config cp = false) (notGet : cp.cmd ≠ .configGet)
    (notSet : cp.cmd ≠ .configSet) :
    stateMachine crypto files p cp reply replyCmd =
      let s := pairSwitch crypto p.config cp p.pair
        { reply with toUuid := cp.fromUuid, fromUuid := p.config.uuid }
      .ok ⟨saved files p.pair.state { p with pair := s.pair }, s.reply, s.retval, .ok⟩ := by
  simp only [stateMachine, here, commandSwitch_pair notGet notSet, bind, Except.bind,
    savePaired_eq, Bool.false_eq_true, if_false]

theorem paired_step {next : ChatFabricPairing} (paired : pair.state = .paired)
    (step : PairStep crypto config cp pair next) :
    next = pair ∨ (cp.cmd = .pairRequest ∧ next = { pair with uuid := cp.fromUuid }) := by
  cases step with
  | keep => exact .inl rfl
  | addressed cmd => exact .inr ⟨cmd, rfl⟩
  | reset started => exact absurd paired started
  | begun cmd fresh => simp [paired] at fresh
  | keyAcked cmd setup | keyed cmd setup | nonced cmd setup | nonceAcked cmd setup =>
    simp [paired] at setup
  | verified configured => simp [paired, verifiable] at configured

theorem step_of_paired {next : ChatFabricPairing} (paired : pair.state = .paired)
    (step : PairStep crypto config cp pair next) : ∃ uuid, next = { pair with uuid := uuid } := by
  rcases paired_step paired step with rfl | ⟨_, rfl⟩
  · exact ⟨next.uuid, rfl⟩
  · exact ⟨cp.fromUuid, rfl⟩

theorem commandSwitch_pairFile {files : FileAccess} {p : Party} {handled : Handled}
    (run : commandSwitch crypto files p cp reply = .ok handled) :
    handled.party.pairFile = p.pairFile := by
  cases commandSwitch_commanded run with
  | get => rfl
  | set => rfl
  | pair => rfl

theorem stateMachine_keeps {files : FileAccess} {p : Party} {replyCmd : Command} {o : Outcome}
    (paired : p.pair.state = .paired)
    (ran : stateMachine crypto files p cp reply replyCmd = .ok o) :
    (∃ uuid, o.party.pair = { p.pair with uuid := uuid }) ∧ o.party.pairFile = p.pairFile := by
  refine ⟨step_of_paired paired (stateMachine_step ran), ?_⟩
  rcases stateMachine_cases ran with ⟨_, rfl⟩ | ⟨_, handled, switched, rfl⟩
  · rfl
  · obtain ⟨uuid, pair⟩ := step_of_paired paired (commandSwitch_step switched)
    rw [saved_unchanged (by rw [pair])]
    exact commandSwitch_pairFile switched

def Lists (config : ChatFabricConfig) (reply : ChatPacket) : Prop :=
  ∀ table, reply.controlers = some table → table = config.controlers

theorem pairSwitch_lists (unlisted : reply.controlers = none) :
    Lists config (pairSwitch crypto config cp pair reply).reply := by
  intro table listed
  cases cmd : cp.cmd with
  | appList =>
    simp only [pairSwitch, cmd] at listed
    split at listed
    · exact (Option.some.inj listed).symm
    · rw [unlisted] at listed
      cases listed
  | publickeyAck | publickeyRequest =>
    simp only [pairSwitch, cmd, publickeyRequest] at listed
    repeat' split at listed
    all_goals (rw [unlisted] at listed; cases listed)
  | _ =>
    simp only [pairSwitch, cmd] at listed
    repeat' split at listed
    all_goals (rw [unlisted] at listed; cases listed)

theorem commandSwitch_controlers {files : FileAccess} {p : Party} {handled : Handled}
    (unlisted : reply.controlers = none)
    (run : commandSwitch crypto files p cp reply = .ok handled) :
    handled.party.config.controlers = p.config.controlers ∧ Lists p.config handled.reply := by
  cases commandSwitch_commanded run with
  | get => exact ⟨rfl, by simp [Lists, unlisted]⟩
  | set cmd config read => exact ⟨cfConfigSetFromStr_controlers read, by simp [Lists, unlisted]⟩
  | pair => exact ⟨rfl, pairSwitch_lists unlisted⟩

theorem stateMachine_controlers {files : FileAccess} {p : Party} {replyCmd : Command} {o : Outcome}
    (unlisted : reply.controlers = none)
    (run : stateMachine crypto files p cp reply replyCmd = .ok o) :
    o.party.config.controlers = p.config.controlers ∧ Lists p.config o.reply := by
  rcases stateMachine_cases run with ⟨_, rfl⟩ | ⟨_, handled, switched, rfl⟩
  · exact ⟨rfl, by simp [Lists, unlisted]⟩
  · obtain ⟨same, lists⟩ := commandSwitch_controlers (by exact unlisted) switched
    refine ⟨?_, lists⟩
    unfold saved
    split <;> exact same

end ChatFabric
