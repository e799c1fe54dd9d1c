import ChatFabric.PairSteps

/- Who may read and change the config. The application commands ask for a paired record;
   CMD_CONFIG_GET and CMD_CONFIG_SET do not. -/
namespace ConfigAccess
open ByteStrings ChatFabric

variable {crypto : Crypto} {cp reply : ChatPacket}

structure SamePayload (old new : ChatPacket) : Prop where
  payload : new.payload = old.payload
  payloadLength : new.payloadLength = old.payloadLength

theorem publickeyRequest_payload (config : ChatFabricConfig) {s : Switched}
    (same : SamePayload reply s.reply) : SamePayload reply (publickeyRequest config s).reply := by
  unfold publickeyRequest
  split
  · exact ⟨same.payload, same.payloadLength⟩
  · exact same

theorem pairSwitch_payload (crypto : Crypto) (config : ChatFabricConfig) (pair : ChatFabricPairing)
    (cp reply : ChatPacket) :
    SamePayload reply (pairSwitch crypto config cp pair reply).reply := by
  cases cmd : cp.cmd with
  | publickeyAck =>
    simp only [pairSwitch, cmd]
    refine publickeyRequest_payload config ?_
    split <;> exact ⟨rfl, rfl⟩
  | publickeyRequest =>
    simp only [pairSwitch, cmd]
    exact publickeyRequest_payload config ⟨rfl, rfl⟩
  | nonceRequest | nonceSend | publickeySend =>
    simp only [pairSwitch, cmd]
    split
    · split <;> exact ⟨rfl, rfl⟩
    · exact ⟨rfl, rfl⟩
  | pairRequestReset | pairRequest | pairRequestAck | nonceAck | verifySyn | verifySynack
  | verifyAck | appMessage | appList =>
    simp only [pairSwitch, cmd]
    split <;> exact ⟨rfl, rfl⟩
  | _ =>
    simp only [pairSwitch, cmd]
    exact ⟨rfl, rfl⟩

/-- The packet is for this device and takes the command to its branch of the switch. -/
def Executes (p : Party) (cp : ChatPacket) (cmd : Command) : Prop :=
  misaddressed p.config cp = false ∧ cp.cmd = cmd

/-- What a stranger may do: neither the config nor its file changes, but by CMD_CONFIG_SET, and no
    reply but that to CMD_CONFIG_GET carries the config; only entering the paired state notes
    that there is a pair. -/
structure OnlyPairing (p : Party) (cp reply : ChatPacket) (o : Outcome) : Prop where
  config : ¬ Executes p cp .configSet → o.party.config =
    if o.party.pair.state = .paired then { p.config with hasPairs := 1 } else p.config
  configFile : ¬ Executes p cp .configSet → o.party.configFile = p.configFile
  payload : ¬ Executes p cp .configGet → SamePayload reply o.reply

section
variable {files : FileAccess} {p : Party} {replyCmd : Command} {o : Outcome}

theorem misaddressed_onlyPairing (unpaired : p.pair.state ≠ .paired) (e : FabricError) :
    OnlyPairing p cp reply ⟨p, reply, replyCmd, e⟩ :=
  ⟨fun _ => (if_neg unpaired).symm, fun _ => rfl, fun _ => ⟨rfl, rfl⟩⟩

theorem pairSwitch_onlyPairing (unpaired : p.pair.state ≠ .paired) (e : FabricError) :
    OnlyPairing p cp reply
      (let s := pairSwitch crypto p.config cp p.pair
        { reply with toUuid := cp.fromUuid, fromUuid := p.config.uuid }
      ⟨saved files p.pair.state { p with pair := s.pair }, s.reply, s.retval, e⟩) := by
  refine ⟨fun _ => ?_, fun _ => ?_, fun _ => ?_⟩
  · simp only [saved]
    split
    · rename_i entered
      simp [entered.2]
    · rename_i stays
      rw [if_neg]
      intro paired
      exact stays ⟨fun same => unpaired (same ▸ paired), paired⟩
  · simp only [saved]
    split <;> rfl
  · have same := pairSwitch_payload crypto p.config p.pair cp
      { reply with toUuid := cp.fromUuid, fromUuid := p.config.uuid }
    exact ⟨same.payload, same.payloadLength⟩

theorem configGet_onlyPairing (unpaired : p.pair.state ≠ .paired)
    (executes : Executes p cp .configGet)
    (run : stateMachine crypto files p cp reply replyCmd = .ok o) : OnlyPairing p cp reply o := by
  obtain ⟨here, cmd⟩ := executes
  simp only [stateMachine, here, commandSwitch, cmd, bind, Except.bind, Bool.false_eq_true,
    if_false] at run
  cases made : createConfigString p.config with
  | error f => simp [made] at run
  | ok str =>
    simp only [made, savePaired, ne_eq, not_true_eq_false, false_and, if_false,
      Except.ok.injEq] at run
    subst run
    exact ⟨fun _ => (if_neg unpaired).symm, fun _ => rfl, fun other => absurd ⟨here, cmd⟩ other⟩

theorem configSet_onlyPairing (executes : Executes p cp .configSet)
    (run : stateMachine crypto files p cp reply replyCmd = .ok o) : OnlyPairing p cp reply o := by
  refine ⟨fun other => absurd executes other, fun other => absurd executes other, fun _ => ?_⟩
  obtain ⟨here, cmd⟩ := executes
  simp only [stateMachine, here, commandSwitch, cmd, bind, Except.bind, Bool.false_eq_true,
    if_false] at run
  cases read : cfConfigSetFromStr p.config cp.payload cp.payloadLength with
  | error f => simp [read] at run
  | ok config =>
    simp only [read, cfConfigWrite_eq, savePaired_eq, Except.ok.injEq] at run
    subst run
    exact ⟨rfl, rfl⟩

end

theorem unpaired_onlyPairing (crypto : Crypto) (files : FileAccess) (p : Party)
    (cp reply : ChatPacket) (replyCmd : Command) (unpaired : p.pair.state ≠ .paired) :
    (∀ o, stateMachine crypto files p cp reply replyCmd = .ok o → OnlyPairing p cp reply o) ∧
      (¬ Executes p cp .configGet → ¬ Executes p cp .configSet →
        ∃ o, stateMachine crypto files p cp reply replyCmd = .ok o) := by
  cases elsewhere : misaddressed p.config cp with
  | true =>
    have run : stateMachine crypto files p cp reply replyCmd =
        .ok ⟨p, reply, replyCmd, .invaildDest⟩ := by simp [stateMachine, elsewhere]
    refine ⟨fun o ran => ?_, fun _ _ => ⟨_, run⟩⟩
    cases run.symm.trans ran
    exact misaddressed_onlyPairing unpaired _
  | false =>
    by_cases get : cp.cmd = .configGet
    · exact ⟨fun o => configGet_onlyPairing unpaired ⟨elsewhere, get⟩,
        fun notGet => absurd ⟨elsewhere, get⟩ notGet⟩
    by_cases set : cp.cmd = .configSet
    · exact ⟨fun o => configSet_onlyPairing ⟨elsewhere, set⟩,
        fun _ notSet => absurd ⟨elsewhere, set⟩ notSet⟩
    have run : stateMachine crypto files p cp reply replyCmd = _ := stateMachine_pair elsewhere get set
    refine ⟨fun o ran => ?_, fun _ _ => ⟨_, run⟩⟩
    cases run.symm.trans ran
    exact pairSwitch_onlyPairing unpaired _

/-- The rule without the exception for the two commands and for hasPairs. -/
def ConfigKept (crypto : Crypto) (p : Party) (cp : ChatPacket) : Prop :=
  ∀ files random replyCmd o,
    stateMachine crypto files p cp (chatPacketInit0 random) replyCmd = .ok o →
    o.party.config = p.config ∧ o.party.configFile = p.configFile ∧
      o.reply.payload ≠ some (configString p.config)

def stranger (state : PairState) : Party :=
  ⟨default, { (default : ChatFabricPairing) with state := state }, none, none⟩

def setDebug : ChatPacket :=
  { chatPacketInit0 default with
    cmd := .configSet
    payload := some [CfTag.debug.toByte, 0, 0, 0, 1]
    payloadLength := 5 }

theorem unpaired_onlyPairing_nonceAck :
    ∃ o, stateMachine default ⟨true, true⟩ (stranger .nonceSetup)
      { chatPacketInit0 default with cmd := .nonceAck } (chatPacketInit0 default) .sendReplyFalse =
        .ok o ∧ o.party.pair.state = .paired ∧
      o.party.config = { (stranger .nonceSetup).config with hasPairs := 1 } ∧
      o.party.configFile = none ∧ SamePayload (chatPacketInit0 default) o.reply := by
  obtain ⟨only, returns⟩ := unpaired_onlyPairing default ⟨true, true⟩ (stranger .nonceSetup)
    { chatPacketInit0 default with cmd := .nonceAck } (chatPacketInit0 default) .sendReplyFalse
    (by decide)
  have notGet : ¬ Executes (stranger .nonceSetup)
      { chatPacketInit0 default with cmd := .nonceAck } .configGet := fun h => by cases h.2
  have notSet : ¬ Executes (stranger .nonceSetup)
      { chatPacketInit0 default with cmd := .nonceAck } .configSet := fun h => by cases h.2
  obtain ⟨o, run⟩ := returns notGet notSet
  have entered : o.party.pair.state = .paired := by
    have state : (stateMachine default ⟨true, true⟩ (stranger .nonceSetup)
        { chatPacketInit0 default with cmd := .nonceAck } (chatPacketInit0 default)
        .sendReplyFalse).map (fun o => o.party.pair.state) = .ok .paired := by decide +kernel
    simpa [run, Except.map] using state
  have kept := only o run
  exact ⟨o, run, entered, (kept.config notSet).trans (if_pos entered), kept.configFile notSet,
    kept.payload notGet⟩

theorem stranger_not_configKept :
    ¬ ConfigKept default (stranger .unconfigured) setDebug ∧
      ¬ ConfigKept default (stranger .unconfigured)
        { chatPacketInit0 default with cmd := .configGet } ∧
      ¬ ConfigKept default (stranger .nonceSetup)
        { chatPacketInit0 default with cmd := .nonceAck } := by
  have changes {p : Party} {cp : ChatPacket}
      (result : (stateMachine default ⟨true, true⟩ p cp (chatPacketInit0 default)
        .sendReplyFalse).map (fun o => decide (o.party.config = p.config ∧
          o.party.configFile = p.configFile ∧ o.reply.payload ≠ some (configString p.config))) =
        .ok false) : ¬ ConfigKept default p cp := by
    intro kept
    cases run : stateMachine default ⟨true, true⟩ p cp (chatPacketInit0 default) .sendReplyFalse with
    | error f => simp [run, Except.map] at result
    | ok o =>
      simp only [run, Except.map, Except.ok.injEq, decide_eq_false_iff_not] at result
      exact result (kept _ _ _ o run)
  exact ⟨changes (by decide +kernel), changes (by decide +kernel), changes (by decide +kernel)⟩

end ConfigAccess
