import ChatFabric.DecodeRuns
import ChatFabric.DeviceSteps

/- What a paired device lets a datagram change. The decoder takes the same fields inside an
   encrypted section and outside of one, and nobody asks where they came from; so this is a
   question of the fields alone. -/
namespace Authentication
open ByteStrings ChatFabric

variable {crypto : Crypto} {w : World} {p : Party} {cp : ChatPacket} {b : MsgBuffer}

/-- The commands a paired device answers with a DATA packet, which takes a new serial. -/
def answered (cp : ChatPacket) : Prop :=
  cp.cmd = .configGet ∨ cp.cmd = .configSet ∨ cp.cmd = .appList ∨
    (cp.cmd = .appMessage ∧ cp.flags = Command.sendReplyTrue.toCode)

/-- The packets that change something of a paired device: the uuid of its peer, its serial
    (and with it, perhaps, the config and its file), or a control. -/
inductive Touches (p : Party) (cp : ChatPacket) : Prop where
  | renames (cmd : cp.cmd = .pairRequest) (other : cp.fromUuid ≠ p.pair.uuid)
  | answers (here : cp.toUuid = p.config.uuid) (cmd : answered cp)
  | sets (cmd : appCommand cp.cmd) (control : ∃ c ∈ p.config.controlers, Sets cp c)

theorem here_of_toUuid (same : cp.toUuid = p.config.uuid) : misaddressed p.config cp = false := by
  simp [misaddressed, same]

theorem toUuid_of_here (here : misaddressed p.config cp = false) (notHello : cp.cmd ≠ .hello)
    (notAck : cp.cmd ≠ .helloAck) (notRequest : cp.cmd ≠ .pairRequest) :
    cp.toUuid = p.config.uuid := by
  simpa [misaddressed, notHello, notAck, notRequest] using here

theorem pairSwitch_paired {config : ChatFabricConfig} {pair : ChatFabricPairing}
    {reply : ChatPacket} (paired : pair.state = .paired) :
    (pairSwitch crypto config cp pair reply).pair =
        { pair with uuid := if cp.cmd = .pairRequest then cp.fromUuid else pair.uuid } ∧
      ((pairSwitch crypto config cp pair reply).retval = .sendReplyTrue →
        replyPacketType (pairSwitch crypto config cp pair reply).reply.cmd =
          if cp.cmd = .appMessage ∨ cp.cmd = .appList then .data else .command) := by
  obtain ⟨hasPublicKey, hasNonce, serial, state, uuid, publickey, sharedkey, nullnonce, nonce,
    mynonce⟩ := pair
  simp only at paired
  subst paired
  cases cmd : cp.cmd with
  | _ => simp [pairSwitch, cmd, publickeyRequest, verifiable, replyPacketType]

theorem pairSwitch_retval {config : ChatFabricConfig} {pair : ChatFabricPairing}
    {reply : ChatPacket} (paired : pair.state = .paired)
    (app : cp.cmd = .appMessage ∨ cp.cmd = .appList) :
    (pairSwitch crypto config cp pair reply).retval = .sendReplyTrue ↔ answered cp := by
  rcases app with cmd | cmd
  · by_cases flags : cp.flags = Command.sendReplyTrue.toCode <;>
      simp [pairSwitch, cmd, paired, answered, flags]
  · simp [pairSwitch, cmd, paired, answered]

structure PairedOutcome (p : Party) (cp : ChatPacket) (o : Outcome) : Prop where
  party : o.party =
    { p with pair.uuid := if cp.cmd = .pairRequest then cp.fromUuid else p.pair.uuid }
  type : o.replyCmd = .sendReplyTrue → replyPacketType o.reply.cmd =
    if cp.cmd = .appMessage ∨ cp.cmd = .appList then .data else .command
  answers : cp.cmd = .appMessage ∨ cp.cmd = .appList → (o.replyCmd = .sendReplyTrue ↔ answered cp)

theorem stateMachine_paired (paired : p.pair.state = .paired)
    (here : misaddressed p.config cp = false) (notGet : cp.cmd ≠ .configGet)
    (notSet : cp.cmd ≠ .configSet) :
    ∃ o, stateMachine crypto w.files p cp (chatPacketInit0 w.replyRandom) w.replyCmd = .ok o ∧
      PairedOutcome p cp o := by
  refine ⟨_, stateMachine_pair here notGet notSet, ?_, (pairSwitch_paired paired).2,
    pairSwitch_retval paired⟩
  simp only [(pairSwitch_paired paired).1]
  exact saved_unchanged rfl

theorem handlePacket_unchanged {o : Outcome}
    (ran : stateMachine crypto w.files p cp (chatPacketInit0 w.replyRandom) w.replyCmd = .ok o)
    (same : o.party = p)
    (unset : appCommand cp.cmd → ¬ ∃ c ∈ p.config.controlers, Sets cp c)
    (command : o.replyCmd = .sendReplyTrue → replyPacketType o.reply.cmd = .command) :
    ∃ done, handlePacket crypto (some deviceCallBack) w p cp b = .ok done ∧ done.party = p := by
  have called := runCallback_device cp o
  obtain ⟨msg, sent⟩ := sendReply_command crypto
    (o := runCallback (some deviceCallBack) cp o) (by rw [called.replyCmd, called.cmd]; exact command)
  refine ⟨_, handlePacket_of ran sent, ?_⟩
  exact (called.unset (by rw [same]; exact unset)).trans same

theorem untouched (paired : p.pair.state = .paired) (untouched : ¬ Touches p cp) :
    ∃ done, handlePacket crypto (some deviceCallBack) w p cp b = .ok done ∧ done.party = p := by
  have unset : appCommand cp.cmd → ¬ ∃ c ∈ p.config.controlers, Sets cp c :=
    fun app control => untouched (.sets app control)
  cases elsewhere : misaddressed p.config cp with
  | true =>
    exact handlePacket_unchanged (stateMachine_elsewhere _ _ _ _ elsewhere) rfl unset fun _ => rfl
  | false =>
    have toUuid := toUuid_of_here elsewhere
    have notGet : cp.cmd ≠ .configGet := fun get =>
      untouched (.answers (by simp [toUuid, get]) (.inl get))
    have notSet : cp.cmd ≠ .configSet := fun set =>
      untouched (.answers (by simp [toUuid, set]) (.inr (.inl set)))
    obtain ⟨o, ran, outcome⟩ := stateMachine_paired paired elsewhere notGet notSet
    refine handlePacket_unchanged ran ?_ unset fun answers => ?_
    · have kept : (if cp.cmd = .pairRequest then cp.fromUuid else p.pair.uuid) = p.pair.uuid := by
        split
        · rename_i cmd
          by_contra other
          exact untouched (.renames cmd other)
        · rfl
      rw [outcome.party, kept]
    · rw [outcome.type answers, if_neg]
      intro app
      have here : cp.toUuid = p.config.uuid := by rcases app with cmd | cmd <;> simp [toUuid, cmd]
      exact untouched (.answers here ((outcome.answers app).mp answers))

theorem stateMachine_answered {o : Outcome} (paired : p.pair.state = .paired)
    (here : cp.toUuid = p.config.uuid) (cmd : answered cp)
    (ran : stateMachine crypto w.files p cp (chatPacketInit0 w.replyRandom) w.replyCmd = .ok o) :
    o.party.pair = p.pair ∧ o.replyCmd = .sendReplyTrue ∧ replyPacketType o.reply.cmd = .data := by
  rcases stateMachine_cases ran with ⟨elsewhere, _⟩ | ⟨_, handled, switched, same⟩
  · simp [here_of_toUuid here] at elsewhere
  cases commandSwitch_commanded switched with
  | get =>
    rw [same]
    exact ⟨saved_pair .., rfl, rfl⟩
  | set =>
    rw [same]
    exact ⟨saved_pair .., rfl, rfl⟩
  | pair notGet notSet =>
    have app : cp.cmd = .appMessage ∨ cp.cmd = .appList := by
      rcases cmd with cmd | cmd | cmd | cmd
      · exact absurd cmd notGet
      · exact absurd cmd notSet
      · exact .inr cmd
      · exact .inl cmd.1
    obtain ⟨expected, ran', outcome⟩ := stateMachine_paired paired (here_of_toUuid here) notGet notSet
    cases ran'.symm.trans ran
    have answers := (outcome.answers app).mpr cmd
    refine ⟨?_, answers, by rw [outcome.type answers, if_pos app]⟩
    have notRequest : cp.cmd ≠ .pairRequest := by rcases app with cmd | cmd <;> simp [cmd]
    rw [outcome.party, if_neg notRequest]

theorem serial_moves (serial : UInt32) : serial + 1 ≠ serial := by
  intro same
  have numbers := congrArg UInt32.toNat same
  have bound := serial.toNat_lt
  simp only [UInt32.toNat_add, UInt32.reduceToNat] at numbers
  omega

theorem touched {done : DeviceDone} (paired : p.pair.state = .paired) (touches : Touches p cp)
    (run : handlePacket crypto (some deviceCallBack) w p cp b = .ok done) : done.party ≠ p := by
  obtain ⟨o, sent, ran, replied, rfl⟩ := handlePacket_ok run
  have back := runCallback_device cp o
  have sends := sendReply_sends replied
  change sent.1 ≠ p
  intro same
  cases touches with
  | renames cmd other =>
    obtain ⟨expected, ran', outcome⟩ := stateMachine_paired paired
      (by simp [misaddressed, cmd] : misaddressed p.config cp = false) (by simp [cmd]) (by simp [cmd])
    cases ran'.symm.trans ran
    have uuid := sends.uuid
    rw [same, back.pair, outcome.party, if_pos cmd] at uuid
    exact other uuid.symm
  | answers here cmd =>
    obtain ⟨pair, answers, data⟩ := stateMachine_answered paired here cmd ran
    rw [← back.replyCmd] at answers
    rw [← back.cmd] at data
    cases sends with
    | nothing silent => exact silent answers
    | plain _ other => exact other data
    | data _ _ msg =>
      have serial := congrArg (·.pair.serial) same
      simp only [back.pair, pair] at serial
      exact serial_moves _ serial
  | sets cmd control =>
    obtain ⟨o', ran', kept⟩ :=
      stateMachine_app crypto w.files p (chatPacketInit0 w.replyRandom) w.replyCmd cmd
    cases ran'.symm.trans ran
    have runs : callbackRuns (some deviceCallBack) o.party.pair cp = true := by
      simp [callbackRuns, kept, paired, cmd]
    have config := sends.config
    rw [same] at config
    have controlers := back.controlers runs
    rw [← config, kept] at controlers
    exact (controls_eq_iff cp p.config.controlers).mp controlers.symm control

/-- Nothing of a paired device changes exactly when the datagram decodes to a packet that
    touches nothing, in whatever section its fields were. -/
theorem unchanged_iff (crypto : Crypto) (w : World) (p : Party) (b : MsgBuffer) (datagram : Bytes)
    (paired : p.pair.state = .paired) :
    (∃ done, chatFabricDevice crypto (some deviceCallBack) w p b datagram = .ok done ∧
        done.party = p) ↔
      ∃ cp received, receivePacket crypto w p.pair { b with length := 0 } datagram =
        .ok (cp, received) ∧ ¬ Touches p cp := by
  constructor
  · rintro ⟨done, run, same⟩
    obtain ⟨cp, received, decoded, handled⟩ := chatFabricDevice_ok_iff.mp run
    exact ⟨cp, received, decoded, fun touches => touched paired touches handled same⟩
  · rintro ⟨cp, received, decoded, quiet⟩
    obtain ⟨done, handled, same⟩ : ∃ done,
        handlePacket crypto (some deviceCallBack) w p cp received = .ok done ∧ done.party = p :=
      untouched paired quiet
    exact ⟨done, chatFabricDevice_ok_iff.mpr ⟨cp, received, decoded, handled⟩, same⟩

/-- No section of the string, at any depth, verifies. -/
def Unauthenticated (env : DecodeEnv) (cp : ChatPacket) (b : Bytes) (len : Nat) : Prop :=
  ∀ fuel x, Visits env fuel cp 0 b len x →
    ∀ t decrypted, x.opened env ≠ some (.ok (.section t decrypted))

def OpensSection (c : TagCase) : Prop := c = .encryptedEnvelope ∨ c = .encryptedPayload

theorem padding_noSection (size : Nat) (store : Bytes → Decoding → Except Fault Decoding) :
    ¬ OpensSection (.padding size store) := by
  unfold TagCase.padding
  split <;> simp [OpensSection]

theorem ofControl_noSection (s : Decoding) {copy : CfControl → TagCase}
    (each : ∀ c, ¬ OpensSection (copy c)) : ¬ OpensSection (.ofControl s copy) := by
  unfold TagCase.ofControl
  split
  · exact each _
  · simp [OpensSection]

theorem tagCase_section {env : DecodeEnv} {s : Decoding} {t : Tag}
    (opens : OpensSection (tagCase env s t)) : t = .encryptedEnvelope ∨ t = .encryptedPayload := by
  by_contra other
  cases t with
  | encryptedEnvelope | encryptedPayload => simp at other
  | envelopeRandomPaddingHigh | envelopeRandomPaddingLow | payloadRandomPaddingHigh
  | payloadRandomPaddingLow => exact padding_noSection _ _ opens
  | appControlLabel =>
    refine ofControl_noSection s (fun c => ?_) opens
    simp only
    split <;> simp [OpensSection]
  | appControlData => exact ofControl_noSection s (fun c => by simp [OpensSection]) opens
  | _ => simp [OpensSection, tagCase, TagCase.field, TagCase.controlField] at opens

theorem opened_tag {env : DecodeEnv} {x : Iteration} {o : Except Fault Opened}
    (opened : x.opened env = some o) :
    Tag.encryptedEnvelope.toByte ∈ x.b ∨ Tag.encryptedPayload.toByte ∈ x.b := by
  have opens : ∃ c, x.b[x.s.i]? = some c ∧ OpensSection (byteCase env x.afterTag c) := by
    simp only [Iteration.opened, Iteration.case] at opened
    cases here : x.b[x.s.i]? with
    | none => simp [here] at opened
    | some c =>
      refine ⟨c, rfl, ?_⟩
      simp only [here, Option.map_some] at opened
      split at opened
      · rename_i known
        exact .inl (Option.some.inj known)
      · rename_i known
        exact .inr (Option.some.inj known)
      · cases opened
  obtain ⟨c, here, known⟩ := opens
  have member := List.mem_of_getElem? here
  unfold byteCase at known
  cases found : Tag.ofByte c with
  | none => simp [found, OpensSection] at known
  | some t =>
    simp only [found] at known
    rw [Tag.toByte_of_ofByte found] at member
    rcases tagCase_section known with rfl | rfl
    · exact .inl member
    · exact .inr member

theorem opened_of_no_tag {env : DecodeEnv} {cp : ChatPacket} {allocs : Nat} {b : Bytes} {len fuel : Nat}
    {x : Iteration} (noEnvelope : Tag.encryptedEnvelope.toByte ∉ b)
    (noPayload : Tag.encryptedPayload.toByte ∉ b) (visit : Visits env fuel cp allocs b len x) :
    x.opened env = none := by
  have same : x.b = b := by
    cases visit with
    | here => rfl
    | inside _ _ enter => exact absurd (opened_tag enter) (by simp [noEnvelope, noPayload])
  cases opened : x.opened env with
  | none => rfl
  | some o =>
    rw [← same] at noEnvelope noPayload
    exact absurd (opened_tag opened) (by simp [noEnvelope, noPayload])

theorem unauthenticated_of_no_tag {env : DecodeEnv} {cp : ChatPacket} {b : Bytes} {len : Nat}
    (noEnvelope : Tag.encryptedEnvelope.toByte ∉ b) (noPayload : Tag.encryptedPayload.toByte ∉ b) :
    Unauthenticated env cp b len := by
  intro fuel x visit t decrypted
  simp [opened_of_no_tag noEnvelope noPayload visit]

def OnlyAuthenticated (crypto : Crypto) : Prop :=
  ∀ config random configFile pairFile p w b datagram done,
    deviceStart crypto config random configFile pairFile = .ok p → p.pair.state = .paired →
    Unauthenticated (decodeEnv crypto w p.pair) (chatPacketInit0 w.random) (receiveBuffer datagram)
      (min datagram.length bufferSize) →
    chatFabricDevice crypto (some deviceCallBack) w p b datagram = .ok done → done.party = p

def lamp : ChatFabricConfig :=
  { (default : ChatFabricConfig) with
    uuid := ⟨.ofBytes 16 (List.replicate 16 7), .ofBytes 16 (List.replicate 16 8)⟩
    controlers := [⟨0, 1, 0, 0, 1, 0, none, none⟩] }

def world : World :=
  ⟨default, default, fun _ => true, fun _ _ => ⟨0, 0, 0, 0, 0, 0, none, none⟩, ⟨true, true⟩,
    .sendReplyFalse, 100⟩

def pairedLamp : Party where
  config := { lamp with hasPairs := 1 }
  pair := pairReadBack default lamp default (cfPairInit zeroPairing (.zero 8))
  configFile := none
  pairFile := some (pairBytes default)

def clearSet (control : UInt32) : Bytes :=
  Tag.cmd.toByte :: be32 Command.appMessage.toCode ++
  Tag.to0.toByte :: List.replicate 16 7 ++ Tag.to1.toByte :: List.replicate 16 8 ++
  Tag.action.toByte :: be32 actionSet ++ Tag.actionControl.toByte :: be32 control ++
  Tag.actionValue.toByte :: be32 1

def clearPacket (control : UInt32) : ChatPacket :=
  { chatPacketInit0 default with
    cmd := .appMessage
    toUuid := lamp.uuid
    action := actionSet
    actionControl := control
    actionValue := 1 }

theorem unchanged_iff_absent :
    ∃ done, chatFabricDevice default (some deviceCallBack) world pairedLamp default (clearSet 9) =
      .ok done ∧ done.party = pairedLamp := by
  refine (unchanged_iff default world pairedLamp default (clearSet 9) rfl).mpr
    ⟨clearPacket 9, { (default : MsgBuffer) with
        action := actionSet
        actionControl := 9
        actionValue := 1 }, by decide +kernel, ?_⟩
  rintro (⟨cmd, _⟩ | ⟨_, cmd⟩ | ⟨_, c, member, sets⟩)
  · cases cmd
  · simp [answered, clearPacket, Command.toCode, chatPacketInit0] at cmd
  · cases List.mem_singleton.mp member
    exact absurd sets.1 (by decide)

theorem clearSet_not_onlyAuthenticated : ¬ OnlyAuthenticated default := by
  intro only
  have started : deviceStart default lamp (.zero 8) none (some (pairBytes default)) =
      .ok pairedLamp := by
    simp only [deviceStart, cfPairRead_written, bind, Except.bind]
    rfl
  cases run : chatFabricDevice default (some deviceCallBack) world pairedLamp default (clearSet 0) with
  | error halt =>
    have ends : (chatFabricDevice default (some deviceCallBack) world pairedLamp default
      (clearSet 0)).toOption.isSome = true := by decide +kernel
    simp [run, Except.toOption] at ends
  | ok done =>
    have changed : (chatFabricDevice default (some deviceCallBack) world pairedLamp default
      (clearSet 0)).map (fun done => decide (done.party = pairedLamp)) = .ok false := by decide +kernel
    have same := only lamp (.zero 8) none (some (pairBytes default)) pairedLamp world default
      (clearSet 0) done started rfl
      (unauthenticated_of_no_tag (by decide +kernel) (by decide +kernel)) run
    simp [run, Except.map, same] at changed

end Authentication
