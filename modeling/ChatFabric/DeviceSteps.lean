import ChatFabric.Device
import ChatFabric.EncodeLengths
import ChatFabric.PairSteps

/- One lemma for each stage of chatFabric_device: what the state machine, the callback and
   the encoder of the reply make of the party. -/
namespace ChatFabric
open ByteStrings

variable {crypto : Crypto} {callback : Option Callback} {w : World} {p : Party} {cp : ChatPacket}

theorem handlePacket_ok {b : MsgBuffer} {done : DeviceDone}
    (run : handlePacket crypto callback w p cp b = .ok done) :
    ∃ o sent, stateMachine crypto w.files p cp (chatPacketInit0 w.replyRandom) w.replyCmd = .ok o ∧
      sendReply crypto (runCallback callback cp o) = .ok sent ∧
      done = ⟨sent.1, b, sent.2.1, sent.2.2, callbackRuns callback o.party.pair cp, o.e⟩ := by
  simp only [handlePacket, bind, Except.bind] at run
  split at run
  · cases run
  · rename_i o ran
    split at run
    · cases run
    · rename_i sent replied
      exact ⟨o, sent, ran, replied, (Except.ok.inj run).symm⟩

theorem handlePacket_of {b : MsgBuffer} {o : Outcome}
    {sent : Party × Option Bytes × Option (Block 32 × Block 8)}
    (ran : stateMachine crypto w.files p cp (chatPacketInit0 w.replyRandom) w.replyCmd = .ok o)
    (replied : sendReply crypto (runCallback callback cp o) = .ok sent) :
    handlePacket crypto callback w p cp b =
      .ok ⟨sent.1, b, sent.2.1, sent.2.2, callbackRuns callback o.party.pair cp, o.e⟩ := by
  simp only [handlePacket, ran, replied, bind, Except.bind]

theorem stateMachine_elsewhere (crypto : Crypto) (files : FileAccess) (reply : ChatPacket)
    (replyCmd : Command) (elsewhere : misaddressed p.config cp = true) :
    stateMachine crypto files p cp reply replyCmd = .ok ⟨p, reply, replyCmd, .invaildDest⟩ := by
  simp [stateMachine, elsewhere]

theorem pairSwitch_app (crypto : Crypto) (config : ChatFabricConfig) (pair : ChatFabricPairing)
    (reply : ChatPacket) (app : appCommand cp.cmd) :
    (pairSwitch crypto config cp pair reply).pair = pair := by
  have cmd : cp.cmd = .appMessage ∨ cp.cmd = .appMessageAck ∨ cp.cmd = .appList ∨
      cp.cmd = .appListAck := by simpa [appCommand] using app
  rcases cmd with cmd | cmd | cmd | cmd <;> simp only [pairSwitch, cmd] <;> split <;> rfl

theorem appCommand_config (app : appCommand cp.cmd) : cp.cmd ≠ .configGet ∧ cp.cmd ≠ .configSet := by
  constructor <;> intro cmd <;> simp [appCommand, cmd] at app

theorem stateMachine_app (crypto : Crypto) (files : FileAccess) (p : Party) (reply : ChatPacket)
    (replyCmd : Command) (app : appCommand cp.cmd) :
    ∃ o, stateMachine crypto files p cp reply replyCmd = .ok o ∧ o.party = p := by
  obtain ⟨notGet, notSet⟩ := appCommand_config app
  cases elsewhere : misaddressed p.config cp with
  | true => exact ⟨_, stateMachine_elsewhere _ _ _ _ elsewhere, rfl⟩
  | false =>
    refine ⟨_, stateMachine_pair elsewhere notGet notSet, ?_⟩
    simp only [pairSwitch_app crypto p.config p.pair _ app]
    exact saved_unchanged rfl

theorem chatFabricDevice_ok_iff {b : MsgBuffer} {datagram : Bytes} {done : DeviceDone} :
    chatFabricDevice crypto callback w p b datagram = .ok done ↔
      ∃ cp received, receivePacket crypto w p.pair { b with length := 0 } datagram =
          .ok (cp, received) ∧ handlePacket crypto callback w p cp received = .ok done := by
  simp only [chatFabricDevice, bind, Except.bind]
  cases decoded : receivePacket crypto w p.pair { b with length := 0 } datagram with
  | error halt => simp
  | ok received =>
    obtain ⟨cp, buffer⟩ := received
    simp only [Except.ok.injEq, Prod.mk.injEq]
    constructor
    · intro run
      refine ⟨cp, buffer, ⟨rfl, rfl⟩, ?_⟩
      cases handled : handlePacket crypto callback w p cp buffer with
      | error f => simp [checked, handled, Except.mapError] at run
      | ok done' => simpa [checked, handled, Except.mapError] using run
    · rintro ⟨cp', buffer', ⟨rfl, rfl⟩, handled⟩
      simp [checked, handled, Except.mapError]

def Sets (cp : ChatPacket) (c : CfControl) : Prop :=
  c.control = cp.actionControl ∧ cp.action = actionSet ∧ c.value ≠ cp.actionValue

theorem setValue_eq_iff (cp : ChatPacket) (c : CfControl) : setValue cp c = c ↔ ¬ Sets cp c := by
  obtain ⟨control, type, value, rangeLow, rangeHigh, labelLength, label, data⟩ := c
  simp only [setValue, Sets]
  split
  · rename_i hit
    simp [hit, eq_comm]
  · rename_i miss
    simp only [true_iff]
    rintro ⟨one, two, _⟩
    exact miss ⟨one, two⟩

theorem controls_eq_iff (cp : ChatPacket) (controls : List CfControl) :
    controls.map (setValue cp) = controls ↔ ¬ ∃ c ∈ controls, Sets cp c := by
  induction controls with
  | nil => simp
  | cons c rest ih => simp [ih, setValue_eq_iff]

theorem deviceCallBackLoop_controls (cp : ChatPacket) (controls : List CfControl)
    (reply : ChatPacket) :
    (deviceCallBackLoop cp controls reply).1 = controls.map (setValue cp) := by
  induction controls generalizing reply with
  | nil => rfl
  | cons c rest ih => simp [deviceCallBackLoop, ih]

theorem deviceCallBackLoop_cmd (controls : List CfControl) (reply : ChatPacket) :
    (deviceCallBackLoop cp controls reply).2.cmd = reply.cmd := by
  induction controls generalizing reply with
  | nil => rfl
  | cons c rest ih =>
    refine (ih _).trans ?_
    unfold readValue
    split <;> rfl

theorem runCallback_idle (o : Outcome) (idle : callbackRuns callback o.party.pair cp = false) :
    runCallback callback cp o = o := by
  unfold runCallback
  split
  · rfl
  · rw [if_neg (by simp [idle])]

/-- After the callback of the device: of the party it changes the controls alone, and of the
    reply neither whether it is sent nor what it is. -/
structure CalledBack (cp : ChatPacket) (o called : Outcome) : Prop where
  party : called.party =
    if callbackRuns (some deviceCallBack) o.party.pair cp then
      { o.party with config.controlers := o.party.config.controlers.map (setValue cp) }
    else o.party
  replyCmd : called.replyCmd = o.replyCmd
  cmd : called.reply.cmd = o.reply.cmd

theorem runCallback_device (cp : ChatPacket) (o : Outcome) :
    CalledBack cp o (runCallback (some deviceCallBack) cp o) := by
  cases runs : callbackRuns (some deviceCallBack) o.party.pair cp with
  | false =>
    rw [runCallback_idle o runs]
    exact ⟨by simp [runs], rfl, rfl⟩
  | true =>
    have called : runCallback (some deviceCallBack) cp o =
        let a := deviceCallBack cp ⟨o.party.config, o.party.pair, o.reply, o.replyCmd⟩
        { o with
          party := { o.party with config := a.config, pair := a.pair }
          reply := a.reply
          replyCmd := a.replyCmd } := by
      simp only [runCallback, runs, if_true]
    rw [called]
    exact ⟨by simp [runs, deviceCallBack, deviceCallBackLoop_controls], rfl,
      deviceCallBackLoop_cmd _ _⟩

namespace CalledBack
variable {o called : Outcome}

theorem pair (back : CalledBack cp o called) : called.party.pair = o.party.pair := by
  rw [back.party]
  split <;> rfl

theorem controlers (back : CalledBack cp o called)
    (runs : callbackRuns (some deviceCallBack) o.party.pair cp = true) :
    called.party.config.controlers = o.party.config.controlers.map (setValue cp) := by
  rw [back.party, if_pos runs]

theorem unset (back : CalledBack cp o called)
    (keeps : appCommand cp.cmd → ¬ ∃ c ∈ o.party.config.controlers, Sets cp c) :
    called.party = o.party := by
  rw [back.party]
  split
  · rename_i runs
    have app : appCommand cp.cmd = true := by
      simp only [callbackRuns, decide_eq_true_eq] at runs
      exact runs.2.2
    rw [(controls_eq_iff cp _).mpr (keeps app)]
  · rfl

end CalledBack

theorem called_controlers {reply : ChatPacket} {replyCmd : Command} {o : Outcome}
    (unlisted : reply.controlers = none)
    (ran : stateMachine crypto w.files p cp reply replyCmd = .ok o) :
    (runCallback (some deviceCallBack) cp o).party.config.controlers =
      if p.pair.state = .paired ∧ appCommand cp.cmd then p.config.controlers.map (setValue cp)
      else p.config.controlers := by
  have back := runCallback_device cp o
  have same := (stateMachine_controlers unlisted ran).1
  split
  · rename_i acts
    obtain ⟨o', ran', kept⟩ := stateMachine_app crypto w.files p reply replyCmd acts.2
    cases ran'.symm.trans ran
    rw [back.controlers (by simp [callbackRuns, kept, acts]), kept]
  · rename_i idle
    rw [back.party, if_neg, same]
    intro runs
    simp only [callbackRuns, decide_eq_true_eq] at runs
    obtain ⟨o', ran', kept⟩ := stateMachine_app crypto w.files p reply replyCmd runs.2.2
    cases ran'.symm.trans ran
    exact idle ⟨by rw [← kept]; exact runs.2.1, runs.2.2⟩

theorem encodeData_pair {reply : ChatPacket} {pair : ChatFabricPairing} {e : Encoded}
    (encoded : encodeData crypto reply pair true = .ok e) :
    e.pair = { pair with serial := pair.serial + 1 } ∧
      e.session = some (pair.sharedkey, chatPacketCalcNonce (pair.serial + 1) pair.nonce) := by
  obtain ⟨_, _, seals⟩ := encodeData_seals encoded
  rw [seals.done]
  exact ⟨rfl, rfl⟩

theorem encode_other {reply : ChatPacket} {pair : ChatFabricPairing} {type : PacketType}
    {encrypted : Bool} {e : Encoded} (other : type ≠ .data)
    (encoded : chatPacketEncode crypto reply pair encrypted type = .ok e) :
    e.pair = pair ∧ e.session = none := by
  cases type with
  | data => exact absurd rfl other
  | command | publickey | nonce =>
    simp only [chatPacketEncode, Except.map] at encoded
    split at encoded <;> cases encoded
    exact ⟨rfl, rfl⟩

/-- Sending touches the record by the serial of a DATA packet, and in no other way. -/
inductive Sends (o : Outcome) : Party × Option Bytes × Option (Block 32 × Block 8) → Prop where
  | nothing (silent : o.replyCmd ≠ .sendReplyTrue) : Sends o (o.party, none, none)
  | plain (answers : o.replyCmd = .sendReplyTrue) (other : replyPacketType o.reply.cmd ≠ .data)
      (msg : Bytes) : Sends o (o.party, some msg, none)
  | data (answers : o.replyCmd = .sendReplyTrue) (data : replyPacketType o.reply.cmd = .data)
      (msg : Bytes) :
      Sends o ({ o.party with pair.serial := o.party.pair.serial + 1 }, some msg,
        some (o.party.pair.sharedkey,
          chatPacketCalcNonce (o.party.pair.serial + 1) o.party.pair.nonce))

theorem Sends.config {o : Outcome} {sent : Party × Option Bytes × Option (Block 32 × Block 8)}
    (sends : Sends o sent) : sent.1.config = o.party.config := by
  cases sends <;> rfl

theorem Sends.uuid {o : Outcome} {sent : Party × Option Bytes × Option (Block 32 × Block 8)}
    (sends : Sends o sent) : sent.1.pair.uuid = o.party.pair.uuid := by
  cases sends <;> rfl

theorem Sends.nonce {o : Outcome} {sent : Party × Option Bytes × Option (Block 32 × Block 8)}
    (sends : Sends o sent) : sent.1.pair.nonce = o.party.pair.nonce := by
  cases sends <;> rfl

theorem Sends.state {o : Outcome} {sent : Party × Option Bytes × Option (Block 32 × Block 8)}
    (sends : Sends o sent) : sent.1.pair.state = o.party.pair.state := by
  cases sends <;> rfl

theorem sendReply_sends {o : Outcome} {sent : Party × Option Bytes × Option (Block 32 × Block 8)}
    (replied : sendReply crypto o = .ok sent) : Sends o sent := by
  unfold sendReply at replied
  split at replied
  · rename_i answers
    simp only [bind, Except.bind] at replied
    split at replied
    · cases replied
    · rename_i e encoded
      cases replied
      by_cases data : replyPacketType o.reply.cmd = .data
      · rw [data] at encoded
        obtain ⟨pair, session⟩ := encodeData_pair encoded
        rw [pair, session]
        exact .data answers data e.msg
      · obtain ⟨pair, session⟩ := encode_other data encoded
        rw [pair, session]
        exact .plain answers data e.msg
  · rename_i silent
    cases replied
    exact .nothing silent

theorem sendReply_command (crypto : Crypto) {o : Outcome}
    (command : o.replyCmd = .sendReplyTrue → replyPacketType o.reply.cmd = .command) :
    ∃ msg, sendReply crypto o = .ok (o.party, msg, none) := by
  unfold sendReply
  split
  · rename_i answers
    refine ⟨some (messageBytes o.reply []), ?_⟩
    simp only [command answers, chatPacketEncode, encodeCommand_eq, Except.map, bind, Except.bind]
  · exact ⟨none, rfl⟩

end ChatFabric
