import ChatFabric.DeviceSteps

/- A datagram that does not decode. The device goes on with what was decoded of it, under
   another command; neither the state machine nor the callback does anything with that. -/
namespace DecodeFailure
open ByteStrings ChatFabric

variable {crypto : Crypto} {callback : Option Callback} {w : World} {p : Party} {cp : ChatPacket}

theorem stateMachine_failed (crypto : Crypto) (files : FileAccess) (p : Party) (reply : ChatPacket)
    (replyCmd : Command) (failed : cp.cmd = .packetDecryptFailed)
    (command : replyPacketType reply.cmd = .command) :
    ∃ o, stateMachine crypto files p cp reply replyCmd = .ok o ∧ o.party = p ∧
      replyPacketType o.reply.cmd = .command := by
  cases elsewhere : misaddressed p.config cp with
  | true => exact ⟨_, stateMachine_elsewhere crypto files reply replyCmd elsewhere, rfl, command⟩
  | false =>
    have run : stateMachine crypto files p cp reply replyCmd = _ :=
      stateMachine_pair elsewhere (by simp [failed]) (by simp [failed])
    refine ⟨_, run, ?_, ?_⟩
    · simp only [pairSwitch, failed]
      exact saved_unchanged rfl
    · simp only [pairSwitch, failed]
      rfl

theorem callbackRuns_failed (callback : Option Callback) (pair : ChatFabricPairing)
    (failed : cp.cmd = .packetDecryptFailed) : callbackRuns callback pair cp = false := by
  simp [callbackRuns, appCommand, failed]

structure Harmless (p : Party) (done : DeviceDone) : Prop where
  party : done.party = p
  delivered : done.buffer.length = 0
  called : done.called = false

theorem handlePacket_failed (crypto : Crypto) (callback : Option Callback) (w : World) (p : Party)
    (cp : ChatPacket) (b : MsgBuffer) (failed : cp.cmd = .packetDecryptFailed) (empty : b.length = 0) :
    ∃ done, handlePacket crypto callback w p cp b = .ok done ∧ Harmless p done := by
  obtain ⟨o, ran, same, command⟩ := stateMachine_failed crypto w.files p
    (chatPacketInit0 w.replyRandom) w.replyCmd failed rfl
  have idle := callbackRuns_failed callback o.party.pair failed
  obtain ⟨msg, sent⟩ := sendReply_command crypto (o := o) fun _ => command
  rw [← runCallback_idle o idle] at sent
  refine ⟨_, handlePacket_of ran sent, ?_, empty, idle⟩
  rw [runCallback_idle o idle, same]

/-- Whatever was decoded before the error: the call completes, and is harmless. -/
theorem failed_harmless (crypto : Crypto) (callback : Option Callback) (w : World) (p : Party)
    (b : MsgBuffer) (datagram : Bytes) (cp : ChatPacket) (allocs : Nat)
    (failed : chatPacketDecode (decodeEnv crypto w p.pair) w.fuel (chatPacketInit0 w.random) 0
      (receiveBuffer datagram) (min datagram.length bufferSize) = .returned (-1) cp allocs) :
    ∃ done, chatFabricDevice crypto callback w p b datagram = .ok done ∧ Harmless p done := by
  have received : receivePacket crypto w p.pair { b with length := 0 } datagram =
      .ok ({ cp with cmd := .packetDecryptFailed }, { b with length := 0 }) := by
    simp [receivePacket, failed]
  obtain ⟨done, handled, harmless⟩ := handlePacket_failed crypto callback w p
    { cp with cmd := .packetDecryptFailed } { b with length := 0 } rfl rfl
  exact ⟨done, chatFabricDevice_ok_iff.mpr ⟨_, _, received, handled⟩, harmless⟩

def quietWorld : World :=
  ⟨default, default, fun _ => true, fun _ _ => ⟨0, 0, 0, 0, 0, 0, none, none⟩, ⟨true, true⟩,
    .sendReplyTrue, 20⟩

def listening : Party := ⟨default, { (default : ChatFabricPairing) with state := .paired }, none, none⟩

/-- A command that would list the controls, and then a byte that is no tag. -/
def cutShort : Bytes := Tag.cmd.toByte :: be32 Command.appList.toCode ++ [0]

theorem failed_harmless_cutShort :
    ∃ done, chatFabricDevice default (some deviceCallBack) quietWorld listening default cutShort =
      .ok done ∧ Harmless listening done :=
  failed_harmless default (some deviceCallBack) quietWorld listening default cutShort
    { chatPacketInit0 default with cmd := .appList } 0 (by decide +kernel)

end DecodeFailure
