import ChatFabric.DeviceSteps

/- Packets for somebody else. stateMachine returns from them without deciding about a
   reply, and what chatFabric_device does next does not ask how stateMachine returned. -/
namespace Destination
open ByteStrings ChatFabric

variable {crypto : Crypto} {callback : Option Callback} {w : World} {p : Party} {cp : ChatPacket}

structure NoEffect (p : Party) (done : DeviceDone) : Prop where
  party : done.party = p
  called : done.called = false
  sent : done.sent = none
  e : done.e = .invaildDest

theorem handlePacket_noEffect_iff (crypto : Crypto) (callback : Option Callback) (w : World)
    (p : Party) (b : MsgBuffer) (elsewhere : misaddressed p.config cp = true) :
    (∃ done, handlePacket crypto callback w p cp b = .ok done ∧ NoEffect p done) ↔
      w.replyCmd ≠ .sendReplyTrue ∧ callbackRuns callback p.pair cp = false := by
  have early := stateMachine_elsewhere crypto w.files (chatPacketInit0 w.replyRandom) w.replyCmd
    elsewhere
  constructor
  · rintro ⟨done, run, effect⟩
    obtain ⟨o, sent, ran, replied, rfl⟩ := handlePacket_ok run
    cases early.symm.trans ran
    have idle := effect.called
    refine ⟨?_, idle⟩
    rw [runCallback_idle _ idle] at replied
    cases sendReply_sends replied with
    | nothing silent => exact silent
    | plain => cases effect.sent
    | data => cases effect.sent
  · rintro ⟨silent, idle⟩
    have replied : sendReply crypto
        ⟨p, chatPacketInit0 w.replyRandom, w.replyCmd, .invaildDest⟩ = .ok (p, none, none) :=
      if_neg silent
    have same : runCallback callback cp
        ⟨p, chatPacketInit0 w.replyRandom, w.replyCmd, .invaildDest⟩ = _ := runCallback_idle _ idle
    rw [← same] at replied
    exact ⟨_, handlePacket_of early replied, rfl, idle, rfl, rfl⟩

/-- A packet for somebody else has no effect exactly when the variable replyCmd does not
    happen to ask for a reply and the callback does not run. -/
theorem noEffect_iff (crypto : Crypto) (callback : Option Callback) (w : World) (p : Party)
    (b received : MsgBuffer) (datagram : Bytes) (cp : ChatPacket)
    (decoded : receivePacket crypto w p.pair { b with length := 0 } datagram = .ok (cp, received))
    (elsewhere : misaddressed p.config cp = true) :
    (∃ done, chatFabricDevice crypto callback w p b datagram = .ok done ∧ NoEffect p done) ↔
      w.replyCmd ≠ .sendReplyTrue ∧ callbackRuns callback p.pair cp = false := by
  rw [← handlePacket_noEffect_iff crypto callback w p received elsewhere]
  have device : chatFabricDevice crypto callback w p b datagram =
      checked (handlePacket crypto callback w p cp received) := by
    simp only [chatFabricDevice, decoded, bind, Except.bind]
  rw [device]
  cases handlePacket crypto callback w p cp received <;> simp [checked, Except.mapError]

def quiet (replyCmd : Command) : World :=
  ⟨default, default, fun _ => true, fun _ _ => ⟨0, 0, 0, 0, 0, 0, none, none⟩, ⟨true, true⟩,
    replyCmd, 100⟩

def device (state : PairState) : Party where
  config := { (default : ChatFabricConfig) with controlers := [⟨0, 1, 0, 0, 1, 0, none, none⟩] }
  pair := { (default : ChatFabricPairing) with state := state }
  configFile := none
  pairFile := none

def misdirected (cmd : Command) : Bytes :=
  Tag.cmd.toByte :: be32 cmd.toCode ++ Tag.to0.toByte :: 1 :: List.replicate 15 0

theorem noEffect_iff_verifySyn :
    ∃ done, chatFabricDevice default (some deviceCallBack) (quiet .sendReplyFalse)
      (device .unconfigured) default (misdirected .verifySyn) = .ok done ∧
        NoEffect (device .unconfigured) done :=
  (noEffect_iff _ _ _ _ _ default _
    { chatPacketInit0 default with
      cmd := .verifySyn
      toUuid := ⟨.ofBytes 16 [1], .zero 16⟩ }
    (by decide +kernel) (by decide +kernel)).mpr (by decide +kernel)

/-- A leftover replyCmd sends an answer, and an application command runs the callback. -/
theorem misdirected_not_noEffect :
    (¬ ∃ done, chatFabricDevice default (some deviceCallBack) (quiet .sendReplyTrue)
        (device .unconfigured) default (misdirected .verifySyn) = .ok done ∧
          NoEffect (device .unconfigured) done) ∧
      ¬ ∃ done, chatFabricDevice default (some deviceCallBack) (quiet .sendReplyFalse)
        (device .paired) default (misdirected .appMessage) = .ok done ∧
          NoEffect (device .paired) done := by
  constructor
  · rintro ⟨done, run, effect⟩
    have sent : (chatFabricDevice default (some deviceCallBack) (quiet .sendReplyTrue)
        (device .unconfigured) default (misdirected .verifySyn)).map (·.sent.isSome) = .ok true := by
      decide +kernel
    simp [run, Except.map, effect.sent] at sent
  · rintro ⟨done, run, effect⟩
    have called : (chatFabricDevice default (some deviceCallBack) (quiet .sendReplyFalse)
        (device .paired) default (misdirected .appMessage)).map (·.called) = .ok true := by
      decide +kernel
    simp [run, Except.map, effect.called] at called

end Destination
