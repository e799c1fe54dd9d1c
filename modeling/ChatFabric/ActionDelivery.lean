import ChatFabric.Controller
import ChatFabric.PacketRoundTrip

/- What a paired controller makes of an action, and what a paired device that shares its keys
   makes of the datagram: it does not ask whether it has had the datagram before. -/
namespace ActionDelivery
open ByteStrings WhileLoop TagStream ChatFabric PacketRoundTrip

variable {crypto : Crypto} {a : ChatFabricAction} {msg : Option Bytes} {b : MsgBuffer}
  {random : PacketRandom} {cp got : ChatPacket} {e : Encoded} {controller p : Party}

structure Carries (a : ChatFabricAction) (cp : ChatPacket) : Prop where
  cmd : cp.cmd = actionCommand a
  action : cp.action = a.action
  actionControl : cp.action ≠ 0 → cp.actionControl = a.actionControl
  actionValue : cp.action ≠ 0 → cp.actionValue = a.actionValue

theorem encodes_action (paired : controller.pair.state = .paired)
    (encoded : chatFabricController crypto controller a msg b random = .ok e) :
    ∃ cp, Carries a cp ∧ Built cp ∧ ¬ 0 < cp.numOfControllers ∧ (cp.action ≠ 0 → cp.actionLength = 0) ∧
      encodeData crypto cp controller.pair true = .ok e := by
  obtain ⟨cp, made, sent⟩ := chatFabricController_ok paired encoded
  obtain ⟨payload, len, init⟩ := actionPacket_init made
  have built := chatPacketInit_built init
  have tableless := (actionPacket_dataless made).2
  refine ⟨withControllerAction a cp, ⟨?_, rfl, fun _ => rfl, fun _ => rfl⟩, ?_, ?_, ?_, sent⟩
  · obtain ⟨_, _, rfl⟩ := chatPacketInit_init0 init
    rfl
  · exact ⟨built.envelopePadding, built.payloadPadding, built.payload⟩
  · simp [withControllerAction, tableless]
  · intro action
    by_contra length
    have some : 0 < a.actionLength := by
      rw [UInt32.lt_iff_toNat_lt]
      exact Nat.pos_of_ne_zero fun zero => length (UInt32.toNat_inj.mp zero)
    obtain ⟨f, stop⟩ := chatFabricController_dataful crypto paired action some msg b random
    rw [stop] at encoded
    cases encoded

/-- A packet that was encoded is decoded as what was sent, or not at all: one that does not fit
    the buffer of the receiver is cut, and the decoder reads behind it. -/
theorem decodes_sent (env : DecodeEnv) {sender : ChatFabricPairing} (keys : SharesKeys sender env.pair)
    (built : Built cp) (tableless : ¬ 0 < cp.numOfControllers)
    (dataless : cp.action ≠ 0 → cp.actionLength = 0)
    (encoded : encodeData env.crypto cp sender true = .ok e) (random : PacketRandom) :
    ∃ fuel, ((∃ f, chatPacketDecode env fuel (chatPacketInit0 random) 0 (receiveBuffer e.msg)
          (min e.msg.length bufferSize) = .fault f) ∧
        (bufferSize < e.msg.length ∨ ∃ n, env.alloc n = false)) ∨
      ∃ got allocs, chatPacketDecode env fuel (chatPacketInit0 random) 0 (receiveBuffer e.msg)
          (min e.msg.length bufferSize) = .returned 0 got allocs ∧
        Recovered cp sender .data got ∧ got.action = cp.action := by
  obtain ⟨pad, padding⟩ := built.payloadPadding.split
  have sound := sound built tableless dataless padding
  by_cases beyond : 2 ^ 32 ≤ plainSize cp [] + 105
  · rw [encodeData_beyond env.crypto sound (by simp) beyond sender] at encoded
    cases encoded
  have size : plainSize cp [] + 105 < 2 ^ 32 := by omega
  cases (encodeData_sealed sound size env.crypto sender).symm.trans encoded
  by_cases fits : (sealedMessage env.crypto cp sender []).length ≤ bufferSize
  · obtain ⟨fuel, ⟨none, run⟩ | ⟨ret, got, allocs, n, run, ends⟩⟩ :=
      decodes_sealed (received_short _) (received_small _) env sound (frontReadable env tableless dataless) (by simp) size
        keys.sharedkey keys.nonce rfl (ahead_receiveBuffer fits (chatPacketInit0 random) 0)
    · exact ⟨fuel, .inl ⟨⟨_, run⟩, .inr none⟩⟩
    · obtain ⟨rfl, same⟩ := ends
      exact ⟨fuel, .inr ⟨got, allocs, run, content_recovered env random n built tableless dataless same,
        action_recovered env random n tableless dataless same⟩⟩
  · have long : bufferSize < (sealedMessage env.crypto cp sender []).length := by omega
    have length := toNat_sectionLength size
    have fresh : (chatPacketInit0 random).payloadLength = 0 := rfl
    obtain ⟨fuel, f, run⟩ := decodes_cut env fresh length
      (by rw [length_sealBytes, length_plainBytes sound, length]) long
    exact ⟨fuel, .inl ⟨⟨f, run⟩, .inl long⟩⟩

theorem Carries.recovered {sender : ChatFabricPairing} (carries : Carries a cp)
    (recovered : Recovered cp sender .data got) (action : got.action = cp.action) : Carries a got := by
  refine ⟨recovered.cmd.trans carries.cmd, action.trans carries.action, fun some => ?_, fun some => ?_⟩
  · rw [action] at some
    exact (recovered.action rfl some).2.1.trans (carries.actionControl some)
  · rw [action] at some
    exact (recovered.action rfl some).2.2.2.1.trans (carries.actionValue some)

theorem receivePacket_sent {w : World} {buffer received : MsgBuffer}
    (keys : SharesKeys controller.pair p.pair) (paired : controller.pair.state = .paired)
    (encoded : chatFabricController crypto controller a msg b random = .ok e)
    (decoded : receivePacket crypto w p.pair buffer e.msg = .ok (got, received)) : Carries a got := by
  obtain ⟨cp, carries, built, tableless, dataless, sent⟩ := encodes_action paired encoded
  have ends : chatPacketDecode (decodeEnv crypto w p.pair) w.fuel (chatPacketInit0 w.random) 0
      (receiveBuffer e.msg) (min e.msg.length bufferSize) ≠ .endless := by
    intro stuck
    simp [receivePacket, stuck] at decoded
  obtain ⟨fuel, ⟨⟨f, run⟩, _⟩ | ⟨back, allocs, run, recovered, action⟩⟩ :=
    decodes_sent (decodeEnv crypto w p.pair) keys built tableless dataless sent w.random
  · have same := (chatPacketDecode_unique w.fuel run (by simp)).resolve_right ends
    simp [receivePacket, same] at decoded
  · have same := (chatPacketDecode_unique w.fuel run (by simp)).resolve_right ends
    simp only [receivePacket, same, ne_eq, not_true_eq_false, if_false] at decoded
    cases filled : fillPayload w allocs back buffer with
    | error f => simp [filled, checked, Except.mapError, Except.map] at decoded
    | ok buffer' =>
      simp only [filled, checked, Except.mapError, Except.map, Except.ok.injEq, Prod.mk.injEq] at decoded
      rw [← decoded.1]
      exact carries.recovered recovered action

theorem deviceCallBack_keeps (cp : ChatPacket) (args : CallbackArgs) :
    (deviceCallBack cp args).pair = args.pair := rfl

theorem chatFabricDevice_keeps {f : Callback} {w : World} {datagram : Bytes} {done : DeviceDone}
    (keeps : ∀ cp args, (f cp args).pair = args.pair) (paired : p.pair.state = .paired)
    (run : chatFabricDevice crypto (some f) w p b datagram = .ok done) :
    ∃ uuid serial, done.party.pair = { p.pair with uuid := uuid, serial := serial } := by
  obtain ⟨cp, received, _, handled⟩ := chatFabricDevice_ok_iff.mp run
  obtain ⟨o, sent, ran, replied, rfl⟩ := handlePacket_ok handled
  obtain ⟨⟨uuid, pair⟩, _⟩ := stateMachine_keeps paired ran
  have called : (runCallback (some f) cp o).party.pair = o.party.pair := by
    unfold runCallback
    dsimp only
    split
    · exact keeps cp _
    · rfl
  cases sendReply_sends replied with
  | nothing silent => exact ⟨uuid, p.pair.serial, called.trans pair⟩
  | plain answers other msg => exact ⟨uuid, p.pair.serial, called.trans pair⟩
  | data answers data msg => exact ⟨uuid, p.pair.serial + 1, by simp only [called, pair]⟩

theorem chatFabricDevice_controlers {w : World} {datagram : Bytes} {done : DeviceDone}
    (paired : p.pair.state = .paired)
    (run : chatFabricDevice crypto (some deviceCallBack) w p b datagram = .ok done) :
    ∃ cp received, receivePacket crypto w p.pair { b with length := 0 } datagram = .ok (cp, received) ∧
      done.called = appCommand cp.cmd ∧
      done.party.config.controlers =
        if appCommand cp.cmd then p.config.controlers.map (setValue cp) else p.config.controlers := by
  obtain ⟨cp, received, decoded, handled⟩ := chatFabricDevice_ok_iff.mp run
  obtain ⟨o, sent, ran, replied, rfl⟩ := handlePacket_ok handled
  obtain ⟨⟨uuid, pair⟩, _⟩ := stateMachine_keeps paired ran
  refine ⟨cp, received, decoded, by simp [callbackRuns, pair, paired], ?_⟩
  have controlers := called_controlers (by rfl) ran
  simp only [paired, true_and] at controlers
  rw [(sendReply_sends replied).config, controlers]

def applySet (a : ChatFabricAction) (c : CfControl) : CfControl :=
  if c.control = a.actionControl ∧ a.action = actionSet then { c with value := a.actionValue } else c

def Changes (a : ChatFabricAction) (c : CfControl) : Prop :=
  c.control = a.actionControl ∧ a.action = actionSet ∧ c.value ≠ a.actionValue

theorem Carries.setValue (carries : Carries a cp) : setValue cp = applySet a := by
  funext c
  by_cases set : a.action = actionSet
  · have some : cp.action ≠ 0 := by
      rw [carries.action, set]
      decide
    simp only [ChatFabric.setValue, applySet, carries.action, carries.actionControl some,
      carries.actionValue some]
  · simp only [ChatFabric.setValue, applySet, carries.action, set, and_false, if_false]

theorem Carries.sets (carries : Carries a cp) (c : CfControl) : Sets cp c ↔ Changes a c := by
  by_cases set : a.action = actionSet
  · have some : cp.action ≠ 0 := by
      rw [carries.action, set]
      decide
    simp only [Sets, Changes, carries.action, carries.actionControl some, carries.actionValue some]
  · simp only [Sets, Changes, carries.action, set, false_and, and_false]

theorem actionCommand_set (set : a.action = actionSet) : actionCommand a = .appMessage := by
  simp [actionCommand, set, actionSet, actionAppList, actionGetConfig, actionSetConfig]

theorem applySet_other (other : a.action ≠ actionSet) (controls : List CfControl) :
    controls.map (applySet a) = controls := by
  have same : applySet a = id := by
    funext c
    simp [applySet, other]
  rw [same, List.map_id]

section
variable {w : World} {done : DeviceDone} (keys : SharesKeys controller.pair p.pair)
  (ready : controller.pair.state = .paired) (paired : p.pair.state = .paired)
  (encoded : chatFabricController crypto controller a msg b random = .ok e)
include keys ready paired encoded

theorem delivered_controlers {buffer : MsgBuffer}
    (run : chatFabricDevice crypto (some deviceCallBack) w p buffer e.msg = .ok done) :
    done.party.config.controlers = p.config.controlers.map (applySet a) := by
  obtain ⟨cp, received, decoded, _, controlers⟩ := chatFabricDevice_controlers paired run
  have carries := receivePacket_sent keys ready encoded decoded
  rw [controlers, carries.setValue]
  split
  · rfl
  · rename_i idle
    have other : a.action ≠ actionSet := by
      intro set
      exact idle (by simp [appCommand, carries.cmd, actionCommand_set set])
    rw [applySet_other other]

theorem delivered_called {buffer : MsgBuffer} (message : actionCommand a = .appMessage)
    (run : chatFabricDevice crypto (some deviceCallBack) w p buffer e.msg = .ok done) :
    done.called = true := by
  obtain ⟨cp, received, decoded, called, _⟩ := chatFabricDevice_controlers paired run
  have carries := receivePacket_sent keys ready encoded decoded
  simp [called, appCommand, carries.cmd, message]

theorem delivered_same_iff {buffer : MsgBuffer}
    (run : chatFabricDevice crypto (some deviceCallBack) w p buffer e.msg = .ok done) :
    done.party.config.controlers = p.config.controlers ↔ ¬ ∃ c ∈ p.config.controlers, Changes a c := by
  obtain ⟨cp, received, decoded, _⟩ := chatFabricDevice_controlers paired run
  have carries := receivePacket_sent keys ready encoded decoded
  rw [delivered_controlers keys ready paired encoded run, ← carries.setValue, controls_eq_iff]
  simp only [carries.sets]

end

structure Acks (reply : ChatPacket) : Prop where
  built : Built reply
  tableless : reply.numOfControllers = 0
  dataless : reply.actionLength = 0
  payloadless : reply.payloadLength = 0

theorem readValue_acks {reply : ChatPacket} {c : CfControl} (acks : Acks reply) :
    Acks (readValue cp c reply) := by
  obtain ⟨built, tableless, dataless, payloadless⟩ := acks
  unfold readValue
  split
  · exact ⟨⟨built.envelopePadding, built.payloadPadding, built.payload⟩, tableless, rfl, payloadless⟩
  · exact ⟨built, tableless, dataless, payloadless⟩

theorem deviceCallBackLoop_acks (cp : ChatPacket) {reply : ChatPacket} (acks : Acks reply)
    (controls : List CfControl) :
    Acks (deviceCallBackLoop cp controls reply).2 := by
  induction controls generalizing reply with
  | nil => exact acks
  | cons c rest ih => exact ih (readValue_acks acks)

theorem runCallback_acks (cp : ChatPacket) {o : Outcome} (acks : Acks o.reply) :
    Acks (runCallback (some deviceCallBack) cp o).reply := by
  unfold runCallback
  dsimp only
  split
  · obtain ⟨built, tableless, dataless, payloadless⟩ :=
      deviceCallBackLoop_acks cp acks o.party.config.controlers
    exact ⟨⟨built.envelopePadding, built.payloadPadding, built.payload⟩, tableless, dataless, payloadless⟩
  · exact acks

theorem sendReply_acks (crypto : Crypto) {o : Outcome} (acks : Acks o.reply)
    (type : replyPacketType o.reply.cmd = .command ∨ replyPacketType o.reply.cmd = .data) :
    ∃ sent, sendReply crypto o = .ok sent := by
  rcases type with command | data
  · obtain ⟨msg, sent⟩ := sendReply_command crypto fun _ => command
    exact ⟨_, sent⟩
  · obtain ⟨pad, padding⟩ := acks.built.payloadPadding.split
    have sound := sound acks.built (by simp [acks.tableless]) (fun _ => acks.dataless) padding
    have size : plainSize o.reply [] + 105 < 2 ^ 32 := by
      simp only [plainSize, acks.payloadless, acks.dataless, acks.tableless, UInt32.lt_irrefl,
        Int32.lt_irrefl, if_false]
      split <;> omega
    have encoded := encodeData_sealed sound size crypto o.party.pair
    unfold sendReply
    split
    · simp only [data, chatPacketEncode, encoded, bind, Except.bind]
      exact ⟨_, rfl⟩
    · exact ⟨_, rfl⟩

theorem stateMachine_acks {files : FileAccess} {replyCmd : Command} {o : Outcome} {random : PacketRandom}
    (paired : p.pair.state = .paired) (message : cp.cmd = .appMessage)
    (ran : stateMachine crypto files p cp (chatPacketInit0 random) replyCmd = .ok o) :
    Acks o.reply ∧ (o.reply.cmd = .invaildCmd ∨ o.reply.cmd = .appMessageAck) := by
  have fresh := chatPacketInit0_built random
  cases elsewhere : misaddressed p.config cp with
  | true =>
    cases (stateMachine_elsewhere crypto files _ replyCmd elsewhere).symm.trans ran
    exact ⟨⟨fresh, rfl, rfl, rfl⟩, .inl rfl⟩
  | false =>
    cases (stateMachine_pair elsewhere (by simp [message]) (by simp [message])).symm.trans ran
    simp only [pairSwitch, message, paired, if_true]
    exact ⟨⟨⟨fresh.envelopePadding, fresh.payloadPadding, fresh.payload⟩, rfl, rfl, rfl⟩, .inr trivial⟩

theorem handlePacket_message (crypto : Crypto) (w : World) (b : MsgBuffer)
    (paired : p.pair.state = .paired) (message : cp.cmd = .appMessage) :
    ∃ done, handlePacket crypto (some deviceCallBack) w p cp b = .ok done := by
  have app : appCommand cp.cmd = true := by simp [appCommand, message]
  obtain ⟨o, ran, _⟩ :=
    stateMachine_app crypto w.files p (chatPacketInit0 w.replyRandom) w.replyCmd app
  obtain ⟨acks, cmd⟩ := stateMachine_acks paired message ran
  obtain ⟨sent, replied⟩ := sendReply_acks crypto (runCallback_acks cp acks) (by
    rw [(runCallback_device cp o).cmd]
    rcases cmd with cmd | cmd <;> simp [cmd, replyPacketType])
  exact ⟨_, handlePacket_of ran replied⟩

theorem fillPayload_recovered {sender : ChatFabricPairing} {w : World} (memory : ∀ n, w.alloc n = true)
    (built : Built cp) (recovered : Recovered cp sender .data got) (allocs : Nat) (buffer : MsgBuffer) :
    ∃ filled, fillPayload w allocs got buffer = .ok filled := by
  unfold fillPayload
  split
  · rename_i some
    rw [recovered.payloadLength rfl] at some
    obtain ⟨s, here, enough⟩ := built.payload some
    have same := congrArg List.length (recovered.payload rfl)
    rw [here, Option.getD_some, List.length_take, List.length_take, Nat.min_eq_left enough] at same
    simp only [UInt32.lt_iff_toNat_lt, UInt32.reduceToNat] at some
    cases kept : got.payload with
    | none =>
      rw [kept, Option.getD_none, List.length_nil] at same
      omega
    | some t =>
      rw [kept, Option.getD_some] at same
      have long : cp.payloadLength.toNat ≤ t.length := by omega
      simp only [memory, if_true, TagData.bytes, recovered.payloadLength rfl, long, bind, Except.bind]
      exact ⟨_, rfl⟩
  · exact ⟨_, rfl⟩

/-- With memory and fuel enough, a message that fits the buffer is always acted on. -/
theorem delivered_completes (keys : SharesKeys controller.pair p.pair)
    (ready : controller.pair.state = .paired) (paired : p.pair.state = .paired)
    (encoded : chatFabricController crypto controller a msg b random = .ok e)
    (message : actionCommand a = .appMessage) (fits : e.msg.length ≤ bufferSize) (w : World)
    (memory : ∀ n, w.alloc n = true) (buffer : MsgBuffer) :
    ∃ fuel done, chatFabricDevice crypto (some deviceCallBack) { w with fuel := fuel } p buffer e.msg =
      .ok done := by
  obtain ⟨cp, carries, built, tableless, dataless, sent⟩ := encodes_action ready encoded
  obtain ⟨fuel, ⟨_, long | ⟨n, none⟩⟩ | ⟨got, allocs, run, recovered, action⟩⟩ :=
    decodes_sent (decodeEnv crypto w p.pair) keys built tableless dataless sent w.random
  · omega
  · rw [show (decodeEnv crypto w p.pair).alloc n = true from memory n] at none
    cases none
  · obtain ⟨filled, stored⟩ := fillPayload_recovered (w := { w with fuel := fuel }) memory built recovered
      allocs { buffer with length := 0 }
    obtain ⟨done, handled⟩ := handlePacket_message crypto { w with fuel := fuel } (fillAction got filled)
      paired ((carries.recovered recovered action).cmd.trans message)
    refine ⟨fuel, done, chatFabricDevice_ok_iff.mpr ⟨got, _, ?_, handled⟩⟩
    simp only [decodeEnv] at run
    simp only [receivePacket, decodeEnv, run, ne_eq, not_true_eq_false, if_false, stored, checked,
      Except.mapError, Except.map]

end ActionDelivery
