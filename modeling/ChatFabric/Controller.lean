import ChatFabric.DeviceSteps

/- What chatFabric_controller makes of an action and sends; afterwards it waits for the answer
   as a device does. -/
namespace ChatFabric
open ByteStrings

def actionGetConfig : UInt32 := 3
def actionSetConfig : UInt32 := 4
def actionAppList : UInt32 := 6

structure ChatFabricAction where
  action : UInt32
  actionControl : UInt32
  actionType : UInt32
  actionValue : Int32
  actionLength : UInt32
  actionData : Option Bytes
  deriving DecidableEq

/-- The packet before the fields of the action: config->msg is a string of the command line. -/
def actionPacket (p : Party) (a : ChatFabricAction) (msg : Option Bytes) (b : MsgBuffer)
    (random : PacketRandom) : Except Fault ChatPacket :=
  let flags := Command.sendReplyTrue.toCode
  if a.action = actionAppList then chatPacketInit p.config p.pair .appList none 0 flags random
  else if a.action = actionGetConfig then
    chatPacketInit p.config p.pair .configGet none 0 flags random
  else if a.action = actionSetConfig then
    chatPacketInit p.config p.pair .configSet b.msg b.length.toUInt32 flags random
  else match msg with
    | none => chatPacketInit p.config p.pair .appMessage none 0 flags random
    | some s => chatPacketInit p.config p.pair .appMessage (some s) (UInt32.ofNat s.length) flags random

/-- Five of the six fields of an action; action_data is not copied. -/
def withControllerAction (a : ChatFabricAction) (cp : ChatPacket) : ChatPacket :=
  { cp with
    action := a.action
    actionControl := a.actionControl
    actionType := a.actionType
    actionValue := a.actionValue
    actionLength := a.actionLength }

def chatFabricController (crypto : Crypto) (p : Party) (a : ChatFabricAction) (msg : Option Bytes)
    (b : MsgBuffer) (random : PacketRandom) : Except Fault Encoded :=
  if p.pair.state ≠ .paired then do
    let cp ← chatPacketInit p.config p.pair .pairRequest none 0 0 random
    chatPacketEncode crypto cp p.pair false .command
  else do
    let cp ← actionPacket p a msg b random
    chatPacketEncode crypto (withControllerAction a cp) p.pair true .data

def storeRead (cp : ChatPacket) (c : CfControl) : CfControl :=
  if c.control = cp.actionControl ∧ cp.action = actionRead then { c with value := cp.actionValue }
  else c

/-- controllerCallBack of bin/controller.c. A table that came with the packet takes the place of
    the old one, to which a reply that lists the controls still points; one that could not be
    allocated is taken as empty. -/
def controllerCallBack : Callback := fun cp a =>
  if 0 < cp.numOfControllers then
    { a with config.controlers := (cp.controlers.getD []).map (storeRead cp) }
  else
    let controlers := a.config.controlers.map (storeRead cp)
    { a with
      config.controlers := controlers
      reply := { a.reply with controlers := a.reply.controlers.map fun _ => controlers } }

variable {crypto : Crypto} {p : Party} {a : ChatFabricAction} {msg : Option Bytes} {b : MsgBuffer}
  {random : PacketRandom} {cp : ChatPacket} {e : Encoded}

theorem controllerCallBack_keeps (cp : ChatPacket) (args : CallbackArgs) :
    (controllerCallBack cp args).pair = args.pair := by
  unfold controllerCallBack
  split <;> rfl

def actionCommand (a : ChatFabricAction) : Command :=
  if a.action = actionAppList then .appList
  else if a.action = actionGetConfig then .configGet
  else if a.action = actionSetConfig then .configSet
  else .appMessage

theorem actionPacket_init (made : actionPacket p a msg b random = .ok cp) :
    ∃ payload len, chatPacketInit p.config p.pair (actionCommand a) payload len
      Command.sendReplyTrue.toCode random = .ok cp := by
  unfold actionPacket at made
  unfold actionCommand
  split at made
  · rename_i list
    exact ⟨_, _, by rw [if_pos list]; exact made⟩
  rename_i notList
  rw [if_neg notList]
  split at made
  · rename_i get
    exact ⟨_, _, by rw [if_pos get]; exact made⟩
  rename_i notGet
  rw [if_neg notGet]
  split at made
  · rename_i set
    exact ⟨_, _, by rw [if_pos set]; exact made⟩
  rename_i notSet
  rw [if_neg notSet]
  split at made
  · exact ⟨_, _, made⟩
  · exact ⟨_, _, made⟩

theorem actionPacket_dataless (made : actionPacket p a msg b random = .ok cp) :
    cp.actionData = none ∧ cp.numOfControllers = 0 := by
  obtain ⟨payload, len, init⟩ := actionPacket_init made
  obtain ⟨_, _, rfl⟩ := chatPacketInit_init0 init
  exact ⟨rfl, rfl⟩

theorem chatFabricController_ok (paired : p.pair.state = .paired)
    (run : chatFabricController crypto p a msg b random = .ok e) :
    ∃ cp, actionPacket p a msg b random = .ok cp ∧
      encodeData crypto (withControllerAction a cp) p.pair true = .ok e := by
  unfold chatFabricController at run
  rw [if_neg (by simp [paired])] at run
  cases made : actionPacket p a msg b random with
  | error f => simp [made, bind, Except.bind] at run
  | ok cp =>
    simp only [made, bind, Except.bind, chatPacketEncode] at run
    exact ⟨cp, rfl, run⟩

theorem encodeFields_missing {fields : List (UInt8 × TagData)} {f : UInt8 × TagData} {missing : Fault}
    (member : f ∈ fields) (absent : f.2.bytes = .error missing) (b : OutBuf) :
    ∃ stop, encodeFields b fields = .error stop := by
  induction fields generalizing b with
  | nil => simp at member
  | cons g fields ih =>
    simp only [encodeFields, bind, Except.bind]
    cases written : cfTagEncoder b g.1 g.2 with
    | error stop => exact ⟨stop, rfl⟩
    | ok next =>
      rcases List.mem_cons.mp member with rfl | later
      · simp [cfTagEncoder, absent, bind, Except.bind] at written
      · exact ih later next

theorem chatFabricController_dataful (crypto : Crypto) (paired : p.pair.state = .paired)
    (action : a.action ≠ 0) (some : 0 < a.actionLength) (msg : Option Bytes) (b : MsgBuffer)
    (random : PacketRandom) : ∃ f, chatFabricController crypto p a msg b random = .error f := by
  unfold chatFabricController
  rw [if_neg (by simp [paired])]
  cases made : actionPacket p a msg b random with
  | error f => exact ⟨f, rfl⟩
  | ok cp =>
    obtain ⟨dataless, tableless⟩ := actionPacket_dataless made
    have member : tagData8 .actionData none a.actionLength ∈
        payloadFields (withControllerAction a cp) [] true := by
      simp [payloadFields, actionFields, withControllerAction, action, some, dataless]
    have absent : (tagData8 .actionData none a.actionLength).2.bytes = .error .nullPointer := by
      have nonzero : a.actionLength ≠ 0 := by
        intro zero
        simp [zero] at some
      simp [tagData8, TagData.bytes, nonzero]
    obtain ⟨f, stop⟩ := encodeFields_missing member absent
      (.calloc (plainLength (withControllerAction a cp) []).toNat)
    have listed : listedControls (withControllerAction a cp) = .ok [] := by
      simp [listedControls, withControllerAction, tableless]
    exact ⟨f, by simp only [bind, Except.bind, chatPacketEncode, encodeData, listed, stop, Except.map]⟩

end ChatFabric
