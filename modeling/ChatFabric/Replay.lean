import ChatFabric.ActionDelivery
import ChatFabric.Authentication
import ChatFabric.Runs

/- A paired controller and device over a network that may lose, delay, reorder and repeat what
   the controller sends. The serial of a packet goes into its nonce and is compared with
   nothing, so that a SET counts each time it arrives. -/
namespace Replay
open ByteStrings Runs ChatFabric Authentication PacketRoundTrip ActionDelivery

structure Sent where
  action : ChatFabricAction
  datagram : Bytes

/-- The two parties, what was sent, and what the device has had so far, in order and with
    repetitions. A party whose call does not end is gone. -/
structure Exchange where
  controller : Option Party
  device : Option Party
  sent : List Sent
  delivered : List Sent

def begun (controller device : Party) : Exchange := ⟨some controller, some device, [], []⟩

inductive Event where
  | send (a : ChatFabricAction) (msg : Option Bytes) (b : MsgBuffer) (random : PacketRandom)
  | answer (w : World) (b : MsgBuffer) (datagram : Bytes)
  | deliver (k : Nat) (w : World) (b : MsgBuffer)
  | other (w : World) (b : MsgBuffer) (datagram : Bytes)

/-- The controller takes answers, from whoever they are, as a device does. -/
def next (crypto : Crypto) (s : Exchange) : Event → Exchange
  | .send a msg b random =>
    match s.controller with
    | none => s
    | some q =>
      match chatFabricController crypto q a msg b random with
      | .ok e => { s with controller := some { q with pair := e.pair }, sent := s.sent ++ [⟨a, e.msg⟩] }
      | .error _ => { s with controller := none }
  | .answer w b datagram =>
    match s.controller with
    | none => s
    | some q =>
      match chatFabricDevice crypto (some controllerCallBack) w q b datagram with
      | .ok done => { s with controller := some done.party }
      | .error _ => { s with controller := none }
  | .deliver k w b =>
    match s.device, s.sent[k]? with
    | some p, some packet =>
      match chatFabricDevice crypto (some deviceCallBack) w p b packet.datagram with
      | .ok done => { s with device := some done.party, delivered := s.delivered ++ [packet] }
      | .error _ => { s with device := none }
    | _, _ => s
  | .other w b datagram =>
    match s.device with
    | none => s
    | some p =>
      match chatFabricDevice crypto (some deviceCallBack) w p b datagram with
      | .ok done => { s with device := some done.party }
      | .error _ => { s with device := none }

/-- What reaches the device beside the actions of its controller, sets nothing. -/
def Quiet (crypto : Crypto) (s : Exchange) : Event → Prop
  | .other w b datagram => ∀ p cp received, s.device = some p →
      receivePacket crypto w p.pair { b with length := 0 } datagram = .ok (cp, received) →
        appCommand cp.cmd → cp.action ≠ actionSet
  | _ => True

def lastSet (control : UInt32) (delivered : List Sent) : Option Int32 :=
  ((delivered.filter fun packet =>
    packet.action.action = actionSet ∧ control = packet.action.actionControl).getLast?).map
      (·.action.actionValue)

def shows (delivered : List Sent) (c : CfControl) : CfControl :=
  { c with value := (lastSet c.control delivered).getD c.value }

theorem lastSet_append (control : UInt32) (delivered : List Sent) (packet : Sent) :
    lastSet control (delivered ++ [packet]) =
      if control = packet.action.actionControl ∧ packet.action.action = actionSet then
        some packet.action.actionValue
      else lastSet control delivered := by
  unfold lastSet
  by_cases names : packet.action.action = actionSet ∧ control = packet.action.actionControl
  · rw [if_pos names.symm, List.filter_append, List.filter_singleton]
    simp [names]
  · rw [if_neg (fun other => names other.symm), List.filter_append, List.filter_singleton]
    simp [names]

theorem applySet_shows (delivered : List Sent) (packet : Sent) (c : CfControl) :
    applySet packet.action (shows delivered c) = shows (delivered ++ [packet]) c := by
  by_cases names : c.control = packet.action.actionControl ∧ packet.action.action = actionSet
  · simp [shows, lastSet_append, applySet, names]
  · simp [shows, lastSet_append, applySet, names]

theorem shows_last {delivered : List Sent} {packet : Sent} {c : CfControl}
    (names : c.control = packet.action.actionControl ∧ packet.action.action = actionSet) :
    (shows (delivered ++ [packet]) c).value = packet.action.actionValue := by
  simp [shows, lastSet_append, names]

theorem shows_nil (controls : List CfControl) : controls.map (shows []) = controls := by
  have same : shows [] = id := by
    funext c
    rfl
  rw [same, List.map_id]

def Since (start now : ChatFabricPairing) : Prop :=
  ∃ uuid serial, now = { start with uuid := uuid, serial := serial }

theorem Since.paired {start now : ChatFabricPairing} (since : Since start now)
    (paired : start.state = .paired) : now.state = .paired := by
  obtain ⟨uuid, serial, rfl⟩ := since
  exact paired

theorem Since.trans {start now later : ChatFabricPairing} (first : Since start now)
    (second : Since now later) : Since start later := by
  obtain ⟨_, _, rfl⟩ := first
  obtain ⟨uuid, serial, rfl⟩ := second
  exact ⟨uuid, serial, rfl⟩

theorem Since.keys {sender receiver sender' receiver' : ChatFabricPairing}
    (keys : SharesKeys sender receiver) (one : Since sender sender') (two : Since receiver receiver') :
    SharesKeys sender' receiver' := by
  obtain ⟨_, _, rfl⟩ := one
  obtain ⟨_, _, rfl⟩ := two
  exact ⟨keys.sharedkey, keys.nullnonce, keys.nonce⟩

structure PairOf (controller device : Party) : Prop where
  ready : controller.pair.state = .paired
  paired : device.pair.state = .paired
  keys : SharesKeys controller.pair device.pair

variable {crypto : Crypto} {controller device p : Party}

def Encodes (crypto : Crypto) (controller : Party) (packet : Sent) : Prop :=
  ∃ q msg b random e, Since controller.pair q.pair ∧
    chatFabricController crypto q packet.action msg b random = .ok e ∧ packet.datagram = e.msg

structure Follows (crypto : Crypto) (controller device : Party) (s : Exchange) : Prop where
  sender : ∀ q, s.controller = some q → Since controller.pair q.pair
  receiver : ∀ p, s.device = some p → Since device.pair p.pair ∧
    p.config.controlers = device.config.controlers.map (shows s.delivered)
  sent : ∀ packet ∈ s.sent, Encodes crypto controller packet

theorem begun_follows (crypto : Crypto) (controller device : Party) :
    Follows crypto controller device (begun controller device) where
  sender q here := by
    cases here
    exact ⟨_, _, rfl⟩
  receiver p here := by
    cases here
    exact ⟨⟨_, _, rfl⟩, (shows_nil _).symm⟩
  sent packet member := by simp [begun] at member

theorem send_follows {s : Exchange} (pair : PairOf controller device)
    (follows : Follows crypto controller device s) (a : ChatFabricAction) (msg : Option Bytes)
    (b : MsgBuffer) (random : PacketRandom) :
    Follows crypto controller device (next crypto s (.send a msg b random)) := by
  simp only [next]
  split
  · exact follows
  · rename_i q here
    have since := follows.sender q here
    split
    · rename_i e encoded
      have counted : Since q.pair e.pair := by
        obtain ⟨cp, _, data⟩ := chatFabricController_ok (since.paired pair.ready) encoded
        exact ⟨_, _, (encodeData_pair data).1⟩
      refine ⟨?_, follows.receiver, ?_⟩
      · intro q' same
        cases same
        exact since.trans counted
      · intro packet member
        rcases List.mem_append.mp member with old | new
        · exact follows.sent packet old
        · rw [List.mem_singleton.mp new]
          exact ⟨q, msg, b, random, e, since, encoded, rfl⟩
    · exact ⟨fun q none => (by cases none), follows.receiver, follows.sent⟩

theorem answer_follows {s : Exchange} (pair : PairOf controller device)
    (follows : Follows crypto controller device s) (w : World) (b : MsgBuffer) (datagram : Bytes) :
    Follows crypto controller device (next crypto s (.answer w b datagram)) := by
  simp only [next]
  split
  · exact follows
  · rename_i q here
    have since := follows.sender q here
    split
    · rename_i done run
      refine ⟨?_, follows.receiver, follows.sent⟩
      intro q' same
      cases same
      exact since.trans (chatFabricDevice_keeps controllerCallBack_keeps (since.paired pair.ready) run)
    · exact ⟨fun q none => (by cases none), follows.receiver, follows.sent⟩

theorem deliver_follows {s : Exchange} (pair : PairOf controller device)
    (follows : Follows crypto controller device s) (k : Nat) (w : World) (b : MsgBuffer) :
    Follows crypto controller device (next crypto s (.deliver k w b)) := by
  simp only [next]
  split
  · rename_i p packet here there
    obtain ⟨since, controls⟩ := follows.receiver p here
    obtain ⟨q, msg, b', random, e, sender, encoded, datagram⟩ :=
      follows.sent packet (List.mem_of_getElem? there)
    rw [datagram]
    split
    · rename_i done run
      refine ⟨follows.sender, ?_, follows.sent⟩
      intro p' same
      cases same
      have keeps := chatFabricDevice_keeps deviceCallBack_keeps (since.paired pair.paired) run
      refine ⟨since.trans keeps, ?_⟩
      rw [delivered_controlers (Since.keys pair.keys sender since) (sender.paired pair.ready)
        (since.paired pair.paired) encoded run, controls, List.map_map]
      refine List.map_congr_left fun c _ => ?_
      exact applySet_shows s.delivered packet c
    · exact ⟨follows.sender, fun p none => (by cases none), follows.sent⟩
  · exact follows

theorem other_follows {s : Exchange} (pair : PairOf controller device)
    (follows : Follows crypto controller device s) (w : World) (b : MsgBuffer) (datagram : Bytes)
    (quiet : Quiet crypto s (.other w b datagram)) :
    Follows crypto controller device (next crypto s (.other w b datagram)) := by
  simp only [next]
  split
  · exact follows
  · rename_i p here
    obtain ⟨since, controls⟩ := follows.receiver p here
    split
    · rename_i done run
      refine ⟨follows.sender, ?_, follows.sent⟩
      intro p' same
      cases same
      have paired := since.paired pair.paired
      have keeps := chatFabricDevice_keeps deviceCallBack_keeps paired run
      refine ⟨since.trans keeps, ?_⟩
      obtain ⟨cp, received, decoded, _, left⟩ := chatFabricDevice_controlers paired run
      rw [left, controls]
      split
      · rename_i app
        have unset := quiet p cp received here decoded app
        rw [← controls, controls_eq_iff]
        rintro ⟨c, _, _, set, _⟩
        exact unset set
      · rfl
    · exact ⟨follows.sender, fun p none => (by cases none), follows.sent⟩

theorem next_follows {s : Exchange} (pair : PairOf controller device) (a : Event)
    (follows : Follows crypto controller device s) (quiet : Quiet crypto s a) :
    Follows crypto controller device (next crypto s a) := by
  cases a with
  | send a msg b random => exact send_follows pair follows a msg b random
  | answer w b datagram => exact answer_follows pair follows w b datagram
  | deliver k w b => exact deliver_follows pair follows k w b
  | other w b datagram => exact other_follows pair follows w b datagram quiet

structure ActsOn (crypto : Crypto) (p : Party) (packet : Sent) : Prop where
  completes : actionCommand packet.action = .appMessage → packet.datagram.length ≤ bufferSize →
    ∀ (w : World) b, (∀ n, w.alloc n = true) → ∃ fuel done,
      chatFabricDevice crypto (some deviceCallBack) { w with fuel := fuel } p b packet.datagram = .ok done
  called : actionCommand packet.action = .appMessage → ∀ w b done,
    chatFabricDevice crypto (some deviceCallBack) w p b packet.datagram = .ok done → done.called = true
  controls : ∀ w b done,
    chatFabricDevice crypto (some deviceCallBack) w p b packet.datagram = .ok done →
      done.party.config.controlers = p.config.controlers.map (applySet packet.action)
  unchanged_iff : ∀ w b done,
    chatFabricDevice crypto (some deviceCallBack) w p b packet.datagram = .ok done →
      (done.party.config.controlers = p.config.controlers ↔
        ¬ ∃ c ∈ p.config.controlers, Changes packet.action c)

theorem Follows.actsOn {s : Exchange} {packet : Sent} (pair : PairOf controller device)
    (follows : Follows crypto controller device s) (here : s.device = some p)
    (member : packet ∈ s.sent) : ActsOn crypto p packet := by
  obtain ⟨since, _⟩ := follows.receiver p here
  obtain ⟨q, msg, b', random, e, sender, encoded, datagram⟩ := follows.sent packet member
  have keys := Since.keys pair.keys sender since
  have ready := sender.paired pair.ready
  have paired := since.paired pair.paired
  constructor
  · rw [datagram]
    exact fun message fits w b memory =>
      delivered_completes keys ready paired encoded message fits w memory b
  · rw [datagram]
    exact fun message w b done => delivered_called keys ready paired encoded message
  · rw [datagram]
    exact fun w b done => delivered_controlers keys ready paired encoded
  · rw [datagram]
    exact fun w b done => delivered_same_iff keys ready paired encoded

def remote : Party :=
  { pairedLamp with
    config := default
    pair := { pairedLamp.pair with uuid := lamp.uuid } }

def setTo (value : Int32) : ChatFabricAction := ⟨actionSet, 0, 0, value, 0, none⟩

def sends (value : Int32) : Event := .send (setTo value) none default default

theorem remote_pair : PairOf remote pairedLamp := ⟨rfl, rfl, ⟨rfl, rfl, rfl⟩⟩

theorem encodes_set (crypto : Crypto) {q : Party} (paired : q.pair.state = .paired) (value : Int32)
    (b : MsgBuffer) (random : PacketRandom) :
    ∃ e, chatFabricController crypto q (setTo value) none b random = .ok e ∧
      e.msg.length ≤ bufferSize := by
  obtain ⟨cp, made, built⟩ : ∃ cp, actionPacket q (setTo value) none b random = .ok cp ∧
      Built cp ∧ cp.numOfControllers = 0 ∧ cp.payloadLength = 0 := by
    cases init : chatPacketInit q.config q.pair .appMessage none 0 Command.sendReplyTrue.toCode random with
    | error f => simp [chatPacketInit, TagData.bytes, bind, Except.bind] at init
    | ok cp =>
      obtain ⟨_, _, made⟩ := chatPacketInit_init0 init
      exact ⟨cp, init, chatPacketInit_built init, by rw [made]; rfl, by rw [made]⟩
  obtain ⟨built, tableless, payloadless⟩ := built
  obtain ⟨pad, padding⟩ := built.payloadPadding.split
  have same : Built (withControllerAction (setTo value) cp) :=
    ⟨built.envelopePadding, built.payloadPadding, built.payload⟩
  have sound := sound same (by simp [withControllerAction, tableless]) (fun _ => rfl) padding
  have size : plainSize (withControllerAction (setTo value) cp) [] = 50 := by
    simp [plainSize, withControllerAction, setTo, tableless, payloadless, actionSet]
  unfold chatFabricController
  rw [if_neg (by simp [paired])]
  simp only [made, bind, Except.bind, chatPacketEncode,
    encodeData_sealed sound (by omega) crypto q.pair, Except.ok.injEq, exists_eq_left']
  rw [length_sealedMessage sound (by omega), size]
  decide

theorem sends_set {s : Exchange} {q : Party} (pair : PairOf controller device)
    (follows : Follows crypto controller device s) (here : s.controller = some q) (value : Int32) :
    ∃ q' datagram, next crypto s (sends value) =
        { s with controller := some q', sent := s.sent ++ [⟨setTo value, datagram⟩] } ∧
      datagram.length ≤ bufferSize := by
  obtain ⟨e, encoded, fits⟩ :=
    encodes_set crypto ((follows.sender q here).paired pair.ready) value default default
  exact ⟨{ q with pair := e.pair }, e.msg, by simp only [next, sends, here, encoded], fits⟩

theorem deliver_again {s : Exchange} {packet : Sent} {k : Nat} (pair : PairOf controller device)
    (follows : Follows crypto controller device s) (here : s.device = some p)
    (there : s.sent[k]? = some packet) (message : actionCommand packet.action = .appMessage)
    (fits : packet.datagram.length ≤ bufferSize) :
    ∃ w p', next crypto s (.deliver k w default) =
      { s with device := some p', delivered := s.delivered ++ [packet] } := by
  obtain ⟨fuel, done, run⟩ := (follows.actsOn pair here (List.mem_of_getElem? there)).completes message
    fits world default fun _ => rfl
  exact ⟨{ world with fuel := fuel }, done.party, by simp only [next, here, there, run]⟩

/-- In every run the controls show the SETs in the order of their delivery, and every packet that
    was sent, delivered before or not, is acted on when it is delivered. -/
theorem redelivered (crypto : Crypto) (controller device : Party) (pair : PairOf controller device)
    (inputs : List Event)
    (quiet : EveryStep (next crypto) (Quiet crypto) (begun controller device) inputs) :
    ∀ s ∈ states (next crypto) (begun controller device) inputs, ∀ p, s.device = some p →
      p.config.controlers = device.config.controlers.map (shows s.delivered) ∧
        ∀ packet ∈ s.sent, ActsOn crypto p packet := by
  intro s member p here
  have follows := every_state_of_every_step (fun _ a => next_follows pair a)
    (begun_follows crypto controller device) quiet s member
  exact ⟨(follows.receiver p here).2, fun packet sent => follows.actsOn pair here sent⟩

theorem redelivered_sent :
    ∃ w p datagram,
      p.config.controlers = pairedLamp.config.controlers.map (shows [⟨setTo 1, datagram⟩]) ∧
      (run (next default) (begun remote pairedLamp) [sends 1, .deliver 0 w default]).device = some p ∧
        ActsOn default p ⟨setTo 1, datagram⟩ := by
  have start := begun_follows default remote pairedLamp
  obtain ⟨q, one, first, fits⟩ := sends_set remote_pair start rfl 1
  have begins := next_follows remote_pair (sends 1) start trivial
  rw [first] at begins
  obtain ⟨w, p, second⟩ := deliver_again (k := 0) remote_pair begins rfl rfl rfl fits
  have ends : run (next default) (begun remote pairedLamp) [sends 1, .deliver 0 w default] =
      ⟨some q, some p, [⟨setTo 1, one⟩], [⟨setTo 1, one⟩]⟩ := by
    simp only [run, List.foldl_cons, List.foldl_nil, first, second]
    rfl
  obtain ⟨controls, acts⟩ := redelivered default remote pairedLamp remote_pair
    [sends 1, .deliver 0 w default] ⟨trivial, trivial, trivial⟩ _
    (mem_states_iff.mpr ⟨_, [], (List.append_nil _).symm, ends⟩) p rfl
  exact ⟨w, p, one, controls, by rw [ends], acts _ List.mem_cons_self⟩

def Spent (crypto : Crypto) (s : Exchange) : Prop :=
  ∀ p, s.device = some p → ∀ packet ∈ s.delivered, actionCommand packet.action = .appMessage →
    ∀ w b done, chatFabricDevice crypto (some deviceCallBack) w p b packet.datagram = .ok done →
      done.party.config.controlers = p.config.controlers

/-- Set to one, set to two, and the first datagram again. -/
theorem older_set_again :
    ¬ ∀ controller device, PairOf controller device → ∀ inputs,
      EveryStep (next default) (Quiet default) (begun controller device) inputs →
        ∀ s ∈ states (next default) (begun controller device) inputs, Spent default s := by
  intro spent
  have start := begun_follows default remote pairedLamp
  obtain ⟨q, one, first, fits⟩ := sends_set remote_pair start rfl 1
  have begins := next_follows remote_pair (sends 1) start trivial
  rw [first] at begins
  obtain ⟨q', two, second, fits'⟩ := sends_set remote_pair begins rfl 2
  have goes := next_follows remote_pair (sends 2) begins trivial
  rw [second] at goes
  obtain ⟨w, p, third⟩ := deliver_again (k := 0) remote_pair goes rfl rfl rfl fits
  have arrives := next_follows remote_pair (.deliver 0 w default) goes trivial
  rw [third] at arrives
  obtain ⟨w', p', fourth⟩ := deliver_again (k := 1) remote_pair arrives rfl rfl rfl fits'
  have ends := next_follows remote_pair (.deliver 1 w' default) arrives trivial
  rw [fourth] at ends
  have acts := ends.actsOn remote_pair rfl List.mem_cons_self
  obtain ⟨fuel, done, again⟩ := acts.completes rfl fits world default fun _ => rfl
  have reached := spent remote pairedLamp remote_pair
    [sends 1, sends 2, .deliver 0 w default, .deliver 1 w' default]
    ⟨trivial, trivial, trivial, trivial, trivial⟩ _
    (mem_states_iff.mpr ⟨_, [], (List.append_nil _).symm, rfl⟩)
  simp only [run, List.foldl_cons, List.foldl_nil, first, second, third, fourth] at reached
  have same := reached p' rfl ⟨setTo 1, one⟩ (by simp [begun]) rfl _ _ done again
  refine (acts.unchanged_iff _ _ _ again).mp same ?_
  have shown : p'.config.controlers =
      pairedLamp.config.controlers.map (shows ([⟨setTo 1, one⟩] ++ [⟨setTo 2, two⟩])) :=
    (ends.receiver p' rfl).2
  rw [shown]
  refine ⟨_, List.mem_cons_self, rfl, rfl, ?_⟩
  rw [shows_last ⟨rfl, rfl⟩]
  exact (by decide : (2 : Int32) ≠ 1)

end Replay
