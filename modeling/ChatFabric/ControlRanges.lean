import ChatFabric.ControlData
import ChatFabric.Unpairing

/- What packets do to the value of a control, in both builds. A control has a range, and on
   the ESP8266 it may be read only; of the two, the callback looks at the second alone. -/
namespace ControlRanges
open ByteStrings Runs ChatFabric
open Esp8266 (Panel Chip ParamArea Input outletControls)

structure Call where
  panel : Panel
  cp : ChatPacket

def acted (k : Call) (c : CfControl) : CfControl :=
  if c.control = k.cp.actionControl then
    if k.cp.action = actionGet then Esp8266.readControl k.panel c
    else if k.cp.action = actionSet ∧ ¬ k.panel.readOnly c then { c with value := k.cp.actionValue }
    else c
  else c

def Admits (c : CfControl) (value : Int32) : Prop := c.rangeLow ≤ value ∧ value ≤ c.rangeHigh

def InRange (i : Nat) (table : List CfControl) : Prop := ∀ c, table[i]? = some c → Admits c c.value

def ReadsInRange (i : Nat) (k : Call) (table : List CfControl) : Prop :=
  ∀ c v, table[i]? = some c → k.panel.readFuction c = some v → Admits c v

/-- A packet that sets the control at a place to a value outside its range. -/
structure Oversets (i : Nat) (k : Call) (table : List CfControl) : Prop where
  action : k.cp.action = actionSet
  control : ∃ c, table[i]? = some c ∧ c.control = k.cp.actionControl ∧ k.panel.readOnly c = false ∧
    ¬ Admits c k.cp.actionValue

structure Changed (k : Call) (before after : CfControl) : Prop where
  value : after = { before with value := after.value }
  readOnly : k.panel.readOnly before = true →
    after = before ∨ k.panel.readFuction before = some after.value
  named : k.cp.action = actionSet → after ≠ before → before.control = k.cp.actionControl

variable {k : Call} {c : CfControl} {table : List CfControl} {i : Nat}

theorem readControl_cases (panel : Panel) (c : CfControl) :
    Esp8266.readControl panel c = c ∨
      ∃ v, panel.readFuction c = some v ∧ Esp8266.readControl panel c = { c with value := v } := by
  unfold Esp8266.readControl
  cases panel.readFuction c with
  | none => exact .inl rfl
  | some v => exact .inr ⟨v, rfl, rfl⟩

theorem acted_cases (k : Call) (c : CfControl) :
    acted k c = c ∨
    (k.cp.action = actionGet ∧
      ∃ v, k.panel.readFuction c = some v ∧ acted k c = { c with value := v }) ∨
    (k.cp.action = actionSet ∧ c.control = k.cp.actionControl ∧ k.panel.readOnly c = false ∧
      acted k c = { c with value := k.cp.actionValue }) := by
  unfold acted
  split
  · rename_i control
    split
    · rename_i get
      rcases readControl_cases k.panel c with same | read
      · exact .inl same
      · exact .inr (.inl ⟨get, read⟩)
    · split
      · rename_i set
        exact .inr (.inr ⟨set.1, control, by simpa using set.2, rfl⟩)
      · exact .inl rfl
  · exact .inl rfl

theorem acted_changed (k : Call) (c : CfControl) : Changed k c (acted k c) := by
  rcases acted_cases k c with same | ⟨get, v, read, value⟩ | ⟨_, control, writable, value⟩
  · rw [same]
    exact ⟨rfl, fun _ => .inl rfl, fun _ other => absurd rfl other⟩
  · rw [value]
    refine ⟨rfl, fun _ => .inr read, ?_⟩
    intro set _
    cases get.symm.trans set
  · rw [value]
    refine ⟨rfl, ?_, fun _ _ => control⟩
    intro readOnly
    cases writable.symm.trans readOnly

theorem table_changed (k : Call) (table : List CfControl) :
    List.Forall₂ (Changed k) table (table.map (acted k)) := by
  induction table with
  | nil => exact .nil
  | cons c rest ih => exact .cons (acted_changed k c) ih

theorem inRange_acted (start : InRange i table) (reads : ReadsInRange i k table) :
    InRange i (table.map (acted k)) ↔ ¬ Oversets i k table := by
  constructor
  · rintro after ⟨set, c, here, control, writable, outside⟩
    have value : acted k c = { c with value := k.cp.actionValue } := by
      have other : ¬ k.cp.action = actionGet := by
        intro get
        cases get.symm.trans set
      rw [acted, if_pos control, if_neg other, if_pos ⟨set, by simp [writable]⟩]
    have within := after (acted k c) (by simp [here])
    rw [value] at within
    exact outside within
  · intro moderate d there
    obtain ⟨c, here, rfl⟩ : ∃ c, table[i]? = some c ∧ acted k c = d := by
      simpa using there
    rcases acted_cases k c with same | ⟨_, v, read, value⟩ | ⟨set, control, writable, value⟩
    · rw [same]
      exact start c here
    · rw [value]
      exact reads c v here read
    · rw [value]
      by_contra outside
      exact moderate ⟨set, c, here, control, writable, outside⟩

section Machine
variable {State Input : Type} {next : State → Input → State} {s : State} {inputs : List Input}

/-- A machine with a table of controls, on which only the callback acts, or a start that lays
    it out anew. -/
structure TableMachine (next : State → Input → State) (table : State → List CfControl)
    (call : State → Input → Option Call) (fresh : Input → Option (List CfControl)) : Prop where
  called : ∀ {s a k}, call s a = some k → table (next s a) = (table s).map (acted k)
  idle : ∀ {s a}, call s a = none → table (next s a) = table s ∨ fresh a = some (table (next s a))

variable {table : State → List CfControl} {call : State → Input → Option Call}
  {fresh : Input → Option (List CfControl)}

/-- A step that does not overset the control. -/
def Moderate (table : State → List CfControl) (call : State → Input → Option Call) (i : Nat)
    (s : State) (a : Input) : Prop :=
  ∀ k, call s a = some k → ¬ Oversets i k (table s)

/-- A step in which what the control's own function reads is in its range. -/
def Reads (table : State → List CfControl) (call : State → Input → Option Call) (i : Nat)
    (s : State) (a : Input) : Prop :=
  ∀ k, call s a = some k → ReadsInRange i k (table s)

def Respects (next : State → Input → State) (table : State → List CfControl)
    (call : State → Input → Option Call) (fresh : Input → Option (List CfControl))
    (s : State) (a : Input) : Prop :=
  match call s a with
  | some k => List.Forall₂ (Changed k) (table s) (table (next s a))
  | none => table (next s a) = table s ∨ fresh a = some (table (next s a))

theorem TableMachine.respects (machine : TableMachine next table call fresh) (s : State) (a : Input) :
    Respects next table call fresh s a := by
  unfold Respects
  split
  · rename_i k calls
    rw [machine.called calls]
    exact table_changed k (table s)
  · rename_i idle
    exact machine.idle idle

theorem TableMachine.every_step_respects (machine : TableMachine next table call fresh) (s : State)
    (inputs : List Input) : EveryStep next (Respects next table call fresh) s inputs := by
  have each : ∀ s a, True → Respects next table call fresh s a := fun s a _ => machine.respects s a
  exact every_step (fun _ _ _ => trivial) each trivial inputs

theorem TableMachine.step_inRange (machine : TableMachine next table call fresh)
    (laid : ∀ a t, fresh a = some t → InRange i t) {a : Input} (start : InRange i (table s))
    (reads : Reads table call i s a) :
    InRange i (table (next s a)) ↔ Moderate table call i s a := by
  cases calls : call s a with
  | some k =>
    rw [machine.called calls, inRange_acted start (reads k calls)]
    simp [Moderate, calls]
  | none =>
    have after : InRange i (table (next s a)) := by
      rcases machine.idle calls with same | new
      · rw [same]
        exact start
      · exact laid a _ new
    simp [Moderate, calls, after]

theorem TableMachine.inRange_iff (machine : TableMachine next table call fresh)
    (laid : ∀ a t, fresh a = some t → InRange i t) (start : InRange i (table s))
    (reads : EveryStep next (Reads table call i) s inputs) :
    (∀ t ∈ states next s inputs, InRange i (table t)) ↔
      EveryStep next (Moderate table call i) s inputs := by
  have step : ∀ s a, True → InRange i (table s) → Reads table call i s a →
      (InRange i (table (next s a)) ↔ Moderate table call i s a) :=
    fun s a _ start reads => machine.step_inRange laid start reads
  exact every_state_iff_every_step_of_steps (fun _ _ _ _ _ => trivial) step trivial start reads

end Machine

section Host
open ControlData

/-- The host build has neither read only controls nor read functions. -/
def hostPanel : Panel := ⟨fun _ => false, fun _ => none⟩

def hostTable (s : Serving) : List CfControl := s.party.config.controlers

def hostCall (crypto : Crypto) (s : Serving) (a : Arrival) : Option Call :=
  if s.halted then none
  else match receivePacket crypto a.w s.party.pair { a.b with length := 0 } a.datagram with
  | .error _ => none
  | .ok (cp, _) =>
    if s.party.pair.state = .paired ∧ appCommand cp.cmd then some ⟨hostPanel, cp⟩ else none

theorem host_reads (crypto : Crypto) (i : Nat) (s : Serving) (a : Arrival) :
    Reads hostTable (hostCall crypto) i s a := by
  intro k calls c v _ read
  have panel : k.panel = hostPanel := by
    unfold hostCall at calls
    repeat' split at calls
    all_goals cases calls
    rfl
  rw [panel] at read
  cases read

theorem setValue_acted (cp : ChatPacket) : setValue cp = acted ⟨hostPanel, cp⟩ := by
  funext c
  unfold setValue acted
  by_cases control : c.control = cp.actionControl
  · by_cases set : cp.action = actionSet
    · have other : ¬ cp.action = actionGet := by
        intro get
        cases get.symm.trans set
      rw [if_pos ⟨control, set⟩, if_pos control, if_neg other, if_pos ⟨set, by simp [hostPanel]⟩]
    · rw [if_neg fun sets => set sets.2, if_pos control]
      simp [set, hostPanel, Esp8266.readControl]
  · rw [if_neg fun sets => control sets.1, if_neg control]

theorem host_machine (crypto : Crypto) :
    TableMachine (serve crypto) hostTable (hostCall crypto) fun _ => none := by
  constructor
  · intro s a k calls
    unfold hostCall at calls
    split at calls
    · cases calls
    · rename_i live
      split at calls
      · cases calls
      · rename_i cp b decoded
        split at calls
        · rename_i acts
          cases calls
          have controlers := (serve_acts (Bool.eq_false_iff.mpr live) decoded).controlers
          rwa [if_pos acts, setValue_acted] at controlers
        · cases calls
  · intro s a idle
    refine .inl ?_
    unfold hostCall at idle
    split at idle
    · rename_i halted
      simp [serve, halted]
    · rename_i live
      split at idle
      · rename_i decoded
        simp [serve, live, decoded, hostTable]
      · rename_i cp b decoded
        split at idle
        · cases idle
        · rename_i acts
          have controlers := (serve_acts (Bool.eq_false_iff.mpr live) decoded).controlers
          rwa [if_neg acts] at controlers

end Host

section Board
variable {Flash : Type} {crypto : Crypto} {sdk : ParamArea Flash} {m : Chip Flash}

/-- The chip at work, and whether it has come to an end: nothing is said of it past a fault. -/
structure Board (Flash : Type) where
  chip : Chip Flash
  halted : Bool

/-- A call stopped where its reply is encoded leaves the table as the callback made it. -/
def serveChip (crypto : Crypto) (sdk : ParamArea Flash) (m : Chip Flash) :
    Input → Board Flash
  | .datagram a =>
    match Esp8266.stateMachine crypto sdk m a with
    | .error _ => ⟨m, true⟩
    | .ok (m, o) =>
      let called := runCallback (some (Esp8266.deviceCallBack a.panel)) a.cp o
      match sendReply crypto called with
      | .error _ => ⟨{ m with config := called.party.config, pair := called.party.pair }, true⟩
      | .ok sent => ⟨{ m with config := sent.1.config, pair := sent.1.pair }, false⟩
  | a =>
    match Esp8266.step crypto sdk m a with
    | .error _ => ⟨m, true⟩
    | .ok m => ⟨m, false⟩

def serveBoard (crypto : Crypto) (sdk : ParamArea Flash) (b : Board Flash) (a : Input) : Board Flash :=
  if b.halted then b else serveChip crypto sdk b.chip a

def boardTable (b : Board Flash) : List CfControl := b.chip.config.controlers

def boardCall (b : Board Flash) : Input → Option Call
  | .datagram a =>
    if b.halted = false ∧ b.chip.pair.state = .paired ∧ appCommand a.cp.cmd then some ⟨a.panel, a.cp⟩
    else none
  | _ => none

def boardFresh : Input → Option (List CfControl)
  | .init _ | .restart _ => some outletControls
  | _ => none

/-- The step as it is made, where it completes. -/
theorem serveChip_of_done {a : Input} {done : Chip Flash}
    (run : Esp8266.step crypto sdk m a = .ok done) : serveChip crypto sdk m a = ⟨done, false⟩ := by
  cases a with
  | datagram a =>
    simp only [Esp8266.step, Esp8266.chatFabricDevice, bind, Except.bind] at run
    split at run
    · cases run
    · rename_i made ran
      split at run
      · cases run
      · rename_i sent replied
        cases run
        simp [serveChip, ran, replied]
  | _ => simp only [serveChip, run]

theorem actOn_acted (panel : Panel) (cp : ChatPacket) (c : CfControl) (reply : ChatPacket) :
    (Esp8266.actOn panel cp c reply).1 = acted ⟨panel, cp⟩ c := by
  unfold Esp8266.actOn acted
  split
  · split
    · rfl
    · split <;> rfl
  · rfl

theorem deviceCallBackLoop_acted (panel : Panel) (cp : ChatPacket) (controls : List CfControl)
    (reply : ChatPacket) :
    (Esp8266.deviceCallBackLoop panel cp controls reply).1 = controls.map (acted ⟨panel, cp⟩) := by
  induction controls generalizing reply with
  | nil => rfl
  | cons c rest ih => simp [Esp8266.deviceCallBackLoop, ih, actOn_acted]

theorem called_table (panel : Panel) (cp : ChatPacket) (o : Outcome) :
    (runCallback (some (Esp8266.deviceCallBack panel)) cp o).party.config.controlers =
      if o.party.pair.state = .paired ∧ appCommand cp.cmd then
        o.party.config.controlers.map (acted ⟨panel, cp⟩)
      else o.party.config.controlers := by
  simp only [runCallback, callbackRuns, Option.isSome_some, true_and, decide_eq_true_eq]
  split
  · simp [Esp8266.deviceCallBack, deviceCallBackLoop_acted]
  · rfl

theorem commandSwitch_table {cp reply : ChatPacket} {handled : Esp8266.Handled Flash}
    (run : Esp8266.commandSwitch crypto sdk m cp reply = .ok handled) :
    handled.chip.config.controlers = m.config.controlers := by
  rcases Esp8266.commandSwitch_cases run with ⟨_, config, _, table, chip⟩ | ⟨_, pair, chip⟩
  · rw [chip]
    exact table
  · rw [chip]

theorem savedChip_table (sdk : ParamArea Flash) (previous : PairState) (m : Chip Flash) :
    (Esp8266.savedChip sdk previous m).config.controlers = m.config.controlers := by
  unfold Esp8266.savedChip
  split <;> rfl

structure Handed (m done : Chip Flash) (o : Outcome) : Prop where
  kept : done.config.controlers = m.config.controlers
  config : o.party.config = done.config
  pair : o.party.pair = done.pair

theorem stateMachine_handed {a : Esp8266.Received} {done : Chip Flash} {o : Outcome}
    (run : Esp8266.stateMachine crypto sdk m a = .ok (done, o)) : Handed m done o := by
  obtain ⟨_, config, pair, _⟩ := Esp8266.stateMachine_answered run
  refine ⟨?_, config, pair⟩
  unfold Esp8266.stateMachine at run
  split at run
  · cases run
    rfl
  · simp only [Esp8266.savePaired_eq, bind, Except.bind] at run
    split at run
    · cases run
    · rename_i handled switched
      cases run
      exact (savedChip_table sdk _ _).trans (commandSwitch_table switched)

theorem stateMachine_app (crypto : Crypto) (sdk : ParamArea Flash) (m : Chip Flash)
    {a : Esp8266.Received} (app : appCommand a.cp.cmd) :
    ∃ o, Esp8266.stateMachine crypto sdk m a = .ok (m, o) := by
  unfold Esp8266.stateMachine
  split
  · exact ⟨_, rfl⟩
  · obtain ⟨notGet, notSet⟩ := appCommand_config app
    simp only [Esp8266.commandSwitch_pair crypto sdk m _ notGet notSet,
      pairSwitch_app crypto m.config m.pair _ app, Esp8266.savePaired_eq, Esp8266.savedChip_same, bind,
      Except.bind]
    exact ⟨_, rfl⟩

theorem datagram_table (a : Esp8266.Received) :
    boardTable (serveChip crypto sdk m (.datagram a)) =
      if m.pair.state = .paired ∧ appCommand a.cp.cmd then
        m.config.controlers.map (acted ⟨a.panel, a.cp⟩)
      else m.config.controlers := by
  cases ran : Esp8266.stateMachine crypto sdk m a with
  | error f =>
    simp only [serveChip, ran]
    rw [if_neg]
    · rfl
    · rintro ⟨_, app⟩
      obtain ⟨o, ran'⟩ := stateMachine_app crypto sdk m app
      cases ran'.symm.trans ran
  | ok made =>
    obtain ⟨done, o⟩ := made
    have handed := stateMachine_handed ran
    have table : (runCallback (some (Esp8266.deviceCallBack a.panel)) a.cp o).party.config.controlers =
        if m.pair.state = .paired ∧ appCommand a.cp.cmd then
          m.config.controlers.map (acted ⟨a.panel, a.cp⟩)
        else m.config.controlers := by
      rw [called_table, handed.config, handed.pair, handed.kept]
      by_cases app : appCommand a.cp.cmd
      · obtain ⟨o', ran'⟩ := stateMachine_app crypto sdk m app
        cases ran'.symm.trans ran
        rfl
      · simp [app]
    simp only [serveChip, ran]
    split
    · exact table
    · rename_i sent replied
      have config := (sendReply_sends replied).config
      simp only [boardTable, config]
      exact table

theorem userInitStage2_table {boot : Esp8266.Boot} {flash : Flash} {done : Chip Flash}
    (run : Esp8266.userInitStage2 crypto sdk boot flash = .ok done) :
    done.config.controlers = outletControls := by
  obtain ⟨config, none, table, rfl | ⟨header, read⟩⟩ := Esp8266.userInitStage2_cases run
  · exact table
  · have saved := (Esp8266.started_consistent sdk boot flash none).saved
    obtain ⟨hasPairs, pair, rfl, _⟩ := Esp8266.cfPairRead_ok saved rfl header read
    exact table

theorem step_table {a : Input} {done : Chip Flash} (other : ∀ d, a ≠ .datagram d)
    (run : Esp8266.step crypto sdk m a = .ok done) :
    done.config.controlers = m.config.controlers ∨ boardFresh a = some done.config.controlers := by
  cases a with
  | datagram d => exact absurd rfl (other d)
  | unpair mynonce =>
    cases run
    exact .inl rfl
  | saveconfig =>
    rw [Esp8266.step, Esp8266.cfConfigWrite_eq] at run
    cases run
    exact .inl rfl
  | readconfig =>
    obtain ⟨config, _, table, rfl⟩ := Esp8266.cfConfigRead_ok run
    exact .inl table
  | debug on =>
    cases run
    exact .inl rfl
  | init boot =>
    simp only [Esp8266.step, Esp8266.cfConfigWrite_eq, bind, Except.bind] at run
    exact .inr (congrArg some (userInitStage2_table run).symm)
  | restart boot => exact .inr (congrArg some (userInitStage2_table run).symm)

theorem serveChip_idle {a : Input} (other : ∀ d, a ≠ .datagram d) :
    boardTable (serveChip crypto sdk m a) = m.config.controlers ∨
      boardFresh a = some (boardTable (serveChip crypto sdk m a)) := by
  cases run : Esp8266.step crypto sdk m a with
  | ok done =>
    rw [serveChip_of_done run]
    exact step_table other run
  | error f =>
    have ends : serveChip crypto sdk m a = ⟨m, true⟩ := by
      cases a with
      | datagram d => exact absurd rfl (other d)
      | _ => simp only [serveChip, run]
    rw [ends]
    exact .inl rfl

theorem board_machine (crypto : Crypto) (sdk : ParamArea Flash) :
    TableMachine (serveBoard crypto sdk) boardTable boardCall boardFresh := by
  constructor
  · intro b a k calls
    cases a with
    | datagram a =>
      simp only [boardCall] at calls
      split at calls
      · rename_i acts
        cases calls
        rw [serveBoard, if_neg (by simp [acts.1]), datagram_table, if_pos acts.2]
        rfl
      · cases calls
    | _ => cases calls
  · intro b a idle
    cases live : b.halted with
    | true => exact .inl (by rw [serveBoard, if_pos live])
    | false =>
      rw [serveBoard, if_neg (by simp [live])]
      cases a with
      | datagram a =>
        refine .inl ?_
        simp only [boardCall, live, true_and] at idle
        rw [datagram_table, if_neg]
        · rfl
        · intro acts
          simp [acts] at idle
      | _ => exact serveChip_idle (by simp)

theorem boardFresh_inRange {a : Input} {t : List CfControl} (laid : boardFresh a = some t) (i : Nat) :
    InRange i t := by
  have outlet : ∀ c ∈ outletControls, Admits c c.value := by
    simp [outletControls, Admits]
  have same : t = outletControls := by
    cases a <;> cases laid <;> rfl
  intro c here
  rw [same] at here
  exact outlet c (List.mem_of_getElem? here)

end Board

/-- In every run of either build, a control that starts in its range, and whose own function
    reads values in it, stays in it exactly when no packet the callback runs for sets it, where
    it is not read only, to a value outside. In every run a read only control changes only to
    what its function reads, and a packet that sets changes the controls it names alone. -/
theorem controls_in_range_iff (crypto : Crypto) :
    (∀ s inputs,
      (∀ i, InRange i (hostTable s) →
        ((∀ t ∈ states (ControlData.serve crypto) s inputs, InRange i (hostTable t)) ↔
          EveryStep (ControlData.serve crypto) (Moderate hostTable (hostCall crypto) i) s inputs)) ∧
      EveryStep (ControlData.serve crypto)
        (Respects (ControlData.serve crypto) hostTable (hostCall crypto) fun _ => none) s inputs) ∧
    (∀ (Flash : Type) (sdk : ParamArea Flash) (b : Board Flash) inputs,
      (∀ i, InRange i (boardTable b) →
        EveryStep (serveBoard crypto sdk) (Reads boardTable boardCall i) b inputs →
        ((∀ t ∈ states (serveBoard crypto sdk) b inputs, InRange i (boardTable t)) ↔
          EveryStep (serveBoard crypto sdk) (Moderate boardTable boardCall i) b inputs)) ∧
      EveryStep (serveBoard crypto sdk)
        (Respects (serveBoard crypto sdk) boardTable boardCall boardFresh) b inputs) := by
  constructor
  · intro s inputs
    refine ⟨fun i start => ?_, (host_machine crypto).every_step_respects s inputs⟩
    have reads : ∀ s a, True → Reads hostTable (hostCall crypto) i s a :=
      fun s a _ => host_reads crypto i s a
    apply (host_machine crypto).inRange_iff _ start
    · exact every_step (fun _ _ _ => trivial) reads trivial inputs
    · intro a t laid
      cases laid
  · intro Flash sdk b inputs
    refine ⟨fun i start reads => ?_, (board_machine crypto sdk).every_step_respects b inputs⟩
    exact (board_machine crypto sdk).inRange_iff (fun a t laid => boardFresh_inRange laid i) start reads

def setSwitch (value : UInt32) : ControlData.Arrival :=
  ⟨Authentication.world, default,
    Tag.cmd.toByte :: be32 Command.appMessage.toCode ++
    Tag.to0.toByte :: List.replicate 16 7 ++ Tag.to1.toByte :: List.replicate 16 8 ++
    Tag.action.toByte :: be32 actionSet ++ Tag.actionControl.toByte :: be32 0 ++
    Tag.actionValue.toByte :: be32 value⟩

def outlet : Board (Block Esp8266.imageSize) where
  chip := ⟨{ (default : ChatFabricConfig) with controlers := outletControls },
    { zeroPairing with state := .paired }, .zero _, .zero _⟩
  halted := false

def readAdc : Input :=
  .datagram {
    cp := { chatPacketInit0 default with
      cmd := .appMessage
      action := actionGet
      actionControl := 2 }
    reply := chatPacketInit0 default
    replyCmd := .sendReplyFalse
    panel := ⟨fun c => c.type = 3, fun c => if c.type = 3 then some 512 else none⟩ }

def paired : ControlData.Serving := ⟨ControlData.pairedDevice [], [], false⟩

theorem switch_inRange : InRange 0 (hostTable paired) := by
  intro c here
  simp only [hostTable, paired, ControlData.pairedDevice, ControlData.controlTable,
    List.getElem?_cons_zero, Option.some.injEq] at here
  subst here
  exact ⟨by decide, by decide⟩

theorem setSwitch_moderate :
    EveryStep (ControlData.serve default) (Moderate hostTable (hostCall default) 0) paired
      [setSwitch 1] := by
  refine ⟨?_, trivial⟩
  intro k calls
  have value : (hostCall default paired (setSwitch 1)).map (fun k => k.cp.actionValue) = some 1 := by
    decide +kernel
  rw [calls, Option.map_some, Option.some.injEq] at value
  rintro ⟨_, c, here, _, _, outside⟩
  simp only [hostTable, paired, ControlData.pairedDevice, ControlData.controlTable,
    List.getElem?_cons_zero, Option.some.injEq] at here
  subst here
  rw [value] at outside
  exact outside ⟨by decide, by decide⟩

theorem controls_in_range_iff_outlet :
    (∀ t ∈ states (ControlData.serve default) paired [setSwitch 1], InRange 0 (hostTable t)) ∧
    (∀ t ∈ states (serveBoard default Esp8266.cell) outlet [readAdc], InRange 2 (boardTable t)) := by
  obtain ⟨host, board⟩ := controls_in_range_iff default
  refine ⟨((host paired [setSwitch 1]).1 0 switch_inRange).mpr setSwitch_moderate, ?_⟩
  have start : InRange 2 (boardTable outlet) := by
    intro c here
    cases here
    exact ⟨by decide, by decide⟩
  have reads : EveryStep (serveBoard default Esp8266.cell) (Reads boardTable boardCall 2) outlet
      [readAdc] := by
    refine ⟨?_, trivial⟩
    intro k calls c v here read
    cases calls
    cases here
    cases read
    exact ⟨by decide, by decide⟩
  refine ((board _ Esp8266.cell outlet [readAdc]).1 2 start reads).mpr ⟨?_, trivial⟩
  intro k calls oversets
  cases calls
  exact absurd oversets.action (by decide)

theorem switch_leaves_range :
    ¬ ∀ config random configFile pairFile junk p inputs i,
      ControlData.programStart default config random configFile pairFile junk = .ok p →
      InRange i (hostTable ⟨p, [], false⟩) →
      ∀ t ∈ states (ControlData.serve default) ⟨p, [], false⟩ inputs, InRange i (hostTable t) := by
  intro stays
  have last := stays Authentication.lamp (.zero 8) none (some (pairBytes default))
    (ControlData.memory []) (ControlData.pairedDevice []) [setSwitch 7] 0
    (ControlData.pairedDevice_started []) switch_inRange
    (run (ControlData.serve default) paired [setSwitch 7])
    (mem_states_iff.mpr ⟨_, [], by simp, rfl⟩)
  have seven : (hostTable (run (ControlData.serve default) paired [setSwitch 7]))[0]?.map
      (fun c => (c.value, c.rangeHigh)) = some (7, 1) := by decide +kernel
  cases here : (hostTable (run (ControlData.serve default) paired [setSwitch 7]))[0]? with
  | none => simp [here] at seven
  | some c =>
    have within := (last c here).2
    simp only [here, Option.map_some, Option.some.injEq, Prod.mk.injEq] at seven
    rw [seven.1, seven.2] at within
    exact absurd within (by decide)

end ControlRanges
