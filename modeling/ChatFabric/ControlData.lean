import ChatFabric.Authentication
import ChatFabric.Runs

/- The data of the device's controls over a run of the program. The value of such a control
   is the number of its bytes that are sent, and whoever sets the value sets that number. -/
namespace ControlData
open ByteStrings Runs ChatFabric Authentication

/-- The types main gives its first three controls. -/
def actionTypeBoolean : UInt32 := 1
def actionTypeDimmer : UInt32 := 2
def actionTypeGauge : UInt32 := 3

def switchLabel : Bytes := [115, 119, 105, 116, 99, 104, 48]
def dimmerLabel : Bytes := [68, 105, 109, 109, 101, 114, 48]
def gaugeLabel : Bytes := [71, 97, 117, 103, 101, 48, 32, 45, 32, 84, 101, 109, 112, 32, 40, 70, 41]
def binaryLabel : Bytes := [66, 105, 110, 97, 114, 121, 32, 68, 97, 116, 97]

/-- main's table of controls. What malloc left in it stays where nothing is assigned: the
    range of the last control, and every pointer to data. -/
def controlTable (junk : Nat → CfControl) : List CfControl :=
  [{ junk 0 with
      control := 0, type := actionTypeBoolean, value := 0, label := some switchLabel
      labelLength := 7, rangeLow := 0, rangeHigh := 1 },
   { junk 1 with
      control := 1, type := actionTypeDimmer, value := 0, label := some dimmerLabel
      labelLength := 7, rangeLow := 0, rangeHigh := 7 },
   { junk 2 with
      control := 2, type := actionTypeGauge, value := 0, label := some gaugeLabel
      labelLength := 17, rangeLow := -200, rangeHigh := 300 },
   { junk 3 with
      control := 3, type := actionTypeData, value := 0, label := some binaryLabel
      labelLength := 11 }]

def programStart (crypto : Crypto) (config : ChatFabricConfig) (random : Block 8)
    (configFile pairFile : Option Bytes) (junk : Nat → CfControl) : Except Fault Party := do
  let p ← deviceStart crypto config random configFile pairFile
  .ok { p with config.controlers := controlTable junk, config.debug := 1 }

def copied (c : CfControl) : Nat :=
  ((controlFields c).map fun
    | (tag, .data8 _ len) => if tag = Tag.appControlData.toByte then len.toNat else 0
    | _ => 0).sum

def held (c : CfControl) : Nat := (c.data.getD []).length

/-- The device, the controls the last reply listed, and whether the program has come to an
    end: nothing is said of it past a fault. -/
structure Serving where
  party : Party
  listed : List CfControl
  halted : Bool

structure Arrival where
  w : World
  b : MsgBuffer
  datagram : Bytes

def listedBy (called : Outcome) : List CfControl :=
  if called.replyCmd = .sendReplyTrue then
    match listedControls called.reply with
    | .ok controls => controls
    | .error _ => []
  else []

/-- A call, stopped where its reply is encoded; the encoding may be its end. -/
def serve (crypto : Crypto) (s : Serving) (a : Arrival) : Serving :=
  if s.halted then s
  else match receivePacket crypto a.w s.party.pair { a.b with length := 0 } a.datagram with
  | .error _ => ⟨s.party, [], true⟩
  | .ok (cp, _) =>
    match stateMachine crypto a.w.files s.party cp (chatPacketInit0 a.w.replyRandom) a.w.replyCmd with
    | .error _ => ⟨s.party, [], true⟩
    | .ok o =>
      let called := runCallback (some deviceCallBack) cp o
      match sendReply crypto called with
      | .error _ => ⟨called.party, listedBy called, true⟩
      | .ok sent => ⟨sent.1, listedBy called, false⟩

/-- The call as it is made, where it completes. -/
theorem serve_of_done {crypto : Crypto} {s : Serving} {a : Arrival} {done : DeviceDone}
    (live : s.halted = false)
    (run : chatFabricDevice crypto (some deviceCallBack) a.w s.party a.b a.datagram = .ok done) :
    (serve crypto s a).party = done.party ∧ (serve crypto s a).halted = false := by
  obtain ⟨cp, received, decoded, handled⟩ := chatFabricDevice_ok_iff.mp run
  obtain ⟨o, sent, ran, replied, rfl⟩ := handlePacket_ok handled
  simp [serve, live, decoded, ran, replied]

def Within (s : Serving) : Prop :=
  ∀ c ∈ s.party.config.controlers ++ s.listed, c.type = actionTypeData → copied c ≤ held c

/-- A packet that sets the length of some data beyond its end. -/
structure Overdraws (p : Party) (cp : ChatPacket) : Prop where
  paired : p.pair.state = .paired
  cmd : appCommand cp.cmd
  action : cp.action = actionSet
  control : ∃ c ∈ p.config.controlers, c.control = cp.actionControl ∧ c.type = actionTypeData ∧
    ∃ d, c.data = some d ∧ (d.length : Int) < cp.actionValue.toInt

/-- A step that does not receive one. -/
def Modest (crypto : Crypto) (s : Serving) (a : Arrival) : Prop :=
  s.halted = false → ∀ cp b,
    receivePacket crypto a.w s.party.pair { a.b with length := 0 } a.datagram = .ok (cp, b) →
      ¬ Overdraws s.party cp

variable {crypto : Crypto} {cp : ChatPacket} {c : CfControl}

theorem copied_eq (c : CfControl) : copied c =
    if c.type = actionTypeData ∧ 0 < c.value ∧ c.data ≠ none then c.value.toUInt32.toNat else 0 := by
  have label : Tag.appControlLabel.toByte ≠ Tag.appControlData.toByte := by decide
  unfold copied controlFields tagInt32 tagData8
  split <;> split <;> simp [label]

theorem within_iff (data : c.type = actionTypeData) :
    copied c ≤ held c ↔ ∀ d, c.data = some d → c.value.toInt ≤ d.length := by
  rw [copied_eq, held]
  cases here : c.data with
  | none => simp
  | some d =>
    by_cases positive : 0 < c.value
    · have number := toNat_of_positive positive
      simp only [data, positive, ne_eq, reduceCtorEq, not_false_eq_true, and_self, if_true,
        Option.getD_some, Option.some.injEq, forall_eq']
      omega
    · have below : c.value.toInt ≤ 0 := by
        by_contra above
        exact positive (Int32.lt_iff_toInt_lt.mpr (by simpa using above))
      simp only [positive, false_and, and_false, if_false, Nat.zero_le, Option.some.injEq,
        forall_eq', true_iff]
      omega

@[simp] theorem setValue_type (cp : ChatPacket) (c : CfControl) : (setValue cp c).type = c.type := by
  unfold setValue
  split <;> rfl

@[simp] theorem setValue_data (cp : ChatPacket) (c : CfControl) : (setValue cp c).data = c.data := by
  unfold setValue
  split <;> rfl

theorem within_set (data : c.type = actionTypeData) (before : copied c ≤ held c) :
    copied (setValue cp c) ≤ held (setValue cp c) ↔
      ¬ (c.control = cp.actionControl ∧ cp.action = actionSet ∧
        ∃ d, c.data = some d ∧ (d.length : Int) < cp.actionValue.toInt) := by
  rw [within_iff (by simpa using data), setValue_data]
  rw [within_iff data] at before
  by_cases sets : c.control = cp.actionControl ∧ cp.action = actionSet
  · simp [setValue, sets]
  · simp only [setValue, sets, if_false]
    refine iff_of_true before ?_
    rintro ⟨control, action, _⟩
    exact sets ⟨control, action⟩

theorem called_lists {w : World} {p : Party} {reply : ChatPacket} {replyCmd : Command} {o : Outcome}
    (unlisted : reply.controlers = none)
    (ran : stateMachine crypto w.files p cp reply replyCmd = .ok o) :
    Lists (runCallback (some deviceCallBack) cp o).party.config
      (runCallback (some deviceCallBack) cp o).reply := by
  cases runs : callbackRuns (some deviceCallBack) o.party.pair cp with
  | false =>
    obtain ⟨same, lists⟩ := stateMachine_controlers unlisted ran
    rw [runCallback_idle o runs]
    intro table listed
    exact (lists table listed).trans same.symm
  | true =>
    intro table listed
    simp only [runCallback, runs, if_true, deviceCallBack] at listed ⊢
    obtain ⟨_, _, same⟩ := Option.map_eq_some_iff.mp listed
    exact same.symm

theorem mem_listedBy {called : Outcome} (lists : Lists called.party.config called.reply) :
    ∀ c ∈ listedBy called, c ∈ called.party.config.controlers := by
  intro c member
  unfold listedBy listedControls at member
  split at member
  · cases table : called.reply.controlers with
    | none =>
      simp only [table] at member
      split at member
      · rename_i listed
        split at listed <;> cases listed
        cases member
      · cases member
    | some controls =>
      rw [← lists controls table]
      simp only [table] at member
      split at member
      · rename_i listed
        split at listed
        · split at listed
          · cases listed
            exact List.mem_of_mem_take member
          · cases listed
        · cases listed
          cases member
      · cases member
  · cases member

structure Acts (cp : ChatPacket) (s t : Serving) : Prop where
  controlers : t.party.config.controlers =
    if s.party.pair.state = .paired ∧ appCommand cp.cmd then
      s.party.config.controlers.map (setValue cp)
    else s.party.config.controlers
  listed : ∀ c ∈ t.listed, c ∈ t.party.config.controlers

theorem serve_acts {s : Serving} {a : Arrival} {b : MsgBuffer} (live : s.halted = false)
    (decoded : receivePacket crypto a.w s.party.pair { a.b with length := 0 } a.datagram =
      .ok (cp, b)) : Acts cp s (serve crypto s a) := by
  simp only [serve, live, decoded, Bool.false_eq_true, if_false]
  cases ran : stateMachine crypto a.w.files s.party cp (chatPacketInit0 a.w.replyRandom)
      a.w.replyCmd with
  | error f =>
    refine ⟨?_, by simp⟩
    rw [if_neg]
    rintro ⟨_, app⟩
    obtain ⟨o, ran', _⟩ := stateMachine_app crypto a.w.files s.party
      (chatPacketInit0 a.w.replyRandom) a.w.replyCmd app
    cases ran'.symm.trans ran
  | ok o =>
    have controlers := called_controlers rfl ran
    have lists := mem_listedBy (called_lists rfl ran)
    simp only
    split
    · exact ⟨controlers, lists⟩
    · rename_i sent replied
      have config := (sendReply_sends replied).config
      exact ⟨by rw [config]; exact controlers, by rw [config]; exact lists⟩

theorem within_iff_table {s : Serving} (listed : ∀ c ∈ s.listed, c ∈ s.party.config.controlers) :
    Within s ↔ ∀ c ∈ s.party.config.controlers, c.type = actionTypeData → copied c ≤ held c := by
  constructor
  · intro within c member
    exact within c (List.mem_append_left _ member)
  · intro within c member
    rcases List.mem_append.mp member with here | there
    · exact within c here
    · exact within c (listed c there)

theorem serve_within {s : Serving} (within : Within s) (a : Arrival) :
    Within (serve crypto s a) ↔ Modest crypto s a := by
  have table : ∀ c ∈ s.party.config.controlers, c.type = actionTypeData → copied c ≤ held c :=
    fun c member => within c (List.mem_append_left _ member)
  cases live : s.halted with
  | true => simpa [serve, Modest, live] using within
  | false =>
    cases decoded : receivePacket crypto a.w s.party.pair { a.b with length := 0 } a.datagram with
    | error halt =>
      refine iff_of_true ?_ ?_
      · simpa [serve, live, decoded, Within] using table
      · intro _ cp b received
        cases decoded.symm.trans received
    | ok received =>
      obtain ⟨cp, b⟩ := received
      have acts := serve_acts live decoded
      have modest : Modest crypto s a ↔ ¬ Overdraws s.party cp := by
        simp [Modest, live, decoded]
      rw [within_iff_table acts.listed, modest, acts.controlers]
      split
      · rename_i runs
        constructor
        · rintro kept ⟨_, _, action, c, member, control, data, beyond⟩
          have after := kept (setValue cp c) (List.mem_map_of_mem member) (by simpa using data)
          exact (within_set data (table c member data)).mp after ⟨control, action, beyond⟩
        · intro modest c member data
          obtain ⟨before, here, rfl⟩ := List.mem_map.mp member
          rw [setValue_type] at data
          refine (within_set data (table before here data)).mpr ?_
          rintro ⟨control, action, beyond⟩
          exact modest ⟨runs.1, runs.2, action, before, here, control, data, beyond⟩
      · rename_i idle
        exact iff_of_true table fun overdraws => idle ⟨overdraws.paired, overdraws.cmd⟩

theorem start_within {config : ChatFabricConfig} {random : Block 8} {configFile pairFile : Option Bytes}
    {junk : Nat → CfControl} {p : Party}
    (started : programStart crypto config random configFile pairFile junk = .ok p) :
    Within ⟨p, [], false⟩ := by
  simp only [programStart, bind, Except.bind] at started
  split at started
  · cases started
  · cases started
    have empty : ∀ c ∈ controlTable junk, copied c ≤ held c := by
      simp [controlTable, copied_eq]
    intro c member _
    exact empty c (by simpa using member)

/-- In every run from main's table no data is sent that a control does not hold, exactly when
    no packet that a paired device acts on sets the value of such a control beyond its data. -/
theorem within_iff_modest (crypto : Crypto) (config : ChatFabricConfig) (random : Block 8)
    (configFile pairFile : Option Bytes) (junk : Nat → CfControl) {p : Party}
    (started : programStart crypto config random configFile pairFile junk = .ok p)
    (inputs : List Arrival) :
    (∀ s ∈ states (serve crypto) ⟨p, [], false⟩ inputs, Within s) ↔
      EveryStep (serve crypto) (Modest crypto) ⟨p, [], false⟩ inputs := by
  have step : ∀ s a, True → Within s → (Within (serve crypto s a) ↔ Modest crypto s a) :=
    fun _ a _ within => serve_within within a
  have start : Within ⟨p, [], false⟩ := start_within started
  exact every_state_iff_every_step (fun _ _ _ _ => trivial) step trivial start inputs

def memory (d : Bytes) (_ : Nat) : CfControl := ⟨0, 0, 0, 0, 0, 0, none, some d⟩

def pairedDevice (d : Bytes) : Party :=
  { pairedLamp with config := { pairedLamp.config with controlers := controlTable (memory d), debug := 1 } }

theorem pairedDevice_started (d : Bytes) :
    programStart default lamp (.zero 8) none (some (pairBytes default)) (memory d) =
      .ok (pairedDevice d) := by
  simp only [programStart, deviceStart, cfPairRead_written, bind, Except.bind]
  rfl

def setOne : Arrival := ⟨world, default, clearSet 3⟩

def askList : Arrival := ⟨world, default,
  Tag.cmd.toByte :: be32 Command.appList.toCode ++
  Tag.to0.toByte :: List.replicate 16 7 ++ Tag.to1.toByte :: List.replicate 16 8⟩

theorem within_iff_modest_one :
    Within (run (serve default) ⟨pairedDevice [104], [], false⟩ [setOne]) := by
  refine (within_iff_modest default lamp (.zero 8) none (some (pairBytes default)) (memory [104])
    (pairedDevice_started [104]) [setOne]).mpr ⟨?_, trivial⟩ _
      (mem_states_iff.mpr ⟨[setOne], [], rfl, rfl⟩)
  intro _ cp b received
  have packet : (receivePacket default world (pairedDevice [104]).pair
      { (default : MsgBuffer) with length := 0 } (clearSet 3)).map Prod.fst =
        .ok (clearPacket 3) := by decide +kernel
  simp only [setOne] at received
  rw [received] at packet
  cases packet
  rintro ⟨_, _, _, c, member, control, _, d, data, beyond⟩
  have all : ∀ c ∈ controlTable (memory [104]), c.data = some [104] := by
    simp [controlTable, memory]
  rw [all c member] at data
  cases data
  exact absurd beyond (by decide)

theorem list_overreads :
    ¬ ∀ config random configFile pairFile junk p inputs,
      programStart default config random configFile pairFile junk = .ok p →
      ∀ s ∈ states (serve default) ⟨p, [], false⟩ inputs, Within s := by
  intro within
  have last := within lamp (.zero 8) none (some (pairBytes default)) (memory []) (pairedDevice [])
    [setOne, askList] (pairedDevice_started [])
    (run (serve default) ⟨pairedDevice [], [], false⟩ [setOne, askList])
    (mem_states_iff.mpr ⟨_, [], by simp, rfl⟩)
  have listed : ¬ ∀ c ∈ (run (serve default) ⟨pairedDevice [], [], false⟩ [setOne, askList]).listed,
      c.type = actionTypeData → copied c ≤ held c := by decide +kernel
  exact listed fun c member => last c (List.mem_append_right _ member)

end ControlData
