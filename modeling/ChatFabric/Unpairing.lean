import ChatFabric.DeviceSteps
import ChatFabric.ImageParts
import ChatFabric.Runs

/- The shell command unpair of the ESP8266 build. It clears the record in RAM. The record in
   the image stays, goes into the flash with every config that is saved, and is what the next
   start reads. -/
namespace Esp8266
open ChatFabric ByteStrings TagStream Runs ConfigRoundTrip

variable {Flash : Type} {crypto : Crypto} {sdk : ParamArea Flash} {m : Chip Flash}

def HoldsPair (image : Block imageSize) : Prop :=
  headed image pairStart = true ∧ ∃ r q, r.pair.state = .unconfigured ∧ readPair image r = .ok q ∧
    q.value.pair.state = .paired

/-- Only what is stored of the state, and the key, decide the state that is read. -/
theorem cfPairCase_state {b : UInt8} {width : Nat} {put : Bytes → PairReading → PairReading}
    (known : cfPairCase b = .field width put) (field : Bytes) {r q : PairReading}
    (same : r.pair.state = q.pair.state) : (put field r).pair.state = (put field q).pair.state := by
  unfold cfPairCase at known
  split at known
  · cases known
  · rename_i tag _ _
    cases tag <;> cases known <;> simp [same]
  · cases known

theorem HoldsPair.read {image other : Block imageSize} (holds : HoldsPair image)
    (tail : other.val.drop pairStart = image.val.drop pairStart) {r : PairReading}
    (fresh : r.pair.state = .unconfigured) :
    ∃ q, readPair other r = .ok q ∧ q.value.pair.state = .paired := by
  obtain ⟨_, start, stop, unconfigured, run, paired⟩ := holds
  have sizes : other.val.length = image.val.length := by simp
  obtain ⟨q, reads, state⟩ := readFrom_related (R := fun r q => r.pair.state = q.pair.state) tail sizes
    (fun _ _ _ known field _ _ same => cfPairCase_state known field same)
    (unconfigured.trans fresh.symm) run
  exact ⟨q, reads, state.symm.trans paired⟩

theorem HoldsPair.kept {image other : Block imageSize} (holds : HoldsPair image)
    (tail : other.val.drop pairStart = image.val.drop pairStart) : HoldsPair other := by
  obtain ⟨header, start, _, unconfigured, _⟩ := id holds
  obtain ⟨q, reads, paired⟩ := holds.read tail unconfigured
  rw [headed_eq, ← tail, ← headed_eq] at header
  exact ⟨header, start, q, unconfigured, reads, paired⟩

/-- The record cfPairWrite puts into the image is one that is read as paired, whatever its
    own state. -/
theorem holdsPair_stored (image : Block imageSize) (pair : ChatFabricPairing) :
    HoldsPair (image.patch pairStart (pairBytes pair)) := by
  have here := Block.drop_patch_start image (pairBytes_fit pair)
  refine ⟨?_, _, _, rfl, readPair_stored here default default ⟨0, zeroPairing⟩, rfl⟩
  rw [headed_eq, here]
  rfl

/-- The image is the one in the flash, it starts with a config that can be read, and where the
    record is paired, it holds a paired record. -/
structure Consistent (sdk : ParamArea Flash) (m : Chip Flash) : Prop where
  saved : sdk.load m.flash = m.flashConfig
  noIpv6 : NoIpv6 m.config
  config : ∃ c, NoIpv6 c ∧ fileBytes c <+: m.flashConfig.val
  pair : m.pair.state = .paired → HoldsPair m.flashConfig

theorem Consistent.configStored (consistent : Consistent sdk m) :
    Consistent sdk (store sdk m 0 (fileBytes m.config)) := by
  obtain ⟨front, tail⟩ := config_in_front m.flashConfig m.config
  exact ⟨sdk.load_save _ _, consistent.noIpv6, ⟨m.config, consistent.noIpv6, front⟩,
    fun paired => (consistent.pair paired).kept tail⟩

theorem Consistent.pairStored (consistent : Consistent sdk m) {config : ChatFabricConfig}
    (same : unread config = unread m.config) (pair : ChatFabricPairing) :
    Consistent sdk (store sdk { m with config := config, pair := pair } pairStart (pairBytes pair)) := by
  obtain ⟨c, none, front⟩ := consistent.config
  refine ⟨sdk.load_save _ _, consistent.noIpv6.of_unread same, ⟨c, none, ?_⟩,
    fun _ => holdsPair_stored _ _⟩
  have short : (fileBytes c).length ≤ pairStart := by
    rw [length_fileBytes]
    decide
  have before : fileBytes c <+: m.flashConfig.val.take pairStart :=
    List.prefix_take_iff.mpr ⟨front, short⟩
  rw [store, Block.patch_val _ (pairBytes_fit pair), List.append_assoc]
  exact before.trans (List.prefix_append _ _)

theorem Consistent.changed (consistent : Consistent sdk m) {pair : ChatFabricPairing}
    {config : ChatFabricConfig} (same : unread config = unread m.config)
    (entered : pair.state = .paired → m.pair.state = .paired) :
    Consistent sdk { m with config := config, pair := pair } :=
  ⟨consistent.saved, consistent.noIpv6.of_unread same, consistent.config,
    fun paired => consistent.pair (entered paired)⟩

inductive Answered (sdk : ParamArea Flash) (m : Chip Flash) : Chip Flash → Prop where
  | kept (pair : ChatFabricPairing)
      (entered : pair.state = .paired → m.pair.state = .paired) : Answered sdk m { m with pair := pair }
  | set (config : ChatFabricConfig) (same : unread config = unread m.config) :
      Answered sdk m (store sdk { m with config := config } 0 (fileBytes config))
  | paired (pair : ChatFabricPairing) (paired : pair.state = .paired) :
      Answered sdk m
        (store sdk { m with config.hasPairs := 1, pair := pair } pairStart (pairBytes pair))

def savedChip (sdk : ParamArea Flash) (previous : PairState) (m : Chip Flash) : Chip Flash :=
  if m.pair.state ≠ previous ∧ m.pair.state = .paired then
    store sdk { m with config.hasPairs := 1 } pairStart (pairBytes m.pair)
  else m

theorem savePaired_eq (sdk : ParamArea Flash) (previous : PairState) (m : Chip Flash) :
    savePaired sdk previous m = .ok (savedChip sdk previous m) := by
  unfold savePaired savedChip
  split
  · rw [cfPairWrite_eq]
  · rfl

theorem savedChip_answered (sdk : ParamArea Flash) (m : Chip Flash) (pair : ChatFabricPairing) :
    Answered sdk m (savedChip sdk m.pair.state { m with pair := pair }) := by
  unfold savedChip
  split
  · rename_i entered
    exact .paired pair entered.2
  · rename_i stays
    refine .kept pair fun paired => ?_
    by_contra other
    exact stays ⟨fun same => other (same ▸ paired), paired⟩

theorem savedChip_same (sdk : ParamArea Flash) (m : Chip Flash) : savedChip sdk m.pair.state m = m :=
  if_neg fun entered => entered.1 rfl

theorem commandSwitch_pair (crypto : Crypto) (sdk : ParamArea Flash) (m : Chip Flash) {cp : ChatPacket}
    (reply : ChatPacket) (notGet : cp.cmd ≠ .configGet) (notSet : cp.cmd ≠ .configSet) :
    commandSwitch crypto sdk m cp reply =
      .ok ⟨{ m with pair := (pairSwitch crypto m.config cp m.pair reply).pair },
        (pairSwitch crypto m.config cp m.pair reply).reply,
        (pairSwitch crypto m.config cp m.pair reply).retval⟩ := by
  unfold commandSwitch
  split
  · rename_i get
    exact absurd get notGet
  · rename_i set
    exact absurd set notSet
  · rfl

theorem commandSwitch_cases {cp reply : ChatPacket} {handled : Handled Flash}
    (run : commandSwitch crypto sdk m cp reply = .ok handled) :
    (cp.cmd = .configSet ∧ ∃ config, unread config = unread m.config ∧
      config.controlers = m.config.controlers ∧
      handled.chip = store sdk { m with config := config } 0 (fileBytes config)) ∨
    (cp.cmd ≠ .configSet ∧ ∃ pair, handled.chip = { m with pair := pair }) := by
  unfold commandSwitch at run
  split at run
  · rename_i get
    simp only [createConfigString_eq, bind, Except.bind] at run
    cases run
    exact .inr ⟨by simp [get], m.pair, rfl⟩
  · rename_i set
    simp only [bind, Except.bind, cfConfigWrite_eq] at run
    split at run
    · cases run
    · rename_i config read
      cases run
      exact .inl ⟨set, config, read_keeps_unread read, cfConfigSetFromStr_controlers read, rfl⟩
  · rename_i notSet
    cases run
    exact .inr ⟨notSet, _, rfl⟩

theorem stateMachine_answered {a : Received} {done : Chip Flash} {o : Outcome}
    (run : stateMachine crypto sdk m a = .ok (done, o)) :
    Answered sdk m done ∧ o.party.config = done.config ∧ o.party.pair = done.pair ∧
      (a.cp.cmd = .configSet → done.pair = m.pair) := by
  unfold stateMachine at run
  split at run
  · cases run
    exact ⟨.kept m.pair id, rfl, rfl, fun _ => rfl⟩
  · simp only [savePaired_eq, bind, Except.bind] at run
    split at run
    · cases run
    · rename_i handled switched
      cases run
      rcases commandSwitch_cases switched with ⟨set, config, same, _, chip⟩ | ⟨notSet, pair, chip⟩
      · have stays : savedChip sdk m.pair.state handled.chip =
            store sdk { m with config := config } 0 (fileBytes config) := by
          rw [chip]
          exact savedChip_same sdk (store sdk { m with config := config } 0 (fileBytes config))
        rw [stays]
        exact ⟨.set config same, rfl, rfl, fun _ => rfl⟩
      · rw [chip]
        exact ⟨savedChip_answered sdk m pair, rfl, rfl, fun set => absurd set notSet⟩

theorem runCallback_panel (panel : Panel) (cp : ChatPacket) (o : Outcome) :
    let called := (runCallback (some (deviceCallBack panel)) cp o).party
    called.pair = o.party.pair ∧ unread called.config = unread o.party.config := by
  simp only [runCallback]
  split
  · exact ⟨rfl, rfl⟩
  · exact ⟨rfl, rfl⟩

/-- The reply counts the serial on, and the callback sets controls; neither is stored. -/
theorem chatFabricDevice_answered {a : Received} {done : Chip Flash}
    (run : chatFabricDevice crypto sdk m a = .ok done) :
    ∃ answered pair config, Answered sdk m answered ∧
      done = { answered with config := config, pair := pair } ∧
      unread config = unread answered.config ∧ pair.state = answered.pair.state ∧
      (a.cp.cmd = .configSet → answered.pair = m.pair) := by
  simp only [chatFabricDevice, bind, Except.bind] at run
  split at run
  · cases run
  · rename_i made ran
    obtain ⟨answered, o⟩ := made
    obtain ⟨step, config, pair, set⟩ := stateMachine_answered ran
    split at run
    · cases run
    · rename_i sent replied
      cases run
      obtain ⟨samePair, sameConfig⟩ := runCallback_panel a.panel a.cp o
      have sends := sendReply_sends replied
      refine ⟨answered, _, _, step, rfl, ?_, ?_, set⟩
      · rw [sends.config, sameConfig, config]
      · rw [sends.state, samePair, pair]

theorem Answered.consistent {done : Chip Flash} (answered : Answered sdk m done)
    (consistent : Consistent sdk m) : Consistent sdk done := by
  cases answered with
  | kept pair entered => exact consistent.changed rfl entered
  | set config same => exact (consistent.changed same id).configStored
  | paired pair _ =>
    have same : unread { m.config with hasPairs := 1 } = unread m.config := rfl
    exact consistent.pairStored same pair

theorem chatFabricDevice_consistent {a : Received} {done : Chip Flash} (consistent : Consistent sdk m)
    (run : chatFabricDevice crypto sdk m a = .ok done) : Consistent sdk done := by
  obtain ⟨answered, pair, config, step, rfl, same, state, _⟩ := chatFabricDevice_answered run
  exact (step.consistent consistent).changed same (state ▸ id)

theorem cfConfigRead_ok {done : Chip Flash} (run : cfConfigRead sdk m = .ok done) :
    ∃ config, unread config = unread m.config ∧ config.controlers = m.config.controlers ∧
      done = { m with config := config, flashConfig := sdk.load m.flash } := by
  simp only [cfConfigRead] at run
  split at run
  · simp only [bind, Except.bind] at run
    split at run
    · cases run
    · rename_i config read
      cases run
      exact ⟨config, read_keeps_unread read, cfConfigRead_controlers read, rfl⟩
  · cases run
    exact ⟨m.config, rfl, rfl, rfl⟩

theorem cfConfigRead_consistent {done : Chip Flash} (consistent : Consistent sdk m)
    (run : cfConfigRead sdk m = .ok done) : Consistent sdk done := by
  obtain ⟨config, same, _, rfl⟩ := cfConfigRead_ok run
  rw [consistent.saved]
  exact consistent.changed same id

theorem Consistent.configRead (consistent : Consistent sdk m) (config : ChatFabricConfig)
    (pair : ChatFabricPairing) (image : Block imageSize) :
    ∃ done, cfConfigRead sdk ⟨config, pair, image, m.flash⟩ = .ok done := by
  obtain ⟨c, none, front⟩ := consistent.config
  have long : ((fileBytes c).length : Int) ≤ imageSize := by
    rw [length_fileBytes]
    decide
  have read := read_fileBytes none.tagFree config front long
  have reads : ChatFabric.cfConfigRead config m.flashConfig.val imageSize = .ok (readBack c config) :=
    read
  simp only [cfConfigRead, consistent.saved, bind, Except.bind, reads]
  split
  · exact ⟨_, rfl⟩
  · exact ⟨_, rfl⟩

theorem cfPairRead_ok {done : Chip Flash} (saved : sdk.load m.flash = m.flashConfig)
    (fresh : m.pair.state = .unconfigured) (header : headed m.flashConfig pairStart = true)
    (run : cfPairRead crypto sdk m = .ok done) :
    ∃ hasPairs pair, done = { m with config.hasPairs := hasPairs, pair := pair } ∧
      (pair.state = .paired → HoldsPair m.flashConfig) := by
  simp only [cfPairRead, saved] at run
  split at run
  · split at run
    · rename_i q read
      cases run
      exact ⟨_, _, rfl, fun paired => ⟨header, _, q, fresh, read, paired⟩⟩
    · cases run
  · cases run
    exact ⟨_, m.pair, rfl, fun paired => by simp [fresh] at paired⟩

theorem cfPairRead_reads (crypto : Crypto) (saved : sdk.load m.flash = m.flashConfig)
    (config : headed m.flashConfig 0 = true) {q : Reading PairReading}
    (reads : readPair m.flashConfig ⟨m.config.hasPairs, m.pair⟩ = .ok q) :
    ∃ done, cfPairRead crypto sdk m = .ok done ∧ done.pair.state = q.value.pair.state := by
  simp only [cfPairRead, saved, config, if_true, reads]
  exact ⟨_, rfl, rfl⟩

def started (sdk : ParamArea Flash) (boot : Boot) (flash : Flash) (config : ChatFabricConfig) :
    Chip Flash :=
  store sdk ⟨config, cfPairInit zeroPairing boot.mynonce, sdk.load flash, flash⟩ 0 (fileBytes config)

theorem started_consistent (sdk : ParamArea Flash) (boot : Boot) (flash : Flash)
    {config : ChatFabricConfig} (none : NoIpv6 config) :
    Consistent sdk (started sdk boot flash config) := by
  obtain ⟨front, _⟩ := config_in_front (sdk.load flash) config
  refine ⟨sdk.load_save _ _, none, ⟨config, none, front⟩, fun paired => ?_⟩
  cases paired

theorem espCfConfigInit_ok {boot : Boot} {done : Chip Flash}
    (run : espCfConfigInit crypto sdk boot m = .ok done) :
    ∃ config, NoIpv6 config ∧ config.controlers = outletControls ∧
      done = ⟨config, m.pair, sdk.load m.flash, m.flash⟩ := by
  simp only [espCfConfigInit, bind, Except.bind] at run
  split at run
  · cases run
  · rename_i read reads
    obtain ⟨config, same, _, rfl⟩ := cfConfigRead_ok reads
    cases run
    have none : NoIpv6 config := (noIpv6_cfConfigInit crypto boot m.config).of_unread same
    refine ⟨_, ?_, rfl, rfl⟩
    exact none

theorem userInitStage2_eq {boot : Boot} {flash : Flash} {config : ChatFabricConfig}
    (init : espCfConfigInit crypto sdk boot ⟨default, zeroPairing, .zero imageSize, flash⟩ =
      .ok ⟨config, zeroPairing, sdk.load flash, flash⟩) :
    userInitStage2 crypto sdk boot flash =
      if headed (started sdk boot flash config).flashConfig pairStart then
        cfPairRead crypto sdk (started sdk boot flash config)
      else .ok (started sdk boot flash config) := by
  simp only [userInitStage2, init, bind, Except.bind, cfConfigWrite_eq]
  rfl

theorem userInitStage2_cases {boot : Boot} {flash : Flash} {done : Chip Flash}
    (run : userInitStage2 crypto sdk boot flash = .ok done) :
    ∃ config, NoIpv6 config ∧ config.controlers = outletControls ∧
      (done = started sdk boot flash config ∨
        (headed (started sdk boot flash config).flashConfig pairStart = true ∧
          cfPairRead crypto sdk (started sdk boot flash config) = .ok done)) := by
  cases init : espCfConfigInit crypto sdk boot ⟨default, zeroPairing, .zero imageSize, flash⟩ with
  | error f => simp [userInitStage2, init, bind, Except.bind] at run
  | ok m =>
    obtain ⟨config, none, table, rfl⟩ := espCfConfigInit_ok init
    rw [userInitStage2_eq init] at run
    refine ⟨config, none, table, ?_⟩
    split at run
    · rename_i header
      exact .inr ⟨header, run⟩
    · exact .inl (Except.ok.inj run).symm

theorem userInitStage2_consistent {boot : Boot} {flash : Flash} {done : Chip Flash}
    (run : userInitStage2 crypto sdk boot flash = .ok done) : Consistent sdk done := by
  obtain ⟨config, none, _, rfl | ⟨header, read⟩⟩ := userInitStage2_cases run
  · exact started_consistent sdk boot flash none
  · obtain ⟨saved, noIpv6, front, _⟩ := started_consistent sdk boot flash none
    obtain ⟨hasPairs, pair, rfl, holds⟩ := cfPairRead_ok saved rfl header read
    exact ⟨saved, noIpv6.of_unread rfl, front, holds⟩

theorem restart_paired (crypto : Crypto) (boot : Boot) (consistent : Consistent sdk m)
    (holds : HoldsPair m.flashConfig) :
    ∃ done, userInitStage2 crypto sdk boot m.flash = .ok done ∧ done.pair.state = .paired := by
  obtain ⟨read, reads⟩ := consistent.configRead
    { cfConfigInit crypto boot default with wifiApSwitch := 1, wifiStaSwitch := 0 } zeroPairing
    (.zero imageSize)
  cases init : espCfConfigInit crypto sdk boot ⟨default, zeroPairing, .zero imageSize, m.flash⟩ with
  | error f => simp [espCfConfigInit, reads, bind, Except.bind] at init
  | ok first =>
    obtain ⟨config, _, _, rfl⟩ := espCfConfigInit_ok init
    have image : (started sdk boot m.flash config).flashConfig =
        m.flashConfig.patch 0 (fileBytes config) := by
      rw [started, consistent.saved, store]
    have tail := (config_in_front m.flashConfig config).2
    have loaded : sdk.load (started sdk boot m.flash config).flash =
        (started sdk boot m.flash config).flashConfig := sdk.load_save _ _
    have header : headed (started sdk boot m.flash config).flashConfig pairStart = true := by
      rw [image]
      exact (holds.kept tail).1
    obtain ⟨q, reads, paired⟩ := holds.read tail
      (r := ⟨config.hasPairs, cfPairInit zeroPairing boot.mynonce⟩) rfl
    have front := headed_config m.flashConfig config
    rw [← image] at front reads
    obtain ⟨done, run, same⟩ := cfPairRead_reads crypto loaded front reads
    exact ⟨done, by rwa [userInitStage2_eq init, if_pos header], same.trans paired⟩

theorem next_consistent (a : Input) (consistent : Consistent sdk m) :
    Consistent sdk (next crypto sdk m a) := by
  unfold next
  split
  · rename_i done run
    cases a with
    | datagram a => exact chatFabricDevice_consistent consistent run
    | unpair mynonce =>
      cases run
      exact consistent.changed rfl fun paired => by cases paired
    | saveconfig =>
      rw [step, cfConfigWrite_eq] at run
      cases run
      exact consistent.configStored
    | readconfig => exact cfConfigRead_consistent consistent run
    | debug on =>
      cases run
      exact consistent.changed rfl id
    | init boot =>
      simp only [step, cfConfigWrite_eq, bind, Except.bind] at run
      exact userInitStage2_consistent run
    | restart boot => exact userInitStage2_consistent run
  · exact consistent

/-- What may happen after the unpairing without a handshake. -/
def Later : Input → Prop
  | .restart _ | .saveconfig => True
  | .datagram a => a.cp.cmd = .configSet
  | _ => False

theorem later_keeps {a : Input} (later : Later a) (still : ∀ boot, a ≠ .restart boot)
    (holds : HoldsPair m.flashConfig) :
    (next crypto sdk m a).pair.state = m.pair.state ∧ HoldsPair (next crypto sdk m a).flashConfig := by
  unfold next
  split
  · rename_i done run
    cases a with
    | restart boot => exact absurd rfl (still boot)
    | saveconfig =>
      rw [step, cfConfigWrite_eq] at run
      cases run
      exact ⟨rfl, holds.kept (config_in_front _ _).2⟩
    | datagram a =>
      obtain ⟨answered, pair, config, made, rfl, _, state, set⟩ := chatFabricDevice_answered run
      have same := set later
      refine ⟨state.trans (by rw [same]), ?_⟩
      cases made with
      | kept pair _ => exact holds
      | set config _ => exact holds.kept (config_in_front _ _).2
      | paired pair _ => exact holdsPair_stored _ _
    | unpair | readconfig | debug | init => cases later
  · exact ⟨rfl, holds⟩

structure Lurking (sdk : ParamArea Flash) (m : Chip Flash) : Prop where
  consistent : Consistent sdk m
  holds : HoldsPair m.flashConfig

theorem restart_lurking (crypto : Crypto) (boot : Boot) (lurking : Lurking sdk m) :
    (next crypto sdk m (.restart boot)).pair.state = .paired ∧
      Lurking sdk (next crypto sdk m (.restart boot)) := by
  obtain ⟨done, run, paired⟩ := restart_paired crypto boot lurking.consistent lurking.holds
  have here : next crypto sdk m (.restart boot) = done := by simp only [next, step, run]
  rw [here]
  have consistent := userInitStage2_consistent run
  exact ⟨paired, consistent, consistent.pair paired⟩

theorem next_lurking {a : Input} (later : Later a) (lurking : Lurking sdk m) :
    Lurking sdk (next crypto sdk m a) := by
  by_cases restarts : ∃ boot, a = .restart boot
  · obtain ⟨boot, rfl⟩ := restarts
    exact (restart_lurking crypto boot lurking).2
  · have still : ∀ boot, a ≠ .restart boot := fun boot same => restarts ⟨boot, same⟩
    exact ⟨next_consistent a lurking.consistent, (later_keeps later still lurking.holds).2⟩

theorem next_unpaired_iff {a : Input} (later : Later a) (lurking : Lurking sdk m)
    (unpaired : m.pair.state ≠ .paired) :
    (next crypto sdk m a).pair.state ≠ .paired ↔ ∀ boot, a ≠ .restart boot := by
  constructor
  · rintro stays boot rfl
    exact stays (restart_lurking crypto boot lurking).1
  · intro still
    rwa [(later_keeps later still lurking.holds).1]

theorem unpair_lurking {boot : Boot} {flash : Flash}
    (start : userInitStage2 crypto sdk boot flash = .ok m) {before : List Input}
    (paired : (run (next crypto sdk) m before).pair.state = .paired) (mynonce : Block 8) :
    Lurking sdk (run (next crypto sdk) m (before ++ [.unpair mynonce])) ∧
      (run (next crypto sdk) m (before ++ [.unpair mynonce])).pair.state = .unconfigured := by
  have consistent : Consistent sdk (run (next crypto sdk) m before) :=
    run_invariant (fun _ a => next_consistent a) (userInitStage2_consistent start) before
  have last : run (next crypto sdk) m (before ++ [.unpair mynonce]) =
      next crypto sdk (run (next crypto sdk) m before) (.unpair mynonce) := by
    rw [run_append]
    rfl
  rw [last]
  exact ⟨⟨next_consistent _ consistent, consistent.pair paired⟩, rfl⟩

/-- A paired device that was unpaired, whatever made it a paired one, stays unpaired as long as
    it is not restarted, and no longer. -/
theorem unpaired_iff_not_restarted (crypto : Crypto) (sdk : ParamArea Flash) (boot : Boot)
    (flash : Flash) (m : Chip Flash) (start : userInitStage2 crypto sdk boot flash = .ok m)
    (before after : List Input) (paired : (run (next crypto sdk) m before).pair.state = .paired)
    (mynonce : Block 8) (later : ∀ a ∈ after, Later a) :
    (∀ t ∈ states (next crypto sdk) (run (next crypto sdk) m (before ++ [.unpair mynonce])) after,
        t.pair.state ≠ .paired) ↔
      ∀ a ∈ after, ∀ boot, a ≠ .restart boot := by
  obtain ⟨lurking, unconfigured⟩ := unpair_lurking start paired mynonce
  have unpaired : (run (next crypto sdk) m (before ++ [.unpair mynonce])).pair.state ≠ .paired := by
    simp [unconfigured]
  have keep : ∀ s a, Lurking sdk s → s.pair.state ≠ .paired → Later a →
      Lurking sdk (next crypto sdk s a) := fun _ _ lurks _ late => next_lurking late lurks
  have exact : ∀ s a, Lurking sdk s → s.pair.state ≠ .paired → Later a →
      ((next crypto sdk s a).pair.state ≠ .paired ↔ ∀ boot, a ≠ .restart boot) :=
    fun _ _ lurks away late => next_unpaired_iff late lurks away
  rw [every_state_iff_every_step_of_all keep exact lurking unpaired later, every_step_input]

def outletBoot : Boot := { (default : Boot) with uuid := .ofBytes 16 (List.replicate 16 8) }

def toOutlet (cmd : Command) (flags : UInt32) : Input :=
  .datagram {
    cp := { chatPacketInit0 default with
      cmd := cmd
      flags := flags
      toUuid := ⟨.zero 16, outletBoot.uuid⟩
      fromUuid := ⟨.zero 16, .ofBytes 16 (List.replicate 16 7)⟩
      publickey := .ofBytes 32 [9]
      nonce := .ofBytes 8 [1] }
    reply := chatPacketInit0 default
    replyCmd := .sendReplyFalse
    panel := ⟨fun c => c.type = 3, fun c => if c.type = 3 then some 512 else none⟩ }

def pairing : List Input :=
  [toOutlet .pairRequest 0, toOutlet .publickeyRequest 0, toOutlet .publickeySend 1,
   toOutlet .nonceRequest 0, toOutlet .nonceSend 1]

def firstConfig (crypto : Crypto) (boot : Boot) : ChatFabricConfig :=
  let config := cfConfigInit crypto boot default
  { config with
    wifiApSwitch := 1
    wifiStaSwitch := 0
    debug := 0
    wifiApPasswd := config.wifiApPasswd.patch 0 apPassword
    wifiStaPasswd := config.wifiStaPasswd.patch 0 ssidPassword
    wifiStaSsid := config.wifiStaSsid.patch 0 ssid
    controlers := outletControls }

theorem userInitStage2_first (crypto : Crypto) (boot : Boot) {flash : Flash}
    (noConfig : headed (sdk.load flash) 0 = false) (noPair : headed (sdk.load flash) pairStart = false) :
    userInitStage2 crypto sdk boot flash = .ok (started sdk boot flash (firstConfig crypto boot)) := by
  have init : espCfConfigInit crypto sdk boot ⟨default, zeroPairing, .zero imageSize, flash⟩ =
      .ok ⟨firstConfig crypto boot, zeroPairing, sdk.load flash, flash⟩ := by
    simp only [espCfConfigInit, cfConfigRead, noConfig, Bool.false_eq_true, if_false, bind, Except.bind]
    rfl
  have bare : headed (started sdk boot flash (firstConfig crypto boot)).flashConfig pairStart = false := by
    simp only [started, store]
    rw [headed_eq, (config_in_front (sdk.load flash) _).2, ← headed_eq, noPair]
  rw [userInitStage2_eq init, bare]
  rfl

theorem next_pairs {a : Received} {s : Switched} (here : misaddressed m.config a.cp = false)
    (notGet : a.cp.cmd ≠ .configGet) (notSet : a.cp.cmd ≠ .configSet)
    (switched : pairSwitch crypto m.config a.cp m.pair
      { a.reply with toUuid := a.cp.fromUuid, fromUuid := m.config.uuid } = s)
    (left : s.pair.state ≠ m.pair.state) (entered : s.pair.state = .paired)
    (replied : (sendReply crypto (runCallback (some (deviceCallBack a.panel)) a.cp
      ⟨⟨{ m.config with hasPairs := 1 }, s.pair, none, none⟩, s.reply, s.retval, .ok⟩)).isOk = true) :
    (next crypto sdk m (.datagram a)).pair.state = .paired := by
  cases sending : sendReply crypto (runCallback (some (deviceCallBack a.panel)) a.cp
      ⟨⟨{ m.config with hasPairs := 1 }, s.pair, none, none⟩, s.reply, s.retval, .ok⟩) with
  | error f => simp [sending, Except.isOk, Except.toBool] at replied
  | ok sent =>
    have saves : savedChip sdk m.pair.state { m with pair := s.pair } =
        store sdk { m with config.hasPairs := 1, pair := s.pair } pairStart (pairBytes s.pair) :=
      if_pos ⟨left, entered⟩
    have ran : stateMachine crypto sdk m a =
        .ok (savedChip sdk m.pair.state { m with pair := s.pair },
          ⟨⟨{ m.config with hasPairs := 1 }, s.pair, none, none⟩, s.reply, s.retval, .ok⟩) := by
      simp only [stateMachine, here, commandSwitch_pair crypto sdk m _ notGet notSet, switched,
        savePaired_eq, saves, Bool.false_eq_true, if_false, bind, Except.bind]
      rfl
    have state : sent.1.pair.state = .paired := by
      rw [(sendReply_sends sending).state, (runCallback_panel a.panel a.cp _).1]
      exact entered
    simp only [next, step, chatFabricDevice, ran, sending, bind, Except.bind]
    exact state

theorem outlet_pairs :
    ∃ m, userInitStage2 default cell outletBoot (.zero imageSize) = .ok m ∧
      (run (next default cell) m pairing).pair.state = .paired := by
  have blank : ∀ start, headed (.zero imageSize) start = false := by
    intro start
    simp only [headed, Block.zero, List.getElem?_replicate]
    split <;> rfl
  refine ⟨_, userInitStage2_first default outletBoot (blank 0) (blank pairStart), ?_⟩
  have last : ∀ m, run (next default cell) m [toOutlet .nonceSend 1] =
      next default cell m (toOutlet .nonceSend 1) := fun _ => rfl
  rw [show pairing = pairing.take 4 ++ [toOutlet .nonceSend 1] from rfl, run_append, last]
  apply next_pairs
  · decide +kernel
  · decide
  · decide
  · rfl
  · decide +kernel
  · decide +kernel
  · decide +kernel

theorem unpaired_iff_not_restarted_outlet :
    ∃ m, userInitStage2 default cell outletBoot (.zero imageSize) = .ok m ∧
      ((∀ t ∈ states (next default cell) (run (next default cell) m (pairing ++ [.unpair default]))
          [.saveconfig, toOutlet .configSet 0], t.pair.state ≠ .paired) ↔
        ∀ a ∈ [.saveconfig, toOutlet .configSet 0], ∀ boot, a ≠ .restart boot) := by
  obtain ⟨m, start, paired⟩ := outlet_pairs
  have later : ∀ a ∈ [.saveconfig, toOutlet .configSet 0], Later a := by
    simp [Later, toOutlet]
  exact ⟨m, start, unpaired_iff_not_restarted default cell outletBoot _ m start pairing _ paired _ later⟩

/-- A fresh outlet is paired, unpaired and restarted: it is paired again. -/
theorem unpaired_comes_back :
    ¬ ∀ m before after mynonce,
      userInitStage2 default cell outletBoot (.zero imageSize) = .ok m →
      (run (next default cell) m before).pair.state = .paired → (∀ a ∈ after, Later a) →
      ∀ t ∈ states (next default cell) (run (next default cell) m (before ++ [.unpair mynonce])) after,
        t.pair.state ≠ .paired := by
  intro always
  obtain ⟨m, start, paired⟩ := outlet_pairs
  obtain ⟨lurking, _⟩ := unpair_lurking start paired default
  have later : ∀ a ∈ [Input.restart outletBoot], Later a := by simp [Later]
  have never := always m pairing _ default start paired later
  have back := (restart_lurking default outletBoot lurking).1
  exact never _ (List.mem_cons_of_mem _ (start_mem_states _ [])) back

end Esp8266
