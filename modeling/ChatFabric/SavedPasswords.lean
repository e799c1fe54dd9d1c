import ChatFabric.ConfigStrings
import ChatFabric.ImageParts

/- The names and passwords of the networks over a restart. The start reads the config that was
   saved, puts a password of its own over the front of the access point's, and saves it. -/
namespace SavedPasswords
open ByteStrings CStrings TagStream ChatFabric Esp8266 ConfigRoundTrip

variable {Flash : Type}

/-- espCfConfigInit, compiled with or without STA_DEFAULT_NETWORK. -/
def espCfConfigInit (staDefaultNetwork : Bool) (crypto : Crypto) (sdk : ParamArea Flash) (boot : Boot)
    (m : Chip Flash) : Except Fault (Chip Flash) := do
  let config := cfConfigInit crypto boot m.config
  let m ← Esp8266.cfConfigRead sdk { m with config := { config with wifiApSwitch := 1, wifiStaSwitch := 0 } }
  let config := { m.config with
    debug := 0
    wifiApPasswd := m.config.wifiApPasswd.patch 0 apPassword
    controlers := outletControls }
  if staDefaultNetwork then
    .ok { m with config := { config with
      wifiStaPasswd := config.wifiStaPasswd.patch 0 ssidPassword
      wifiStaSsid := config.wifiStaSsid.patch 0 ssid } }
  else .ok { m with config := config }

theorem espCfConfigInit_default (crypto : Crypto) (sdk : ParamArea Flash) (boot : Boot) (m : Chip Flash) :
    espCfConfigInit true crypto sdk boot m = Esp8266.espCfConfigInit crypto sdk boot m := rfl

def userInitStage2 (staDefaultNetwork : Bool) (crypto : Crypto) (sdk : ParamArea Flash) (boot : Boot)
    (flash : Flash) : Except Fault (Chip Flash) := do
  let m ← espCfConfigInit staDefaultNetwork crypto sdk boot ⟨default, zeroPairing, .zero imageSize, flash⟩
  let m ← cfConfigWrite sdk m
  let m := { m with pair := cfPairInit m.pair boot.mynonce }
  if headed m.flashConfig pairStart then Esp8266.cfPairRead crypto sdk m else .ok m

theorem userInitStage2_default (crypto : Crypto) (sdk : ParamArea Flash) (boot : Boot) (flash : Flash) :
    userInitStage2 true crypto sdk boot flash = Esp8266.userInitStage2 crypto sdk boot flash := rfl

structure Passwords where
  ap : Bytes
  staSsid : Bytes
  sta : Bytes

/-- The strings as they are copied to the SDK, up to their terminators. -/
def inEffect (c : ChatFabricConfig) : Passwords :=
  ⟨text c.wifiApPasswd.val, text c.wifiStaSsid.val, text c.wifiStaPasswd.val⟩

/-- The strings in the bytes that are saved of the arrays, all but the last. -/
def savedOf (c : ChatFabricConfig) : Passwords :=
  ⟨text (c.wifiApPasswd.val.take 64), text (c.wifiStaSsid.val.take 32), text (c.wifiStaPasswd.val.take 64)⟩

structure Kept (sdk : ParamArea Flash) (saved : ChatFabricConfig) (m : Chip Flash) : Prop where
  effect : inEffect m.config = savedOf saved
  flash : ∀ c, ∃ read, Esp8266.cfConfigRead sdk { m with config := c } = .ok read ∧
    savedOf read.config = savedOf saved

def Holding (sdk : ParamArea Flash) (flash : Flash) (c : ChatFabricConfig) : Prop :=
  ∃ image : Block imageSize, sdk.load flash = image.patch 0 (fileBytes c)

theorem cfConfigRead_saved {sdk : ParamArea Flash} {flash : Flash} {c : ChatFabricConfig} (none : NoIpv6 c)
    (holding : Holding sdk flash c) (config : ChatFabricConfig) (pair : ChatFabricPairing)
    (ram : Block imageSize) :
    Esp8266.cfConfigRead sdk ⟨config, pair, ram, flash⟩ =
      .ok ⟨readBack c config, pair, sdk.load flash, flash⟩ := by
  obtain ⟨image, loaded⟩ := holding
  have long : ((fileBytes c).length : Int) ≤ imageSize := by
    rw [length_fileBytes]
    decide
  have header := headed_config image c
  have read : ChatFabric.cfConfigRead config (image.patch 0 (fileBytes c)).val imageSize =
      .ok (readBack c config) := read_fileBytes none.tagFree config (config_in_front image c).1 long
  simp only [Esp8266.cfConfigRead, loaded, header, if_true, read, bind, Except.bind]

theorem readBack_strings (c d : ChatFabricConfig) :
    (readBack c d).wifiApPasswd = d.wifiApPasswd.patch 0 (c.wifiApPasswd.val.take 64) ∧
      (readBack c d).wifiStaSsid = d.wifiStaSsid.patch 0 (c.wifiStaSsid.val.take 32) ∧
      (readBack c d).wifiStaPasswd = d.wifiStaPasswd.patch 0 (c.wifiStaPasswd.val.take 64) := by
  simp only [readBack, plainFields, fieldsBefore, fieldsAfter, keyFields, int32Field, uuidField,
    data8Field, List.cons_append, List.nil_append, List.map_cons, List.map_nil, List.foldl_cons,
    List.foldl_nil, storeField, cfConfigCase_toByte, cfConfigTagCase, TagData.plain]
  simp

theorem patch_zero {n : Nat} {v : Bytes} (size : v.length = n) :
    ((Block.zero (n + 1)).patch 0 v).val = v ++ [0] := by
  have fits : 0 + v.length ≤ n + 1 := by omega
  rw [Block.patch_val _ fits, List.take_zero, List.nil_append, size, Nat.zero_add]
  simp [Block.zero]

/-- The arrays of the config that a start comes to: the access point's password has the front
    of another. -/
structure Overwritten (saved c : ChatFabricConfig) : Prop where
  ap : c.wifiApPasswd.val =
    apPassword ++ (saved.wifiApPasswd.val.take 64).drop apPassword.length ++ [0]
  staSsid : c.wifiStaSsid.val = saved.wifiStaSsid.val.take 32 ++ [0]
  sta : c.wifiStaPasswd.val = saved.wifiStaPasswd.val.take 64 ++ [0]

theorem savedOf_readBack (c d : ChatFabricConfig) : savedOf (readBack c d) = savedOf c := by
  obtain ⟨ap, staSsid, sta⟩ := readBack_strings c d
  simp only [savedOf, ap, staSsid, sta]
  rw [Block.patch_zero_take _ (by simp) (by decide), Block.patch_zero_take _ (by simp) (by decide),
    Block.patch_zero_take _ (by simp) (by decide)]

variable {crypto : Crypto} {sdk : ParamArea Flash} {boot : Boot} {saved : ChatFabricConfig}

theorem espCfConfigInit_saved (none : NoIpv6 saved) {m done : Chip Flash} (holding : Holding sdk m.flash saved)
    (start : espCfConfigInit false crypto sdk boot m = .ok done) :
    Overwritten saved done.config ∧ NoIpv6 done.config := by
  let config := { cfConfigInit crypto boot m.config with wifiApSwitch := 1, wifiStaSwitch := 0 }
  have read := cfConfigRead_saved none holding config m.pair m.flashConfig
  obtain ⟨ap, staSsid, sta⟩ := readBack_strings saved config
  have whole := read_fileBytes none.tagFree config (List.prefix_refl _) (Int.le_refl _)
  have before : NoIpv6 config := (noIpv6_cfConfigInit crypto boot m.config).of_unread rfl
  have after : NoIpv6 (readBack saved config) := before.of_unread (read_keeps_unread whole)
  generalize readBack saved config = back at read ap staSsid sta after
  simp only [espCfConfigInit, bind, Except.bind] at start
  rw [show Esp8266.cfConfigRead sdk _ = _ from read] at start
  cases start
  refine ⟨⟨?_, ?_, ?_⟩, after⟩
  · have size : (saved.wifiApPasswd.val.take 64).length = 64 := by simp
    have array : back.wifiApPasswd.val = saved.wifiApPasswd.val.take 64 ++ [0] := by
      rw [ap]
      exact patch_zero size
    have fits : 0 + apPassword.length ≤ 65 := by decide
    have inside : apPassword.length ≤ (saved.wifiApPasswd.val.take 64).length := by
      rw [size]
      decide
    simp only [Block.patch_val _ fits, array, List.take_zero, List.nil_append, Nat.zero_add,
      List.drop_append_of_le_length inside, List.append_assoc]
  · rw [staSsid]
    exact patch_zero (by simp)
  · rw [sta]
    exact patch_zero (by simp)

theorem cfPairRead_keeps {m done : Chip Flash} (run : Esp8266.cfPairRead crypto sdk m = .ok done) :
    inEffect done.config = inEffect m.config ∧ done.flash = m.flash := by
  simp only [Esp8266.cfPairRead] at run
  split at run
  · split at run
    · cases run
      exact ⟨rfl, rfl⟩
    · cases run
  · cases run
    exact ⟨rfl, rfl⟩

theorem userInitStage2_saved (none : NoIpv6 saved) {flash : Flash} (holding : Holding sdk flash saved)
    {m : Chip Flash} (restart : userInitStage2 false crypto sdk boot flash = .ok m) :
    ∃ c, Overwritten saved c ∧ NoIpv6 c ∧ inEffect m.config = inEffect c ∧ Holding sdk m.flash c := by
  simp only [userInitStage2, bind, Except.bind] at restart
  split at restart
  · cases restart
  · rename_i started start
    obtain ⟨overwritten, noIpv6⟩ := espCfConfigInit_saved none holding start
    simp only [Esp8266.cfConfigWrite_eq] at restart
    have written : Holding sdk (store sdk started 0 (fileBytes started.config)).flash started.config :=
      ⟨started.flashConfig, sdk.load_save _ _⟩
    refine ⟨started.config, overwritten, noIpv6, ?_⟩
    split at restart
    · obtain ⟨same, sameFlash⟩ := cfPairRead_keeps restart
      exact ⟨same, sameFlash ▸ written⟩
    · cases restart
      exact ⟨rfl, written⟩

theorem Overwritten.inEffect_eq {c : ChatFabricConfig} (overwritten : Overwritten saved c) :
    inEffect c = ⟨text (apPassword ++ (saved.wifiApPasswd.val.take 64).drop apPassword.length),
      (savedOf saved).staSsid, (savedOf saved).sta⟩ := by
  simp only [inEffect, savedOf, overwritten.ap, overwritten.staSsid, overwritten.sta, text_terminated]

theorem Overwritten.savedOf_eq {c : ChatFabricConfig} (overwritten : Overwritten saved c) :
    savedOf c = inEffect c := by
  have size : (apPassword ++ (saved.wifiApPasswd.val.take 64).drop apPassword.length).length = 64 := by
    simp [apPassword]
  have ssid : (saved.wifiStaSsid.val.take 32).length = 32 := by simp
  have sta : (saved.wifiStaPasswd.val.take 64).length = 64 := by simp
  rw [overwritten.inEffect_eq]
  simp only [savedOf, overwritten.ap, overwritten.staSsid, overwritten.sta, List.take_left' size,
    List.take_left' ssid, List.take_left' sta]

/-- The passwords of a saved config are those of the chip after the restart, and of its flash,
    exactly where the access point's begins with the one that the start puts over it. -/
theorem passwords_kept_iff {m m₁ m₂ : Chip Flash} (none : NoIpv6 m.config)
    (save : cfConfigWrite sdk m = .ok m₁)
    (restart : userInitStage2 false crypto sdk boot m₁.flash = .ok m₂) :
    Kept sdk m.config m₂ ↔ apPassword <+: m.config.wifiApPasswd.val := by
  rw [Esp8266.cfConfigWrite_eq] at save
  cases save
  have holding : Holding sdk (store sdk m 0 (fileBytes m.config)).flash m.config :=
    ⟨m.flashConfig, sdk.load_save _ _⟩
  obtain ⟨c, overwritten, noIpv6, effect, written⟩ := userInitStage2_saved none holding restart
  have free : 0 ∉ apPassword := by decide
  have fits : apPassword.length ≤ (m.config.wifiApPasswd.val.take 64).length := by
    simp [apPassword]
  have front : apPassword <+: m.config.wifiApPasswd.val ↔
      apPassword <+: m.config.wifiApPasswd.val.take 64 := by
    rw [List.prefix_take_iff]
    exact (and_iff_left (by decide)).symm
  have same : inEffect c = savedOf m.config ↔ apPassword <+: m.config.wifiApPasswd.val := by
    rw [front, ← text_overwritten_iff free fits, overwritten.inEffect_eq]
    simp [savedOf]
  constructor
  · intro kept
    exact same.mp (effect.symm.trans kept.effect)
  · intro begins
    refine ⟨effect.trans (same.mpr begins), ?_⟩
    intro d
    refine ⟨_, cfConfigRead_saved noIpv6 written d m₂.pair m₂.flashConfig, ?_⟩
    exact (savedOf_readBack c d).trans (overwritten.savedOf_eq.trans (same.mpr begins))

theorem userInitStage2_unpaired (crypto : Crypto) (boot : Boot) (none : NoIpv6 saved) {flash : Flash} (holding : Holding sdk flash saved)
    (bare : headed (sdk.load flash) pairStart = false) :
    ∃ m, userInitStage2 false crypto sdk boot flash = .ok m := by
  let config := { cfConfigInit crypto boot default with wifiApSwitch := 1, wifiStaSwitch := 0 }
  have read := cfConfigRead_saved none holding config zeroPairing (.zero imageSize)
  simp only [userInitStage2, espCfConfigInit, bind, Except.bind]
  rw [show Esp8266.cfConfigRead sdk _ = _ from read]
  simp only [Bool.false_eq_true, if_false, Esp8266.cfConfigWrite_eq]
  have still : ∀ c, headed ((sdk.load flash).patch 0 (fileBytes c)) pairStart = false := by
    intro c
    rw [headed_eq, (config_in_front (sdk.load flash) c).2, ← headed_eq, bare]
  simp only [store, still, Bool.false_eq_true, if_false]
  exact ⟨_, rfl⟩

def withPassword (password : Bytes) : Chip (Block imageSize) :=
  ⟨{ (default : ChatFabricConfig) with wifiApPasswd := .ofBytes 65 password }, zeroPairing, .zero imageSize,
    .zero imageSize⟩

theorem noIpv6_withPassword (password : Bytes) : NoIpv6 (withPassword password).config := by
  have zeros : unread (withPassword password).config = List.replicate 6 (.zero 16) := rfl
  intro v mem
  rw [zeros] at mem
  exact List.eq_of_mem_replicate mem

theorem withPassword_restarts (password : Bytes) :
    ∃ m₁ m₂, cfConfigWrite cell (withPassword password) = .ok m₁ ∧
      Holding cell m₁.flash (withPassword password).config ∧
      userInitStage2 false default cell default m₁.flash = .ok m₂ := by
  have holding : Holding cell (store cell (withPassword password) 0
      (fileBytes (withPassword password).config)).flash (withPassword password).config :=
    ⟨.zero imageSize, rfl⟩
  have bare : headed ((Block.zero imageSize).patch 0 (fileBytes (withPassword password).config)) pairStart =
      false := by
    rw [headed_eq, (config_in_front (.zero imageSize) _).2]
    simp only [Block.zero, List.drop_replicate, List.getElem?_replicate]
    rfl
  obtain ⟨m₂, restart⟩ := userInitStage2_unpaired default default (noIpv6_withPassword password) holding bare
  exact ⟨_, m₂, Esp8266.cfConfigWrite_eq _ _, holding, restart⟩

theorem passwords_kept_iff_demo :
    ∃ m₁ m₂, cfConfigWrite cell (withPassword (apPassword ++ [49])) = .ok m₁ ∧
      userInitStage2 false default cell default m₁.flash = .ok m₂ ∧
      (Kept cell (withPassword (apPassword ++ [49])).config m₂ ↔
        apPassword <+: (withPassword (apPassword ++ [49])).config.wifiApPasswd.val) := by
  obtain ⟨m₁, m₂, save, _, restart⟩ := withPassword_restarts (apPassword ++ [49])
  exact ⟨m₁, m₂, save, restart, passwords_kept_iff (noIpv6_withPassword _) save restart⟩

/-- A password of six letters comes back as the one of the start. -/
theorem secret_not_kept :
    ¬ ∀ m m₁ m₂, NoIpv6 m.config → cfConfigWrite cell m = .ok m₁ →
      userInitStage2 false default cell default m₁.flash = .ok m₂ → Kept cell m.config m₂ := by
  intro always
  let secret : Bytes := [115, 101, 99, 114, 101, 116]
  obtain ⟨m₁, m₂, save, holding, restart⟩ := withPassword_restarts secret
  have kept := always _ m₁ m₂ (noIpv6_withPassword secret) save restart
  obtain ⟨c, overwritten, _, effect, _⟩ := userInitStage2_saved (noIpv6_withPassword secret) holding restart
  have same := congrArg Passwords.ap
    (overwritten.inEffect_eq.symm.trans (effect.symm.trans kept.effect))
  exact absurd same (by decide)

end SavedPasswords
