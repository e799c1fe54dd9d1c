import ChatFabric.ConfigFile
import ChatFabric.PairFile
import ChatFabric.TagBounds

/- Reading what is stored or sent as a string of fields: where the readers of cfConfig.c
   and cfPairConfig.c look, and what of a written pairing record they bring back. -/
namespace StoredFiles
open ChatFabric ByteStrings TagStream

section reads
variable (crypto : Crypto) (config : ChatFabricConfig) (pair : ChatFabricPairing)

theorem cfConfigRead_outside_iff (str : Bytes) (filesize : Int) :
    cfConfigRead config str filesize = .error .inputRead ↔ ¬ Enclosed cfConfigCase filesize str := by
  rw [← readAll_inside_iff filesize config, cfConfigRead]
  cases readAll cfConfigCase str filesize config with
  | ok c => simp
  | error e =>
    cases e
    simp

theorem cfPairRead_outside_iff (str : Bytes) :
    cfPairRead crypto config pair (some str) = .error .inputRead ↔
      ¬ Enclosed cfPairCase str.length str := by
  rw [← readAll_inside_iff str.length ⟨config.hasPairs, pair⟩, cfPairRead]
  cases readAll cfPairCase str str.length ⟨config.hasPairs, pair⟩ with
  | ok r => simp
  | error e =>
    cases e
    simp

/-- No read of a config file, of a pair file or of the payload of a CMD_CONFIG_SET, of the
    length that came with it, leaves the string for exactly the strings that whole fields
    fill up to the limit in force behind them. -/
theorem reads_inside_iff (str : Bytes) (payloadLength : UInt32) :
    (cfConfigRead config str str.length ≠ .error .inputRead ↔
      Enclosed cfConfigCase str.length str) ∧
    (cfPairRead crypto config pair (some str) ≠ .error .inputRead ↔
      Enclosed cfPairCase str.length str) ∧
    (cfConfigSetFromStr config (some str) payloadLength ≠ .error .inputRead ↔
      Enclosed cfConfigCase payloadLength.toInt32.toInt str) := by
  refine ⟨?_, ?_, ?_⟩
  · rw [Ne, cfConfigRead_outside_iff, not_not]
  · rw [Ne, cfPairRead_outside_iff, not_not]
  · rw [Ne, cfConfigSetFromStr, Option.getD_some, cfConfigRead_outside_iff, not_not]

end reads

/-- A declared length one byte too long, for both readers, and a name cut short in a payload. -/
theorem declared_length_reads_outside :
    cfConfigRead default (CfTag.configLength.toByte :: be32 6) 5 = .error .inputRead ∧
    cfPairRead default default default (some (CfTag.pairLength.toByte :: be32 6)) =
      .error .inputRead ∧
    cfConfigSetFromStr default (some [CfTag.hostname.toByte, 97]) 2 = .error .inputRead := by
  decide +kernel

/-- What cfPairRead makes of a record, read from the file cfPairWrite made of another. -/
def Restored (crypto : Crypto) (config : ChatFabricConfig) (written old : ChatFabricPairing) : Prop :=
  ∃ file config' pair, pairFileBytes written = .ok file ∧
    cfPairRead crypto config old (some file) = .ok (config', pair) ∧
    pair.state = written.state ∧
    pair.hasPublicKey = written.hasPublicKey ∧ pair.hasNonce = written.hasNonce ∧
    pair.serial = written.serial ∧ pair.uuid = written.uuid ∧
    pair.publickey = written.publickey ∧ pair.mynonce = written.mynonce ∧
    pair.nonce = written.nonce ∧
    pair.sharedkey = crypto.curve25519Donna config.privatekey written.publickey

theorem restored_pairReadBack {crypto : Crypto} {config : ChatFabricConfig}
    {written old : ChatFabricPairing} :
    Restored crypto config written old ↔
      (pairReadBack crypto config written old).state = written.state ∧
      (pairReadBack crypto config written old).hasPublicKey = written.hasPublicKey ∧
      (pairReadBack crypto config written old).hasNonce = written.hasNonce := by
  constructor
  · rintro ⟨file, config', pair, wrote, read, state, key, nonce, _⟩
    rw [pairFileBytes_eq] at wrote
    cases wrote
    rw [cfPairRead_written] at read
    cases read
    exact ⟨state, key, nonce⟩
  · rintro ⟨state, key, nonce⟩
    exact ⟨_, _, _, pairFileBytes_eq written, cfPairRead_written crypto config written old,
      state, key, nonce, rfl, rfl, rfl, rfl, rfl, rfl⟩

/-- One byte of a flag is written and read: the other three are those of the record read into. -/
theorem withLowByte_lowByte_iff {old flag : UInt32} (small : flag.toNat < 256) :
    withLowByte old (lowByte flag) = flag ↔ old.toNat < 256 := by
  have bound := old.toNat_lt
  rw [← UInt32.toNat_inj]
  simp only [withLowByte, lowByte, UInt8.toNat_ofNat', UInt32.toNat_ofNat']
  omega

/-- The key field, which the writer puts behind the state, makes every record a paired one. -/
theorem restored_iff_paired (crypto : Crypto) (config : ChatFabricConfig)
    (written old : ChatFabricPairing)
    (key : written.hasPublicKey = 0 ∨ written.hasPublicKey = 1)
    (nonce : written.hasNonce = 0 ∨ written.hasNonce = 1) :
    Restored crypto config written old ↔
      written.state = .paired ∧ old.hasPublicKey.toNat < 256 ∧ old.hasNonce.toNat < 256 := by
  have keySmall : written.hasPublicKey.toNat < 256 := by
    rcases key with key | key <;> simp [key]
  have nonceSmall : written.hasNonce.toNat < 256 := by
    rcases nonce with nonce | nonce <;> simp [nonce]
  rw [restored_pairReadBack, ← withLowByte_lowByte_iff keySmall, ← withLowByte_lowByte_iff nonceSmall]
  simp only [pairReadBack, eq_comm]

def freshRecord : ChatFabricPairing := cfPairInit default default

def pairedRecord : ChatFabricPairing :=
  { freshRecord with
    state := .paired
    hasPublicKey := 1
    hasNonce := 1
    publickey := .ofBytes 32 [9]
    nonce := .ofBytes 8 [1, 2] }

theorem restored_iff_paired_saved : Restored default default pairedRecord freshRecord :=
  (restored_iff_paired default default pairedRecord freshRecord (.inr rfl) (.inr rfl)).mpr
    ⟨rfl, by decide, by decide⟩

theorem fresh_record_not_restored :
    freshRecord.hasPublicKey = 0 ∧ freshRecord.hasNonce = 0 ∧ freshRecord.state = .unconfigured ∧
      ¬ Restored default default freshRecord freshRecord := by
  refine ⟨rfl, rfl, rfl, ?_⟩
  rw [restored_pairReadBack]
  rintro ⟨state, _⟩
  cases state

end StoredFiles
