import ChatFabric.PairingFlags
import ChatFabric.TagFields

/- The three values that come from one private key: the public key of the config, the shared
   key of the record, and the private key itself, which a config string can replace. -/
namespace KeyConsistency
open ByteStrings TagStream Runs ChatFabric PairingFlags

def basepoint : Block 32 := ⟨9 :: List.replicate 31 0, rfl⟩

structure Consistent (crypto : Crypto) (p : Party) : Prop where
  own : p.config.publickey = crypto.curve25519Donna p.config.privatekey basepoint
  shared : p.pair.hasPublicKey = 1 →
    p.pair.sharedkey = crypto.curve25519Donna p.config.privatekey p.pair.publickey

/-- A record as cfPairInit leaves it, or as cfPairRead reads it from a file there is. -/
inductive Started (crypto : Crypto) : ChatFabricConfig → ChatFabricPairing → Prop where
  | init (config : ChatFabricConfig) (memory : ChatFabricPairing) (random : Block 8) :
      Started crypto config (cfPairInit memory random)
  | read {config config' : ChatFabricConfig} {old pair : ChatFabricPairing} {file : Bytes}
      (run : cfPairRead crypto config old (some file) = .ok (config', pair)) :
      Started crypto config' pair

/-- A call that faults leaves no party to go on with. -/
def receive (crypto : Crypto) (p : Party) (a : Received) : Party :=
  match stateMachine crypto a.files p a.cp a.reply a.replyCmd with
  | .ok o => o.party
  | .error _ => p

variable {crypto : Crypto}

theorem started_consistent {config : ChatFabricConfig} {pair : ChatFabricPairing}
    (started : Started crypto config pair)
    (own : config.publickey = crypto.curve25519Donna config.privatekey basepoint)
    (configFile pairFile : Option Bytes) :
    Consistent crypto ⟨config, pair, configFile, pairFile⟩ := by
  refine ⟨own, ?_⟩
  cases started with
  | init memory random =>
    intro flag
    cases flag
  | read run =>
    simp only [cfPairRead] at run
    split at run
    · cases run
      intro _
      rfl
    · cases run

end KeyConsistency
