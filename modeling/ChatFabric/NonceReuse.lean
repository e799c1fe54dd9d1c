import ChatFabric.Authentication
import ChatFabric.Runs
import Mathlib.Data.List.Nodup

/- The session nonces a paired device uses, over restarts. The serial they are computed
   from counts up in memory and is stored once, when the record becomes paired. -/
namespace NonceReuse
open ByteStrings Runs ChatFabric Authentication

abbrev Session := Block 32 × Block 8

structure Sending where
  party : Party
  used : List Session

inductive Event where
  | receive (w : World) (b : MsgBuffer) (datagram : Bytes)
  | restart (config : ChatFabricConfig) (random : Block 8)

def next (crypto : Crypto) (s : Sending) : Event → Sending
  | .receive w b datagram =>
    match chatFabricDevice crypto (some deviceCallBack) w s.party b datagram with
    | .ok done => ⟨done.party, s.used ++ done.session.toList⟩
    | .error _ => s
  | .restart config random =>
    match deviceStart crypto config random s.party.configFile s.party.pairFile with
    | .ok p => ⟨p, s.used⟩
    | .error _ => s

structure Stored (p : Party) (r : ChatFabricPairing) : Prop where
  file : p.pairFile = some (pairBytes r)
  nonce : r.nonce = p.pair.nonce

structure PairedDevice (p : Party) : Prop where
  paired : p.pair.state = .paired
  stored : ∃ r, Stored p r

variable {crypto : Crypto}

theorem saved_paired {files : FileAccess} {previous : PairState} {p : Party}
    (opens : files.pairOpens = true) (entered : p.pair.state ≠ previous ∧ p.pair.state = .paired) :
    PairedDevice (saved files previous p) := by
  rw [saved, if_pos entered, opens]
  exact ⟨entered.2, p.pair, rfl, rfl⟩

theorem deviceStart_stored {config : ChatFabricConfig} {random : Block 8}
    {configFile : Option Bytes} (r : ChatFabricPairing) :
    deviceStart crypto config random configFile (some (pairBytes r)) =
      .ok ⟨{ config with hasPairs := 1 },
        pairReadBack crypto config r (cfPairInit zeroPairing random), configFile,
        some (pairBytes r)⟩ := by
  simp only [deviceStart, cfPairRead_written, bind, Except.bind]

structure Answered (p : Party) (done : DeviceDone) : Prop where
  pairFile : done.party.pairFile = p.pairFile
  pair : ∃ uuid, done.party.pair =
    { p.pair with uuid := uuid, serial := p.pair.serial + UInt32.ofNat done.session.toList.length }
  session : ∀ s ∈ done.session, s.2 = chatPacketCalcNonce (p.pair.serial + 1) p.pair.nonce

theorem handlePacket_answered {w : World} {p : Party} {cp : ChatPacket} {b : MsgBuffer}
    {done : DeviceDone} (paired : p.pair.state = .paired)
    (run : handlePacket crypto (some deviceCallBack) w p cp b = .ok done) : Answered p done := by
  obtain ⟨o, sent, ran, replied, rfl⟩ := handlePacket_ok run
  obtain ⟨⟨uuid, pair⟩, pairFile⟩ := stateMachine_keeps paired ran
  have back := runCallback_device cp o
  have sameFile : (runCallback (some deviceCallBack) cp o).party.pairFile = p.pairFile := by
    rw [back.party, ← pairFile]
    split <;> rfl
  have samePair := back.pair.trans pair
  cases sendReply_sends replied with
  | nothing silent => exact ⟨sameFile, ⟨uuid, by simp [samePair]⟩, by simp⟩
  | plain answers other msg => exact ⟨sameFile, ⟨uuid, by simp [samePair]⟩, by simp⟩
  | data answers data msg => exact ⟨sameFile, ⟨uuid, by simp [samePair]⟩, by simp [samePair]⟩

/-- The serial has counted the packets sent, and each took the next session nonce. -/
structure Counts (first : UInt32) (nonce : Block 8) (s : Sending) : Prop where
  device : PairedDevice s.party
  same : s.party.pair.nonce = nonce
  serial : s.party.pair.serial = first + UInt32.ofNat s.used.length
  used : s.used.map Prod.snd =
    (List.range s.used.length).map fun k => chatPacketCalcNonce (first + UInt32.ofNat k + 1) nonce

/-- A restart that loses no serial: the stored one is the one in memory. -/
def Current (s : Sending) : Event → Prop
  | .receive _ _ _ => True
  | .restart _ _ => ∃ r, Stored s.party r ∧ r.serial = s.party.pair.serial

theorem next_counts {first : UInt32} {nonce : Block 8} {s : Sending} {a : Event}
    (counts : Counts first nonce s) (current : Current s a) : Counts first nonce (next crypto s a) := by
  obtain ⟨⟨paired, r, stored⟩, sameNonce, serial, used⟩ := counts
  cases a with
  | receive w b datagram =>
    simp only [next]
    split
    · rename_i done run
      obtain ⟨cp, received, _, handled⟩ := chatFabricDevice_ok_iff.mp run
      obtain ⟨pairFile, ⟨uuid, pair⟩, session⟩ := handlePacket_answered paired handled
      refine ⟨⟨by rw [pair]; exact paired, r, by rw [pairFile]; exact stored.file,
        by rw [pair]; exact stored.nonce⟩, by rw [pair]; exact sameNonce, ?_, ?_⟩
      · simp only [pair, serial, List.length_append, UInt32.ofNat_add, UInt32.add_assoc]
      · cases sent : done.session with
        | none => simpa using used
        | some key =>
          have new := session key (by simp [sent])
          simp only [Option.toList_some, List.map_append, List.map_cons, List.map_nil,
            List.length_append, List.length_singleton, List.range_succ, used, new, serial, sameNonce]
    · exact ⟨⟨paired, r, stored⟩, sameNonce, serial, used⟩
  | restart config random =>
    obtain ⟨r', stored', same⟩ := current
    simp only [next, stored'.file, deviceStart_stored]
    exact ⟨⟨rfl, r', rfl, rfl⟩, stored'.nonce.trans sameNonce, same.trans serial, used⟩

theorem used_nodup {first : UInt32} {nonce : Block 8} {s : Sending} (counts : Counts first nonce s)
    (few : s.used.length < 2 ^ 32) : s.used.Nodup := by
  refine List.Nodup.of_map Prod.snd ?_
  rw [counts.used]
  refine List.Nodup.map_on ?_ List.nodup_range
  intro j inside k inside' same
  have serials := (UInt32.add_right_inj _).mp ((UInt32.add_left_inj _).mp (calcNonce_injective same))
  have numbers := congrArg UInt32.toNat serials
  simp only [List.mem_range, UInt32.toNat_ofNat'] at inside inside' numbers
  omega

/-- As long as no restart loses a serial, no session is used twice. -/
theorem sessions_fresh (crypto : Crypto) (p : Party) (device : PairedDevice p)
    (inputs : List Event) (current : EveryStep (next crypto) Current ⟨p, []⟩ inputs) :
    ∀ s ∈ states (next crypto) ⟨p, []⟩ inputs, s.used.length < 2 ^ 32 → s.used.Nodup := by
  have start : Counts p.pair.serial p.pair.nonce ⟨p, []⟩ := ⟨device, rfl, by simp, rfl⟩
  intro s member few
  exact used_nodup (every_state_of_every_step (fun _ _ => next_counts) start current s member) few

def ask : Bytes :=
  Tag.cmd.toByte :: be32 Command.appMessage.toCode ++
  Tag.flags.toByte :: be32 Command.sendReplyTrue.toCode ++
  Tag.to0.toByte :: List.replicate 16 7 ++ Tag.to1.toByte :: List.replicate 16 8

def asked : Event := .receive world default ask

theorem pairedLamp_device : PairedDevice pairedLamp := ⟨rfl, default, rfl, rfl⟩

theorem sessions_fresh_asked :
    (run (next default) ⟨pairedLamp, []⟩ [.restart lamp (.zero 8), asked, asked]).used.Nodup :=
  sessions_fresh default pairedLamp pairedLamp_device [.restart lamp (.zero 8), asked, asked]
    ⟨⟨default, ⟨rfl, rfl⟩, rfl⟩, trivial, trivial, trivial⟩ _
    (mem_states_iff.mpr ⟨_, [], by simp, rfl⟩) (by decide +kernel)

theorem restarted_reuses :
    ¬ ∀ p, PairedDevice p → ∀ inputs, ∀ s ∈ states (next default) ⟨p, []⟩ inputs,
      s.used.length < 2 ^ 32 → s.used.Nodup := by
  intro fresh
  have last := fresh pairedLamp pairedLamp_device [asked, .restart lamp (.zero 8), asked]
    (run (next default) ⟨pairedLamp, []⟩ [asked, .restart lamp (.zero 8), asked])
    (mem_states_iff.mpr ⟨_, [], by simp, rfl⟩)
  have used : (run (next default) ⟨pairedLamp, []⟩ [asked, .restart lamp (.zero 8), asked]).used =
      [(.zero 32, chatPacketCalcNonce 1 (.zero 8)), (.zero 32, chatPacketCalcNonce 1 (.zero 8))] := by
    decide +kernel
  rw [used] at last
  exact absurd (last (by decide)) (by decide)

end NonceReuse
