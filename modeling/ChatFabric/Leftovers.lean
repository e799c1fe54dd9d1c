import ChatFabric.DecodeOverlay
import ChatFabric.PacketPool

/- What the functions that clear a record leave in it. uuuid2_gen_nil returns before it clears
   anything, and some fields are not set at all. -/
namespace Leftovers
open ByteStrings ChatFabric PacketPool
open Esp8266 (ParamArea cell)

@[simp] theorem uuuid2GenNil_eq (u : Block 16) : uuuid2GenNil u = u := by
  rw [uuuid2GenNil, if_pos u.property]

def nilUuid : UuidTuple := ⟨.zero 16, .zero 16⟩

structure Forgets (p q : ChatFabricPairing) (random : Block 8) : Prop where
  same : cfPairInit p random = cfPairInit q random
  uuid : (cfPairInit p random).uuid = nilUuid

/-- Two records, unpaired with the same random bytes, become alike and without a uuid exactly where
    they were alike in the keys before, and had no uuids. -/
theorem forgets_iff (p q : ChatFabricPairing) (random : Block 8) :
    Forgets p q random ↔
      (p.uuid = nilUuid ∧ q.uuid = nilUuid) ∧ p.publickey = q.publickey ∧ p.sharedkey = q.sharedkey := by
  have kept : ∀ r : ChatFabricPairing, (cfPairInit r random).uuid = r.uuid := fun r => by simp [cfPairInit]
  constructor
  · rintro ⟨same, uuid⟩
    have uuids := congrArg ChatFabricPairing.uuid same
    rw [kept] at uuid
    rw [kept, kept] at uuids
    have publickey := congrArg ChatFabricPairing.publickey same
    have sharedkey := congrArg ChatFabricPairing.sharedkey same
    exact ⟨⟨uuid, uuids ▸ uuid⟩, publickey, sharedkey⟩
  · rintro ⟨⟨first, second⟩, publickey, sharedkey⟩
    constructor
    · simp [cfPairInit, first, second, publickey, sharedkey]
    · rw [kept, first]

def pairedRecord : ChatFabricPairing :=
  { zeroPairing with
    state := .paired
    uuid := ⟨.zero 16, .ofBytes 16 (List.replicate 16 7)⟩
    sharedkey := .ofBytes 32 (List.replicate 32 5) }

/-- Unpairing leaves the peer's uuid, and the key shared with it. -/
theorem pairedRecord_not_forgotten : ¬ ∀ p q random, Forgets p q random := by
  intro always
  have sharedkey := congrArg ChatFabricPairing.sharedkey (always pairedRecord zeroPairing (.zero 8)).same
  exact absurd sharedkey (by decide)

/-- The fields that stateMachine and the callback use, of two packets. action_data is followed
    as far as action_length says. -/
structure SameUsed (cp cp' : ChatPacket) : Prop where
  cmd : cp'.cmd = cp.cmd
  flags : cp'.flags = cp.flags
  serial : cp'.serial = cp.serial
  toUuid : cp'.toUuid = cp.toUuid
  fromUuid : cp'.fromUuid = cp.fromUuid
  nonce : cp'.nonce = cp.nonce
  publickey : cp'.publickey = cp.publickey
  payloadLength : cp'.payloadLength = cp.payloadLength
  payload : cp'.payload = cp.payload
  numOfControllers : cp'.numOfControllers = cp.numOfControllers
  action : cp'.action = cp.action
  actionControl : cp'.actionControl = cp.actionControl
  actionType : cp'.actionType = cp.actionType
  actionValue : cp'.actionValue = cp.actionValue
  actionLength : cp'.actionLength = cp.actionLength
  actionData : cp.actionLength ≠ 0 → cp'.actionData = cp.actionData

/-- The values of an entry's last packet that its constructor does not reset. -/
def left (cp : ChatPacket) : Overlay where
  flags := false
  nonce := some cp.nonce
  to0 := some cp.toUuid.u0
  to1 := some cp.toUuid.u1
  from0 := some cp.fromUuid.u0
  from1 := some cp.fromUuid.u1

theorem constructed_overlaid (random : PacketRandom) (cp : ChatPacket) :
    Overlaid (left cp) (constructed random zeroPacket) (constructed random cp) := by
  constructor
  · exact ⟨cp.actionData, by simp [constructed, Overlay.on, left]⟩
  · intro some
    exact absurd rfl some

/-- Each value that was left in the entry is either brought by the datagram or was zero. -/
structure Replaced (tags : List Tag) (old : ChatPacket) : Prop where
  nonce : .nonce ∈ tags ∨ old.nonce = .zero 8
  to0 : .to0 ∈ tags ∨ old.toUuid.u0 = .zero 16
  to1 : .to1 ∈ tags ∨ old.toUuid.u1 = .zero 16
  from0 : .from0 ∈ tags ∨ old.fromUuid.u0 = .zero 16
  from1 : .from1 ∈ tags ∨ old.fromUuid.u1 = .zero 16

theorem kept_iff {α : Type} {met : Prop} [Decidable met] {now zero : α} (old : α)
    (own : now = (if met then none else some zero).getD now) :
    (if met then none else some old).getD now = now ↔ met ∨ old = zero := by
  by_cases brought : met
  · simp [brought]
  · simp only [brought, if_false, Option.getD_some, false_or] at own ⊢
    rw [own]

theorem uuid_iff {u v : UuidTuple} : u = v ↔ u.u0 = v.u0 ∧ u.u1 = v.u1 := by
  cases u
  cases v
  simp

theorem sameUsed_of_overlaid {o : Overlay} {cp cp' : ChatPacket} (overlaid : Overlaid o cp cp')
    (toUuid : cp'.toUuid = cp.toUuid) (fromUuid : cp'.fromUuid = cp.fromUuid) (nonce : cp'.nonce = cp.nonce) :
    SameUsed cp cp' := by
  obtain ⟨⟨data, rfl⟩, kept⟩ := overlaid
  constructor
  case toUuid => exact toUuid
  case fromUuid => exact fromUuid
  case nonce => exact nonce
  case actionData => exact kept
  all_goals rfl

theorem sameUsed_iff {tags : List Tag} {old cp cp' : ChatPacket}
    (own : Overlaid ((left zeroPacket).after tags) cp cp) (reused : Overlaid ((left old).after tags) cp cp') :
    SameUsed cp cp' ↔ Replaced tags old := by
  obtain ⟨_, zeroed⟩ := own.rest
  obtain ⟨data, rest⟩ := reused.rest
  rw [Overlay.after_eq] at zeroed rest
  have target := congrArg ChatPacket.toUuid zeroed
  have sender := congrArg ChatPacket.fromUuid zeroed
  have nonce := kept_iff old.nonce (congrArg ChatPacket.nonce zeroed)
  have to0 := kept_iff old.toUuid.u0 (congrArg UuidTuple.u0 target)
  have to1 := kept_iff old.toUuid.u1 (congrArg UuidTuple.u1 target)
  have from0 := kept_iff old.fromUuid.u0 (congrArg UuidTuple.u0 sender)
  have from1 := kept_iff old.fromUuid.u1 (congrArg UuidTuple.u1 sender)
  have nonce' := congrArg ChatPacket.nonce rest
  have target' := congrArg ChatPacket.toUuid rest
  have sender' := congrArg ChatPacket.fromUuid rest
  simp only [Overlay.on, left] at nonce' target' sender'
  constructor
  · intro same
    have targets := uuid_iff.mp (target'.symm.trans same.toUuid)
    have senders := uuid_iff.mp (sender'.symm.trans same.fromUuid)
    exact ⟨nonce.mp (nonce'.symm.trans same.nonce), to0.mp targets.1, to1.mp targets.2,
      from0.mp senders.1, from1.mp senders.2⟩
  · intro replaced
    exact sameUsed_of_overlaid reused
      (target'.trans (uuid_iff.mpr ⟨to0.mpr replaced.to0, to1.mpr replaced.to1⟩))
      (sender'.trans (uuid_iff.mpr ⟨from0.mpr replaced.from0, from1.mpr replaced.from1⟩))
      (nonce'.trans (nonce.mpr replaced.nonce))

section
variable {Flash : Type} (crypto : Crypto)

def decodeFor (c : Call Flash) (cp : ChatPacket) (data : Bytes) : DecodeEnd :=
  chatPacketDecode (decodeEnv crypto c.delivery.world c.chip.pair) c.delivery.world.fuel cp 0 data
    c.delivery.length.toNat

def tagsFor (c : Call Flash) (data : Bytes) : List Tag :=
  tagsMet (history (decodeEnv crypto c.delivery.world c.chip.pair) c.delivery.world.fuel
    (constructed c.delivery.world.random zeroPacket) 0 data c.delivery.length.toNat)

/-- A call whose datagram is decoded is not told anything by the entry it decodes into. -/
def AsZeroed (pool : Pool) (c : Call Flash) : Prop :=
  ∀ i data cp n, pool.free = some i → c.delivery.data = some data →
    decodeFor crypto c (constructed c.delivery.world.random (pool.cpArray i).packet) data = .returned 0 cp n →
    ∃ cp₀, decodeFor crypto c (constructed c.delivery.world.random zeroPacket) data = .returned 0 cp₀ n ∧
      SameUsed cp₀ cp

/-- The datagrams that say nothing new are not decoded, or the entry has nothing to tell. -/
def Untold (pool : Pool) (c : Call Flash) : Prop :=
  ∀ i data cp n, pool.free = some i → c.delivery.data = some data →
    decodeFor crypto c (constructed c.delivery.world.random zeroPacket) data = .returned 0 cp n →
    Replaced (tagsFor crypto c data) (pool.cpArray i).packet

def EveryCall (sdk : ParamArea Flash) (meets : Pool → Call Flash → Prop) : Pool → List (Call Flash) → Prop
  | _, [] => True
  | pool, c :: calls => meets pool c ∧
    ∀ m pool', udpCallback crypto sdk c.chip pool c.delivery = .ok (m, pool') →
      EveryCall sdk meets pool' calls

theorem asZeroed_iff (pool : Pool) (c : Call Flash) : AsZeroed crypto pool c ↔ Untold crypto pool c := by
  have ends : ∀ old data, EndOverlaid ((left old).after (tagsFor crypto c data))
      (decodeFor crypto c (constructed c.delivery.world.random zeroPacket) data)
      (decodeFor crypto c (constructed c.delivery.world.random old) data) := by
    intro old data
    exact chatPacketDecode_overlaid _ _ _ _ _ _ _ _ (constructed_overlaid _ old)
  constructor
  · intro zeroed i data cp₀ n free here run
    have reused := ends (pool.cpArray i).packet data
    have own := ends zeroPacket data
    rw [run] at reused own
    cases own with
    | returned self =>
      generalize run' : decodeFor crypto c (constructed _ (pool.cpArray i).packet) data = result at reused
      cases reused with
      | returned packet =>
        obtain ⟨cp₁, again, same⟩ := zeroed i data _ n free here run'
        cases run.symm.trans again
        exact (sameUsed_iff self packet).mp same
  · intro untold i data cp n free here run'
    have reused := ends (pool.cpArray i).packet data
    have own := ends zeroPacket data
    rw [run'] at reused
    generalize run : decodeFor crypto c (constructed _ zeroPacket) data = result at reused own
    cases reused with
    | @returned _ cp₀ _ _ packet =>
      cases own with
      | returned self =>
        exact ⟨cp₀, rfl, (sameUsed_iff self packet).mpr (untold i data cp₀ n free here run)⟩

/-- In every sequence of calls, from the pool as the start leaves it, no call is told anything by the
    entry it decodes into exactly as long as what was left there is replaced. -/
theorem every_call_asZeroed_iff (sdk : ParamArea Flash) (pool : Pool) (calls : List (Call Flash)) :
    EveryCall crypto sdk (AsZeroed crypto) (chatFabricInit pool) calls ↔
      EveryCall crypto sdk (Untold crypto) (chatFabricInit pool) calls := by
  generalize chatFabricInit pool = start
  induction calls generalizing start with
  | nil => exact Iff.rfl
  | cons c calls ih =>
    simp only [EveryCall, asZeroed_iff, ih]

end

def signed : Call (Block Esp8266.imageSize) := calledWith (Tag.from0.toByte :: List.replicate 16 7)
def unsigned : Call (Block Esp8266.imageSize) := calledWith (Tag.flags.toByte :: be32 1)

/-- The second does not say who it is from, and is taken for one of the sender of the first. -/
theorem unsigned_told :
    ¬ ∀ calls, EveryCall default cell (AsZeroed default) (chatFabricInit zeroPool) calls := by
  intro always
  obtain ⟨_, later⟩ := always [signed, unsigned]
  have kept : (udpCallback default cell signed.chip (chatFabricInit zeroPool) signed.delivery).map
      (fun done => (done.2.free, (done.2.cpArray 0).packet.fromUuid.u0)) =
      .ok (some 0, .ofBytes 16 (List.replicate 16 7)) := by decide +kernel
  cases called : udpCallback default cell signed.chip (chatFabricInit zeroPool) signed.delivery with
  | error e => simp [called, Except.map] at kept
  | ok done =>
    obtain ⟨m, pool⟩ := done
    simp only [called, Except.map, Except.ok.injEq, Prod.mk.injEq] at kept
    obtain ⟨asZeroed, _⟩ := later m pool called
    have replaced := (asZeroed_iff default pool unsigned).mp asZeroed 0 _
      { constructed default zeroPacket with flags := 1 } 0 kept.1 rfl (by decide +kernel)
    rcases replaced.from0 with brought | zero
    · exact absurd brought (by decide +kernel)
    · exact absurd (kept.2.symm.trans zero) (by decide)

end Leftovers
