import ChatFabric.EspDevice
import Mathlib.Logic.Function.Basic

/- The packets of the ESP8266 build, which come from a table of sixteen and go back to it, and
   the calls of udp_callback that take them. An entry keeps what its last packet left in it. -/
namespace PacketPool
open ByteStrings ChatFabric Esp8266

abbrev maxPairs : Nat := 16

/-- chatPacket with the member that only this build has. -/
structure Entry where
  packet : ChatPacket
  cpindex : Fin maxPairs

/-- cpArray and cpStatus; -1 is the status of a free entry. -/
structure Pool where
  cpArray : Fin maxPairs → Entry
  cpStatus : Fin maxPairs → Int

/-- The pool is left as it was but for the status. -/
def chatFabricInit (pool : Pool) : Pool := { pool with cpStatus := fun _ => -1 }

/-- What the constructor makes of an entry. It sets neither the nonce nor action_data, and
    uuuid2_gen_nil clears nothing. -/
def constructed (random : PacketRandom) (cp : ChatPacket) : ChatPacket :=
  { ChatFabric.chatPacketInit0 random with
    nonce := cp.nonce
    toUuid := ⟨uuuid2GenNil cp.toUuid.u0, uuuid2GenNil cp.toUuid.u1⟩
    fromUuid := ⟨uuuid2GenNil cp.fromUuid.u0, uuuid2GenNil cp.fromUuid.u1⟩
    actionData := cp.actionData }

namespace Pool

def free (pool : Pool) : Option (Fin maxPairs) :=
  (List.finRange maxPairs).find? fun i => pool.cpStatus i = -1

/-- Where no entry is free, cp is left uninitialised. -/
def chatPacketInit0 (pool : Pool) (random : PacketRandom) : Option (Fin maxPairs × Pool) :=
  pool.free.map fun i => (i, {
    cpArray := Function.update pool.cpArray i ⟨constructed random (pool.cpArray i).packet, i⟩
    cpStatus := Function.update pool.cpStatus i 1 })

def chatPacketDelete (pool : Pool) (i : Fin maxPairs) : Pool :=
  { pool with cpStatus := Function.update pool.cpStatus (pool.cpArray i).cpindex (-1) }

def store (pool : Pool) (i : Fin maxPairs) (cp : ChatPacket) : Pool :=
  { pool with cpArray := Function.update pool.cpArray i { pool.cpArray i with packet := cp } }

def AllFree (pool : Pool) : Prop := ∀ i, pool.cpStatus i = -1

end Pool

structure Delivery where
  world : World
  panel : Panel
  data : Option Bytes
  length : UInt16

inductive Stop where
  | halt (h : Halt)
  | uninitialised      -- a packet is used that no entry was found for
  deriving DecidableEq

variable {Flash : Type}

def receive (crypto : Crypto) (m : Chip Flash) (pool : Pool) (w : World) (mesg : Bytes) (n : Nat) :
    Except Stop (Fin maxPairs × Pool) :=
  match pool.chatPacketInit0 w.random with
  | none => .error .uninitialised
  | some (i, pool) =>
    match chatPacketDecode (decodeEnv crypto w m.pair) w.fuel (pool.cpArray i).packet 0 mesg n with
    | .returned ret cp allocs =>
      if ret ≠ 0 then .ok (i, pool.store i { cp with cmd := .packetDecryptFailed })
      else match fillPayload w allocs cp default with
        | .ok _ => .ok (i, pool.store i cp)
        | .error f => .error (.halt (.fault f))
    | .fault f => .error (.halt (.fault f))
    | .endless => .error (.halt .endless)

structure Taken where
  cp : Fin maxPairs
  reply : Fin maxPairs
  pool : Pool

def takePackets (crypto : Crypto) (m : Chip Flash) (pool : Pool) (w : World) (mesg : Bytes) (n : Nat) :
    Except Stop Taken := do
  let (i, pool) ← receive crypto m pool w mesg n
  match pool.chatPacketInit0 w.replyRandom with
  | none => .error .uninitialised
  | some (j, pool) => .ok ⟨i, j, pool⟩

/-- The rest of the call. The reply is released whether it was sent or not. What the encoder
    stores in it, the serial and the length of the envelope, the constructor sets anew. -/
def usePackets (crypto : Crypto) (sdk : ParamArea Flash) (m : Chip Flash) (w : World) (panel : Panel)
    (t : Taken) : Except Fault (Chip Flash × Pool) := do
  let cp := (t.pool.cpArray t.cp).packet
  let reply := (t.pool.cpArray t.reply).packet
  let (m, o) ← stateMachine crypto sdk m ⟨cp, reply, w.replyCmd, panel⟩
  let o := runCallback (some (deviceCallBack panel)) cp o
  let sent ← sendReply crypto o
  let pool := (t.pool.store t.reply o.reply).chatPacketDelete t.reply
  .ok ({ m with config := sent.1.config, pair := sent.1.pair }, pool.chatPacketDelete t.cp)

def chatFabricDevice (crypto : Crypto) (sdk : ParamArea Flash) (m : Chip Flash) (pool : Pool)
    (w : World) (panel : Panel) (mesg : Bytes) (n : Int32) : Except Stop (Chip Flash × Pool) :=
  if n = -1 then .ok (m, pool)
  else do
    let t ← takePackets crypto m pool w mesg n.toInt.toNat
    (usePackets crypto sdk m w panel t).mapError fun f => .halt (.fault f)

def udpCallback (crypto : Crypto) (sdk : ParamArea Flash) (m : Chip Flash) (pool : Pool) (d : Delivery) :
    Except Stop (Chip Flash × Pool) :=
  match d.data with
  | none => .ok (m, pool)
  | some data => chatFabricDevice crypto sdk m pool d.world d.panel data d.length.toUInt32.toInt32

/-- A call, on whatever the chip is by then: between two calls the shell and the timers run. -/
structure Call (Flash : Type) where
  chip : Chip Flash
  delivery : Delivery

def serve (crypto : Crypto) (sdk : ParamArea Flash) : Pool → List (Call Flash) → Except Stop Pool
  | pool, [] => .ok pool
  | pool, c :: calls => do
    let done ← udpCallback crypto sdk c.chip pool c.delivery
    serve crypto sdk done.2 calls

/-- The chip fares as with packets that nobody else holds. -/
theorem usePackets_chip (crypto : Crypto) (sdk : ParamArea Flash) (m : Chip Flash) (w : World)
    (panel : Panel) (t : Taken) :
    (usePackets crypto sdk m w panel t).map Prod.fst =
      Esp8266.chatFabricDevice crypto sdk m
        ⟨(t.pool.cpArray t.cp).packet, (t.pool.cpArray t.reply).packet, w.replyCmd, panel⟩ := by
  simp only [usePackets, Esp8266.chatFabricDevice, bind, Except.bind]
  cases stateMachine crypto sdk m
    ⟨(t.pool.cpArray t.cp).packet, (t.pool.cpArray t.reply).packet, w.replyCmd, panel⟩ with
  | error f => rfl
  | ok o =>
    simp only
    cases sendReply crypto
      (runCallback (some (Esp8266.deviceCallBack panel)) (t.pool.cpArray t.cp).packet o.2) with
    | error f => rfl
    | ok sent => rfl

namespace Pool
variable {pool : Pool} {i j : Fin maxPairs}

theorem free_some (one : pool.cpStatus i = -1) : ∃ j, pool.free = some j ∧ pool.cpStatus j = -1 := by
  cases found : pool.free with
  | none =>
    have none := List.find?_eq_none.mp found i (List.mem_finRange i)
    simp [one] at none
  | some j => exact ⟨j, rfl, by simpa using List.find?_some found⟩

structure Takes (pool : Pool) (i : Fin maxPairs) (taken : Pool) : Prop where
  was : pool.cpStatus i = -1
  status : taken.cpStatus = Function.update pool.cpStatus i 1
  index : (taken.cpArray i).cpindex = i
  others : ∀ j, j ≠ i → taken.cpArray j = pool.cpArray j

theorem init0_takes {random : PacketRandom} {taken : Pool}
    (done : pool.chatPacketInit0 random = some (i, taken)) : pool.Takes i taken := by
  simp only [chatPacketInit0, Option.map_eq_some_iff, Prod.mk.injEq] at done
  obtain ⟨k, found, rfl, rfl⟩ := done
  refine ⟨by simpa using List.find?_some found, rfl, by simp, ?_⟩
  intro j other
  exact Function.update_of_ne other _ _

theorem init0_some (random : PacketRandom) (one : pool.cpStatus i = -1) :
    pool.chatPacketInit0 random ≠ none := by
  obtain ⟨j, found, _⟩ := free_some one
  simp [chatPacketInit0, found]

@[simp] theorem store_status (cp : ChatPacket) : (pool.store i cp).cpStatus = pool.cpStatus := rfl

@[simp] theorem store_index (cp : ChatPacket) :
    ((pool.store i cp).cpArray j).cpindex = (pool.cpArray j).cpindex := by
  by_cases same : j = i
  · subst same
    simp [store]
  · simp [store, Function.update_of_ne same]

@[simp] theorem delete_array : (pool.chatPacketDelete i).cpArray = pool.cpArray := rfl

end Pool

variable {crypto : Crypto} {sdk : ParamArea Flash} {m m' : Chip Flash} {pool pool' : Pool} {w : World}
  {panel : Panel} {mesg : Bytes} {n : Nat}

theorem receive_ok {i : Fin maxPairs} (done : receive crypto m pool w mesg n = .ok (i, pool')) :
    ∃ taken cp, pool.Takes i taken ∧ pool' = taken.store i cp := by
  unfold receive at done
  cases found : pool.chatPacketInit0 w.random with
  | none => simp [found] at done
  | some one =>
    obtain ⟨j, taken⟩ := one
    have takes := Pool.init0_takes found
    simp only [found] at done
    split at done
    · split at done
      · cases done
        exact ⟨taken, _, takes, rfl⟩
      · split at done
        · cases done
          exact ⟨taken, _, takes, rfl⟩
        · cases done
    · cases done
    · cases done

theorem receive_finds (free : pool.AllFree) : receive crypto m pool w mesg n ≠ .error .uninitialised := by
  unfold receive
  cases found : pool.chatPacketInit0 w.random with
  | none => exact absurd found (Pool.init0_some w.random (free 0))
  | some one =>
    simp only
    split
    · split
      · simp
      · split <;> simp
    · simp
    · simp

structure TwoTaken (pool : Pool) (t : Taken) : Prop where
  apart : t.cp ≠ t.reply
  cpWas : pool.cpStatus t.cp = -1
  replyWas : pool.cpStatus t.reply = -1
  others : ∀ k, k ≠ t.cp → k ≠ t.reply → t.pool.cpStatus k = pool.cpStatus k
  cpIndex : (t.pool.cpArray t.cp).cpindex = t.cp
  replyIndex : (t.pool.cpArray t.reply).cpindex = t.reply

theorem takePackets_ok {t : Taken} (done : takePackets crypto m pool w mesg n = .ok t) :
    TwoTaken pool t := by
  simp only [takePackets, bind, Except.bind] at done
  cases received : receive crypto m pool w mesg n with
  | error e => simp [received] at done
  | ok one =>
    obtain ⟨i, between⟩ := one
    simp only [received] at done
    cases found : between.chatPacketInit0 w.replyRandom with
    | none => simp [found] at done
    | some two =>
      obtain ⟨j, taken⟩ := two
      simp only [found, Except.ok.injEq] at done
      subst done
      obtain ⟨first, cp, takes, rfl⟩ := receive_ok received
      have second := Pool.init0_takes found
      have apart : i ≠ j := by
        rintro rfl
        have was := second.was
        rw [Pool.store_status, takes.status, Function.update_self] at was
        cases was
      refine ⟨apart, takes.was, ?_, ?_, ?_, second.index⟩
      · have was := second.was
        rwa [Pool.store_status, takes.status, Function.update_of_ne apart.symm] at was
      · intro k notCp notReply
        rw [second.status, Function.update_of_ne notReply, Pool.store_status, takes.status,
          Function.update_of_ne notCp]
      · rw [second.others i apart, Pool.store_index, takes.index]

theorem takePackets_finds (free : pool.AllFree) :
    takePackets crypto m pool w mesg n ≠ .error .uninitialised := by
  simp only [takePackets, bind, Except.bind]
  cases received : receive crypto m pool w mesg n with
  | error e =>
    rintro ⟨⟩
    exact receive_finds free received
  | ok one =>
    obtain ⟨i, between⟩ := one
    obtain ⟨first, cp, takes, rfl⟩ := receive_ok received
    -- any entry but the one just taken
    obtain ⟨k, other⟩ : ∃ k : Fin maxPairs, k ≠ i := exists_ne i
    have stillFree : (first.store i cp).cpStatus k = -1 := by
      rw [Pool.store_status, takes.status, Function.update_of_ne other]
      exact free k
    cases found : (first.store i cp).chatPacketInit0 w.replyRandom with
    | none => exact absurd found (Pool.init0_some w.replyRandom stillFree)
    | some two => simp [found]

theorem usePackets_frees {t : Taken} (taken : TwoTaken pool t) (free : pool.AllFree)
    (done : usePackets crypto sdk m w panel t = .ok (m', pool')) : pool'.AllFree := by
  simp only [usePackets, bind, Except.bind] at done
  split at done
  · cases done
  · split at done
    · cases done
    · cases done
      intro k
      simp only [Pool.chatPacketDelete, Pool.store_index, Pool.store_status, taken.cpIndex, taken.replyIndex]
      by_cases isCp : k = t.cp
      · rw [isCp, Function.update_self]
      · rw [Function.update_of_ne isCp]
        by_cases isReply : k = t.reply
        · rw [isReply, Function.update_self]
        · rw [Function.update_of_ne isReply, taken.others k isCp isReply]
          exact free k

structure Served (crypto : Crypto) (sdk : ParamArea Flash) (pool : Pool) (c : Call Flash) : Prop where
  found : udpCallback crypto sdk c.chip pool c.delivery ≠ .error .uninitialised
  apart : ∀ mesg n t, takePackets crypto c.chip pool c.delivery.world mesg n = .ok t → t.cp ≠ t.reply
  freed : ∀ m pool', udpCallback crypto sdk c.chip pool c.delivery = .ok (m, pool') → pool'.AllFree

theorem served_of_allFree (free : pool.AllFree) (c : Call Flash) : Served crypto sdk pool c := by
  constructor
  · unfold udpCallback chatFabricDevice
    split
    · simp
    · split
      · simp
      · simp only [bind, Except.bind]
        split
        · rename_i failed
          rintro ⟨⟩
          exact takePackets_finds free failed
        · cases usePackets crypto sdk c.chip c.delivery.world c.delivery.panel _ <;> simp [Except.mapError]
  · intro mesg n t done
    exact (takePackets_ok done).apart
  · intro m pool' done
    unfold udpCallback chatFabricDevice at done
    split at done
    · cases done
      exact free
    · split at done
      · cases done
        exact free
      · simp only [bind, Except.bind] at done
        split at done
        · cases done
        · rename_i t took
          cases used : usePackets crypto sdk c.chip c.delivery.world c.delivery.panel t with
          | error f => simp [used, Except.mapError] at done
          | ok after =>
            simp only [used, Except.mapError, Except.ok.injEq] at done
            subst done
            exact usePackets_frees (takePackets_ok took) free used

theorem serve_allFree {calls : List (Call Flash)} (free : pool.AllFree)
    (served : serve crypto sdk pool calls = .ok pool') : pool'.AllFree := by
  induction calls generalizing pool with
  | nil =>
    cases served
    exact free
  | cons c calls ih =>
    simp only [serve, bind, Except.bind] at served
    split at served
    · cases served
    · rename_i done called
      exact ih ((served_of_allFree free c).freed _ _ called) served

/-- However many calls there were, all entries are free, and the next call finds its two. -/
theorem every_call_served {calls : List (Call Flash)}
    (served : serve crypto sdk (chatFabricInit pool) calls = .ok pool') (c : Call Flash) :
    pool'.AllFree ∧ Served crypto sdk pool' c := by
  have free : pool'.AllFree := serve_allFree (fun i => rfl) served
  exact ⟨free, served_of_allFree free c⟩

def zeroPacket : ChatPacket where
  cmd := .invaildCmd
  flags := 0
  payloadLength := 0
  serial := 0
  wasEncrypted := 0
  controlers := none
  numOfControllers := 0
  nonce := .zero 8
  envelopeLength := 0
  envelopeRandomPaddingLength := 0
  envelopeRandomPadding := .zero 16
  toUuid := ⟨.zero 16, .zero 16⟩
  fromUuid := ⟨.zero 16, .zero 16⟩
  publickey := .zero 32
  payloadRandomPaddingLength := 0
  payloadRandomPadding := .zero 16
  payload := none
  action := actionNull
  actionControl := 0
  actionType := 0
  actionValue := 0
  actionLength := 0
  actionData := none

def zeroPool : Pool := ⟨fun _ => ⟨zeroPacket, ⟨0, by decide⟩⟩, fun _ => 0⟩

def calledWith (data : Bytes) : Call (Block imageSize) where
  chip := ⟨default, zeroPairing, .zero imageSize, .zero imageSize⟩
  delivery := {
    world := ⟨default, default, fun _ => true, fun _ _ => ⟨0, 0, 0, 0, 0, 0, none, none⟩,
      ⟨true, true⟩, .sendReplyFalse, 30⟩
    panel := ⟨fun _ => false, fun _ => none⟩
    data := some data
    length := UInt16.ofNat data.length }

def twoCalls : List (Call (Block imageSize)) := [calledWith [0], calledWith (Tag.flags.toByte :: be32 1)]

theorem every_call_served_two :
    ∃ pool, serve default cell (chatFabricInit zeroPool) twoCalls = .ok pool ∧
      ∀ c, pool.AllFree ∧ Served default cell pool c := by
  have returns : (serve default cell (chatFabricInit zeroPool) twoCalls).isOk = true := by decide +kernel
  cases served : serve default cell (chatFabricInit zeroPool) twoCalls with
  | error e => simp [served, Except.isOk, Except.toBool] at returns
  | ok pool => exact ⟨pool, rfl, every_call_served served⟩

end PacketPool
