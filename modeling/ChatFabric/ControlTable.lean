import Mathlib.Algebra.Order.BigOperators.Group.List
import Mathlib.Algebra.Order.Group.Nat
import ChatFabric.DataArrival

/- A table of controls, from the device that lists them to the peer that asked for the list. -/
namespace ControlTable
open ByteStrings TagStream ChatFabric EncodeRoom PacketRoundTrip DataArrival

structure SameControl (c got : CfControl) : Prop where
  control : got.control = c.control
  type : got.type = c.type
  value : got.value = c.value
  rangeLow : got.rangeLow = c.rangeLow
  rangeHigh : got.rangeHigh = c.rangeHigh
  labelLength : got.labelLength = c.labelLength
  label : (got.label.getD []).take c.labelLength.toNat = (c.label.getD []).take c.labelLength.toNat
  data : CarriesData c →
    got.data.map (List.take c.value.toUInt32.toNat) = c.data.map (List.take c.value.toUInt32.toNat)

structure TableRecovered (controls : List CfControl) (got : ChatPacket) : Prop where
  count : got.numOfControllers.toInt = controls.length
  each : List.Forall₂ SameControl controls (got.controlers.getD [])

structure ListReply (cp : ChatPacket) (controls : List CfControl) : Prop where
  built : Built cp
  dataless : cp.action ≠ 0 → cp.actionLength = 0
  count : cp.numOfControllers.toInt = controls.length
  table : controls ≠ [] → cp.controlers = some controls
  backed : ∀ c ∈ controls, Backed c

/-- A control that comes back: it has a label, and of data at most a word of zeros. -/
def Restorable (c : CfControl) : Prop :=
  Labelled c ∧ (c.type = actionTypeData ∧ 0 < c.value → c.value.toUInt32.toNat ≤ 4 ∧
    c.data.map (List.take c.value.toUInt32.toNat) =
      some (List.replicate c.value.toUInt32.toNat 0))

instance (c : CfControl) : Decidable (Restorable c) := inferInstanceAs (Decidable (_ ∧ _))

variable {crypto : Crypto} {sender receiver : ChatFabricPairing} {junk : Nat → Nat → CfControl}
  {random : PacketRandom} {cp : ChatPacket} {controls : List CfControl} {c left : CfControl}

theorem sameControl_of_restorable (restorable : Restorable c) (backed : Backed c) (left : CfControl) :
    SameControl c (readControl c left) := by
  obtain ⟨labelled, data⟩ := restorable
  constructor
  · rfl
  · rfl
  · rfl
  · rfl
  · rfl
  · simp [readControl, labelled]
  · obtain ⟨s, label⟩ := Option.ne_none_iff_exists'.mp labelled.2
    have enough := backed.label s label
    simp [readControl, labelled, label, enough]
  · intro carries
    obtain ⟨_, zeros⟩ := data ⟨carries.1, carries.2.1⟩
    simp [readControl, carries, zeros]

theorem restorable_of_sameControl (same : SameControl c (readControl c left))
    (other : left.labelLength ≠ c.labelLength) (word : CarriesData c → c.value.toUInt32.toNat ≤ 4)
    (written : unwritten c = 0) : Restorable c := by
  constructor
  · by_contra unlabelled
    have length := same.labelLength
    simp only [readControl, if_neg unlabelled] at length
    exact other length
  · rintro ⟨type, value⟩
    have carries : CarriesData c := by
      refine ⟨type, value, fun null => ?_⟩
      simp [unwritten, type, value, null] at written
    refine ⟨word carries, ?_⟩
    rw [← same.data carries]
    simp [readControl, carries]

theorem written_of_restorable (restorable : Restorable c) : unwritten c = 0 := by
  obtain ⟨labelled, data⟩ := restorable
  unfold unwritten
  rw [if_neg, if_neg]
  · exact fun both => labelled.2 both.2
  · rintro ⟨type, value, null⟩
    obtain ⟨_, zeros⟩ := data ⟨type, value⟩
    simp [null] at zeros

theorem forall₂_readControl (controls : List CfControl) {left : List CfControl}
    (same : left.length = controls.length) :
    List.Forall₂ SameControl controls (List.zipWith readControl controls left) ↔
      ∀ p ∈ controls.zip left, SameControl p.1 (readControl p.1 p.2) := by
  induction controls generalizing left with
  | nil => simp
  | cons c controls ih =>
    obtain ⟨l, left, rfl⟩ := List.exists_cons_of_length_eq_add_one same
    have rest := ih (show left.length = controls.length by simpa using same)
    simp [rest]

theorem controlSize_le {controls : List CfControl} (member : c ∈ controls)
    (some : 0 < cp.numOfControllers) : controlSize c ≤ plainSize cp controls := by
  have each : controlSize c ≤ (controls.map controlSize).sum :=
    List.single_le_sum (by simp) _ (List.mem_map_of_mem member)
  unfold plainSize
  rw [if_pos some]
  omega

theorem labelLength_le (c : CfControl) : c.labelLength.toNat ≤ controlSize c := by
  by_cases labelled : 0 < c.labelLength
  · rw [controlSize, if_pos labelled]
    omega
  · have zero : c.labelLength.toNat = 0 := by
      simpa [UInt32.lt_iff_toNat_lt] using labelled
    omega

theorem withPlain_table (env : DecodeEnv) (q cp : ChatPacket) (controls : List CfControl) (n : Nat) :
    (withPlain env q cp controls n).numOfControllers =
        (if 0 < cp.numOfControllers then cp.numOfControllers else q.numOfControllers) ∧
      (withPlain env q cp controls n).controlers =
        if 0 < cp.numOfControllers then
          some (List.zipWith readControl controls (leftovers env n controls.length))
        else q.controlers := by
  unfold withPlain withPayload withFront withTable withActionData
  by_cases some : 0 < cp.numOfControllers
  · simp only [if_pos some]
    split <;> exact ⟨rfl, rfl⟩
  · simp only [if_neg some]
    split <;> split <;> exact ⟨rfl, rfl⟩

namespace ListReply

theorem some_iff (reply : ListReply cp controls) : 0 < cp.numOfControllers ↔ controls ≠ [] := by
  have count := reply.count
  rw [Int32.lt_iff_toInt_lt]
  cases controls with
  | nil => simp at count; simp [count]
  | cons c rest => simp at count; simp [count]

theorem listed (reply : ListReply cp controls) : listedControls cp = .ok controls := by
  by_cases some : 0 < cp.numOfControllers
  · rw [listedControls, if_pos some, reply.table (reply.some_iff.mp some)]
    simp [reply.count]
  · have none : controls = [] := by
      by_contra ne
      exact some (reply.some_iff.mpr ne)
    rw [listedControls, if_neg some, none]

theorem sound (reply : ListReply cp controls) {pad : Padding}
    (padding : cp.payloadRandomPaddingLength = pad.lengthByte) : Sound cp pad controls where
  padding := padding
  listed := reply.listed
  payload := reply.built.payload
  actionData action some := absurd some (by simp [reply.dataless action])
  backed := reply.backed

theorem frontReadable (reply : ListReply cp controls) (junk : Nat → Nat → CfControl) :
    FrontReadable (receiverEnv crypto receiver junk) cp controls where
  action action some := absurd some (by simp [reply.dataless action])
  actionMemory _ _ _ := rfl
  tableMemory _ _ := rfl

theorem label_bound (reply : ListReply cp controls) (size : plainSize cp controls + 105 < 2 ^ 31) :
    ∀ c ∈ controls, c.labelLength.toNat + 1 < 2 ^ 32 := by
  intro c member
  have some := reply.some_iff.mpr (List.ne_nil_of_mem member)
  have one := controlSize_le member some
  have label := labelLength_le c
  omega

theorem recovered_iff (reply : ListReply cp controls) {env : DecodeEnv} {n : Nat} {got : ChatPacket}
    (content : got.content = (withPlain env (openedPacket env sender random cp controls) cp controls
      n).content) :
    TableRecovered controls got ↔ ∀ p ∈ controls.zip (leftovers env n controls.length),
      SameControl p.1 (readControl p.1 p.2) := by
  have word {α : Type} (f : ChatPacket → α) := congrArg f content
  have number := word (·.numOfControllers)
  have table := word (·.controlers)
  simp only [ChatPacket.content, withPlain_table] at number table
  have count : got.numOfControllers.toInt = controls.length ∧ got.controlers.getD [] =
      List.zipWith readControl controls (leftovers env n controls.length) := by
    by_cases some : 0 < cp.numOfControllers
    · simp [number, table, some, reply.count]
    · have none : controls = [] := by
        by_contra ne
        exact some (reply.some_iff.mpr ne)
      simp [number, table, some, none, openedPacket, sectionPacket, withHeader, chatPacketInit0]
  rw [← forall₂_readControl controls (by simp [leftovers]), ← count.2]
  exact ⟨TableRecovered.each, fun each => ⟨count.1, each⟩⟩

section
variable (reply : ListReply cp controls) (keys : SharesKeys sender receiver)
  (size : plainSize cp controls + 105 < 2 ^ 31)
include reply keys size

theorem arrives_iff (crypto : Crypto) (random : PacketRandom) (junk : Nat → Nat → CfControl)
    (each : ∀ c ∈ controls, Readable c) :
    ∃ n, Arrives crypto sender receiver junk random cp (TableRecovered controls) ↔
      (controls.map unwritten).sum = 0 ∧
        ∀ p ∈ controls.zip (leftovers (receiverEnv crypto receiver junk) n controls.length),
          SameControl p.1 (readControl p.1 p.2) := by
  obtain ⟨pad, padding⟩ := reply.built.payloadPadding.split
  obtain ⟨n, got, content, arrives⟩ := arrives_iff_written (reply.sound padding) size random
    (TableRecovered controls) keys (reply.frontReadable junk) each
  refine ⟨n, arrives.trans ?_⟩
  rw [reply.recovered_iff content]

theorem readable_of_arrives
    (arrives : Arrives crypto sender receiver junk random cp (TableRecovered controls)) :
    ∀ c ∈ controls, Readable c := by
  obtain ⟨pad, padding⟩ := reply.built.payloadPadding.split
  intro c member
  refine ⟨reply.backed c member, reply.label_bound size c member, fun carries => ?_⟩
  by_contra long
  exact not_arrives_long (reply.sound padding) size keys (reply.frontReadable junk)
    (reply.label_bound size) ⟨c, member, carries, by omega⟩ arrives

theorem restorable_of_arrives
    (arrives : ∀ junk, Arrives crypto sender receiver junk random cp (TableRecovered controls)) :
    ∀ c ∈ controls, Restorable c := by
  intro c member
  -- memory that holds another label length than that of c
  let left : CfControl := ⟨0, 0, 0, 0, 0, c.labelLength + 1, none, none⟩
  have each := reply.readable_of_arrives keys size (arrives fun _ _ => left)
  obtain ⟨n, iff⟩ := reply.arrives_iff keys size crypto random (fun _ _ => left) each
  obtain ⟨written, same⟩ := iff.mp (arrives fun _ _ => left)
  have zero : unwritten c = 0 :=
    (List.sum_eq_zero_iff_forall_eq_nat.mp written) _ (List.mem_map_of_mem member)
  have there : (c, left) ∈ controls.zip
      (leftovers (receiverEnv crypto receiver fun _ _ => left) n controls.length) := by
    obtain ⟨i, bound, here⟩ := List.getElem_of_mem member
    refine List.mem_iff_getElem.mpr ⟨i, by simp [leftovers, bound], ?_⟩
    simp [leftovers, receiverEnv, here]
  exact restorable_of_sameControl (same _ there) (by simp [left]) (each c member).word zero

theorem arrives_of_restorable (restorable : ∀ c ∈ controls, Restorable c) (crypto : Crypto)
    (random : PacketRandom) (junk : Nat → Nat → CfControl) :
    Arrives crypto sender receiver junk random cp (TableRecovered controls) := by
  have each : ∀ c ∈ controls, Readable c := by
    intro c member
    exact ⟨reply.backed c member, reply.label_bound size c member, fun carries =>
      ((restorable c member).2 ⟨carries.1, carries.2.1⟩).1⟩
  obtain ⟨n, iff⟩ := reply.arrives_iff keys size crypto random junk each
  refine iff.mpr ⟨?_, ?_⟩
  · rw [List.sum_eq_zero_iff_forall_eq_nat]
    simp only [List.mem_map]
    rintro _ ⟨c, member, rfl⟩
    exact written_of_restorable (restorable c member)
  · intro p member
    have inside := (List.of_mem_zip member).1
    exact sameControl_of_restorable (restorable p.1 inside) (reply.backed p.1 inside) p.2

end

end ListReply

/-- A table comes back from every receiver, whatever its memory holds, exactly if each of its
    controls has a label and no more data than a word of zeros. -/
theorem table_iff (crypto : Crypto) (sender receiver : ChatFabricPairing) (random : PacketRandom)
    (cp : ChatPacket) (controls : List CfControl) (reply : ListReply cp controls)
    (keys : SharesKeys sender receiver) (size : plainSize cp controls + 105 < 2 ^ 31) :
    (∀ junk, Arrives crypto sender receiver junk random cp (TableRecovered controls)) ↔
      ∀ c ∈ controls, Restorable c :=
  ⟨reply.restorable_of_arrives keys size, fun restorable =>
    reply.arrives_of_restorable keys size restorable crypto random⟩

def listOf (controls : List CfControl) : ChatPacket :=
  { chatPacketInit0 default with
    cmd := .appListAck
    controlers := some controls
    numOfControllers := Int32.ofNat controls.length }

theorem listOf_reply {controls : List CfControl} (few : controls.length < 2 ^ 31)
    (backed : ∀ c ∈ controls, Backed c) : ListReply (listOf controls) controls where
  built := ⟨lengthByte_padded _, lengthByte_padded _, by simp [listOf, chatPacketInit0]⟩
  dataless := by simp [listOf, chatPacketInit0, actionNull]
  count := by
    simp only [listOf]
    rw [Int32.toInt_ofNat_of_lt few]
  table _ := rfl
  backed := backed

def lamp : CfControl := ⟨0, 1, 1, 0, 1, 4, some [108, 97, 109, 112], none⟩
def display : CfControl := ⟨4, actionTypeData, 2, 0, 255, 7, some [100, 105, 115, 112, 108, 97, 121], some [0, 0]⟩
def memo : CfControl := ⟨3, actionTypeData, 2, 0, 255, 4, some [109, 101, 109, 111], some [104, 105]⟩

theorem lamp_backed : Backed lamp :=
  ⟨fun s label => by cases label; decide, fun type => absurd type (by decide)⟩

theorem display_backed : Backed display :=
  ⟨fun s label => by cases label; decide, fun _ _ s data => by cases data; decide⟩

theorem memo_backed : Backed memo :=
  ⟨fun s label => by cases label; decide, fun _ _ s data => by cases data; decide⟩

theorem table_iff_display : Arrives default default default (fun _ _ => memo) default
    (listOf [lamp, display]) (TableRecovered [lamp, display]) := by
  have reply : ListReply (listOf [lamp, display]) [lamp, display] :=
    listOf_reply (by decide) (by simpa using ⟨lamp_backed, display_backed⟩)
  exact (table_iff default default default default (listOf [lamp, display]) [lamp, display] reply
    ⟨rfl, rfl, rfl⟩ (by decide)).mpr (by decide) fun _ _ => memo

theorem memo_not_recovered :
    ¬ ∀ crypto sender receiver junk random cp controls, ListReply cp controls →
      SharesKeys sender receiver → plainSize cp controls + 105 < 2 ^ 31 →
      Arrives crypto sender receiver junk random cp (TableRecovered controls) := by
  intro arrives
  have reply : ListReply (listOf [memo]) [memo] := listOf_reply (by decide) (by simpa using memo_backed)
  have restorable := reply.restorable_of_arrives ⟨rfl, rfl, rfl⟩ (by decide) fun junk =>
    arrives default default default junk default _ _ reply ⟨rfl, rfl, rfl⟩ (by decide)
  revert restorable
  decide

end ControlTable
