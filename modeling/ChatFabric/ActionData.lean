import ChatFabric.Controller
import ChatFabric.DataArrival

/- The data of an action. The decoder passes them by the length of the payload, and the
   controller never hands them to the encoder. -/
namespace ActionData
open ByteStrings WhileLoop TagStream ChatFabric EncodeRoom PacketRoundTrip DataArrival

/-- A packet with n bytes of action data and m of payload, and any table that is read back. -/
structure Carrying (n m : UInt32) (cp : ChatPacket) (controls : List CfControl) : Prop where
  built : Built cp
  action : cp.action ≠ 0
  actionLength : cp.actionLength = n
  actionData : ∃ d, cp.actionData = some d ∧ n.toNat ≤ d.length
  payloadLength : cp.payloadLength = m
  listed : listedControls cp = .ok controls
  table : ∀ c ∈ controls, Readable c ∧ unwritten c = 0
  size : plainSize cp controls + 105 < 2 ^ 31

structure ActionRecovered (cp got : ChatPacket) : Prop where
  action : got.action = cp.action
  actionControl : got.actionControl = cp.actionControl
  actionType : got.actionType = cp.actionType
  actionValue : got.actionValue = cp.actionValue
  actionLength : got.actionLength = cp.actionLength
  actionData : got.actionData.map (List.take cp.actionLength.toNat) =
    cp.actionData.map (List.take cp.actionLength.toNat)
  payloadLength : got.payloadLength = cp.payloadLength
  payload : (got.payload.getD []).take cp.payloadLength.toNat =
    (cp.payload.getD []).take cp.payloadLength.toNat

variable {crypto : Crypto} {sender receiver : ChatFabricPairing} {junk : Nat → Nat → CfControl}
  {random : PacketRandom} {cp : ChatPacket} {controls : List CfControl} {pad : Padding} {n m : UInt32}

theorem withPlain_eq (env : DecodeEnv) (q : ChatPacket) (controls : List CfControl) (k : Nat)
    (action : cp.action ≠ 0) (length : 0 < cp.actionLength) :
    withPlain env q cp controls k = { withPlain env q cp controls k with
      action := cp.action
      actionControl := cp.actionControl
      actionType := cp.actionType
      actionValue := cp.actionValue
      actionLength := cp.actionLength
      actionData := some ((cp.actionData.getD []).take cp.actionLength.toNat)
      payloadLength := cp.payloadLength
      payload := if 0 < cp.payloadLength then
        some ((cp.payload.getD []).take cp.payloadLength.toNat ++
          (q.payload.getD []).drop cp.payloadLength.toNat) else q.payload } := by
  unfold withPlain withPayload withFront withTable withActionData
  rw [if_pos action, if_pos length]
  split <;> split <;> rfl

namespace Carrying

theorem sound (carrying : Carrying n m cp controls)
    (padding : cp.payloadRandomPaddingLength = pad.lengthByte) : Sound cp pad controls where
  padding := padding
  listed := carrying.listed
  payload := carrying.built.payload
  actionData _ _ := by
    rw [carrying.actionLength]
    exact carrying.actionData
  backed c member := (carrying.table c member).1.backed

theorem written (carrying : Carrying n m cp controls) : (controls.map unwritten).sum = 0 := by
  rw [List.sum_eq_zero_iff_forall_eq_nat]
  simp only [List.mem_map]
  rintro _ ⟨c, member, rfl⟩
  exact (carrying.table c member).2

theorem frontReadable (carrying : Carrying n n cp controls) (junk : Nat → Nat → CfControl) :
    FrontReadable (receiverEnv crypto receiver junk) cp controls where
  action _ _ := carrying.payloadLength.trans carrying.actionLength.symm
  actionMemory _ _ _ := rfl
  tableMemory _ _ := rfl

theorem recovered (carrying : Carrying n m cp controls) (some : 0 < n) {env : DecodeEnv}
    {q got : ChatPacket} {k : Nat}
    (content : got.content = (withPlain env q cp controls k).content) : ActionRecovered cp got := by
  have length : 0 < cp.actionLength := by rwa [carrying.actionLength]
  obtain ⟨d, data, enough⟩ := carrying.actionData
  rw [withPlain_eq env q controls k carrying.action length] at content
  have word {α : Type} (f : ChatPacket → α) := congrArg f content
  constructor
  · exact word (·.action)
  · exact word (·.actionControl)
  · exact word (·.actionType)
  · exact word (·.actionValue)
  · exact word (·.actionLength)
  · have bytes := word (·.actionData)
    simp only [ChatPacket.content] at bytes
    simp [bytes, data]
  · exact word (·.payloadLength)
  · have bytes := word (·.payload)
    simp only [ChatPacket.content] at bytes
    rw [bytes]
    by_cases paid : 0 < cp.payloadLength
    · obtain ⟨v, here, whole⟩ := carrying.built.payload paid
      simp [paid, here, whole]
    · have zero : cp.payloadLength.toNat = 0 := by
        simpa [UInt32.lt_iff_toNat_lt] using paid
      simp [zero]

theorem arrives (carrying : Carrying n n cp controls) (some : 0 < n)
    (keys : SharesKeys sender receiver) (crypto : Crypto) (junk : Nat → Nat → CfControl)
    (random : PacketRandom) :
    Arrives crypto sender receiver junk random cp (ActionRecovered cp) := by
  obtain ⟨pad, padding⟩ := carrying.built.payloadPadding.split
  obtain ⟨k, got, content, arrives⟩ := arrives_iff_written (carrying.sound padding) carrying.size random
    (ActionRecovered cp) keys (carrying.frontReadable junk) fun c member => (carrying.table c member).1
  exact arrives.mpr ⟨carrying.written, carrying.recovered some content⟩

end Carrying

def behindData (cp : ChatPacket) (controls : List CfControl) : Bytes :=
  fieldBytes (plainFields (tableFields cp controls)) ++ (fieldBytes (plainFields (backFields cp)) ++
    List.replicate (controls.map unwritten).sum 0)

theorem decodes_skewed (env : DecodeEnv) (memory : ∀ n, env.alloc n = true)
    (sound : Sound cp pad controls) (size : plainSize cp controls < 2 ^ 32) (q : ChatPacket)
    (allocs : Nat) (enough : ¬ q.payloadLength < cp.payloadLength) (action : cp.action ≠ 0)
    (length : 0 < cp.actionLength) {d more : Bytes} (data : cp.actionData = some d)
    (whole : cp.actionLength.toNat ≤ d.length)
    (zero : (d.take cp.actionLength.toNat ++ behindData cp controls).drop cp.payloadLength.toNat =
      0 :: more) :
    ∃ fuel q' allocs', chatPacketDecode env fuel q allocs (plainBytes cp controls)
      (plainBytes cp controls).length = .returned (-1) q' allocs' := by
  rw [behindData] at zero
  have small : (plainBytes cp controls).length < 2 ^ 32 := by rwa [length_plainBytes sound]
  have ahead := ahead_plain cp controls q allocs
  rw [frontFields, plain_append, plain_append, List.append_assoc, List.append_assoc] at ahead
  obtain ⟨t, declared, _, _, content⟩ := reads_declared env (chatPacketDecode env 0) (Nat.le_refl _) small
    sound enough ahead
  have after := declared.ahead
  rw [actionFields_split action, plain_append, List.append_assoc] at after
  obtain ⟨i, a, words⟩ := reads_actionWords env (chatPacketDecode env 0) (Nat.le_refl _) small after
    fun _ => memory
  have here := words.ahead
  rw [if_pos length, data, plain_data8, plain_nil, List.append_nil] at here
  have taken : (d.take cp.actionLength.toNat).length = cp.actionLength.toNat := by simpa using whole
  have declaredLength : t.cp.payloadLength = cp.payloadLength := by
    have word := congrArg ChatPacket.payloadLength content
    exact word
  obtain ⟨j, skewed⟩ := reads_skewedData env (chatPacketDecode env 0)
    (d := List.replicate cp.actionLength.toNat 0) (Nat.le_refl _) small here
    (ne_nil_of_take length whole) (by simp [withAction, taken]) (by simp [withAction, length])
    (by simp [taken]) (by
      have within := congrArg List.length zero
      simp only [List.length_drop, List.length_cons] at within
      simp only [withAction, declaredLength]
      omega)
  have landed := skewed.ahead
  rw [← declaredLength] at zero
  simp only [withAction] at landed
  rw [zero] at landed
  obtain ⟨inside, q', allocs', leave⟩ := body_zero env (chatPacketDecode env 0) landed
  obtain ⟨fuel, run⟩ := chatPacketDecode_exit (declared.trans (words.trans skewed)).reach inside leave
    (by simp)
  exact ⟨fuel, q', allocs', run⟩

def zeroPacket (n m : UInt32) : ChatPacket :=
  { chatPacketInit0 default with
    cmd := .appMessage
    payloadLength := m
    payload := some (List.replicate m.toNat 0)
    action := actionSet
    actionLength := n
    actionData := some (List.replicate n.toNat 0) }

theorem zeroPacket_carrying {n m : UInt32} (small : n.toNat + m.toNat + 157 < 2 ^ 31) :
    Carrying n m (zeroPacket n m) [] where
  built := ⟨lengthByte_padded _, lengthByte_padded _, fun _ => ⟨_, rfl, by simp [zeroPacket]⟩⟩
  action := by simp [zeroPacket, actionSet]
  actionLength := rfl
  actionData := ⟨_, rfl, by simp⟩
  payloadLength := rfl
  listed := rfl
  table := by simp
  size := by
    have sum : plainSize (zeroPacket n m) [] = (if 0 < m then 1 + m.toNat else 0) + 25 +
        (25 + if 0 < n then 1 + n.toNat else 0) + 0 := rfl
    rw [sum]
    split <;> split <;> omega

theorem zeroPacket_skewed {n m : UInt32} (some : 0 < n) (other : n ≠ m) :
    ∃ more, ((List.replicate n.toNat 0).take n.toNat ++ behindData (zeroPacket n m) []).drop m.toNat =
      0 :: more := by
  rw [UInt32.lt_iff_toNat_lt] at some
  have apart : n.toNat ≠ m.toNat := fun same => other (UInt32.toNat_inj.mp same)
  rw [List.take_of_length_le (by simp)]
  rcases Nat.lt_or_gt_of_ne apart with less | more
  · have paid : 0 < m := by
      rw [UInt32.lt_iff_toNat_lt]
      simp
      omega
    obtain ⟨k, gap⟩ : ∃ k, m.toNat - n.toNat = k + 1 := ⟨m.toNat - n.toNat - 1, by omega⟩
    obtain ⟨j, left⟩ : ∃ j, m.toNat - k = j + 1 := ⟨m.toNat - k - 1, by omega⟩
    have table : tableFields (zeroPacket n m) [] = [] := rfl
    have payload : backFields (zeroPacket n m) =
        tagData8 .payload (.some (List.replicate m.toNat 0)) m :: [paddingBehind .payloadRandomPaddingLow
          (zeroPacket n m).payloadRandomPaddingLength (zeroPacket n m).payloadRandomPadding] := by
      simp [backFields, zeroPacket, paid]
    obtain ⟨tail, behind⟩ : ∃ tail, behindData (zeroPacket n m) [] =
        Tag.payload.toByte :: (List.replicate m.toNat 0 ++ tail) :=
      ⟨_, by rw [behindData, table, payload, plain_data8]; simp [plain_nil]; rfl⟩
    refine ⟨List.replicate j 0 ++ tail, ?_⟩
    rw [behind, List.drop_append, List.length_replicate, List.drop_of_length_le (by simp; omega), gap,
      List.nil_append, List.drop_succ_cons, List.drop_append_of_le_length (by simp; omega),
      List.drop_replicate, left, List.replicate_succ, List.cons_append]
  · obtain ⟨k, left⟩ : ∃ k, n.toNat - m.toNat = k + 1 := ⟨n.toNat - m.toNat - 1, by omega⟩
    refine ⟨List.replicate k 0 ++ behindData (zeroPacket n m) [], ?_⟩
    rw [List.drop_append_of_le_length (by simp; omega), List.drop_replicate, left,
      List.replicate_succ, List.cons_append]

theorem not_arrives_zeros (keys : SharesKeys sender receiver) (some : 0 < n)
    (small : n.toNat + m.toNat + 157 < 2 ^ 31) (other : n ≠ m) (good : ChatPacket → Prop) :
    ¬ Arrives crypto sender receiver junk random (zeroPacket n m) good := by
  have carrying := zeroPacket_carrying small
  have size := carrying.size
  obtain ⟨pad, padding⟩ := carrying.built.payloadPadding.split
  obtain ⟨more, zero⟩ := zeroPacket_skewed some other
  obtain ⟨fuel, q, allocs, run⟩ := decodes_skewed (receiverEnv crypto receiver junk) (fun _ => rfl)
    (carrying.sound padding) (by omega)
    (openedPacket (receiverEnv crypto receiver junk) sender random (zeroPacket n m) []) 4
    (opened_enough size _ sender random) carrying.action some rfl (by simp [zeroPacket]) zero
  rw [arrives_iff_opened (carrying.sound padding) size good keys run (by simp)]
  simp

/-- What is handed to the controller is sent, and the device gets the same data. -/
def ReachesDevice (crypto : Crypto) (p : Party) (receiver : ChatFabricPairing)
    (junk : Nat → Nat → CfControl) (random : PacketRandom) (a : ChatFabricAction) (msg : Option Bytes)
    (b : MsgBuffer) : Prop :=
  ∃ e fuel got allocs, chatFabricController crypto p a msg b random = .ok e ∧
    chatPacketDecode (receiverEnv crypto receiver junk) fuel (chatPacketInit0 random) 0 e.msg
      e.msg.length = .returned 0 got allocs ∧
    got.actionData.map (List.take a.actionLength.toNat) =
      a.actionData.map (List.take a.actionLength.toNat)

/-- The packets of two lengths all arrive exactly if the lengths are equal; and nothing with
    data that is handed to the controller reaches the device. -/
theorem actionData_iff (crypto : Crypto) (sender receiver : ChatFabricPairing)
    (junk : Nat → Nat → CfControl) (random : PacketRandom) (keys : SharesKeys sender receiver)
    (n m : UInt32) (some : 0 < n) (small : n.toNat + m.toNat + 157 < 2 ^ 31) :
    ((∀ cp controls, Carrying n m cp controls →
      Arrives crypto sender receiver junk random cp (ActionRecovered cp)) ↔ n = m) ∧
    ∀ p a msg b, p.pair.state = .paired → a.action ≠ 0 → a.actionLength = n →
      ¬ ReachesDevice crypto p receiver junk random a msg b := by
  refine ⟨⟨?_, ?_⟩, ?_⟩
  · intro arrives
    by_contra other
    exact not_arrives_zeros keys some small other _ (arrives _ _ (zeroPacket_carrying small))
  · rintro rfl cp controls carrying
    exact carrying.arrives some keys crypto junk random
  · rintro p a msg b paired action rfl ⟨e, _, _, _, sent, _⟩
    obtain ⟨f, stop⟩ := chatFabricController_dataful crypto paired action some msg b random
    simp [stop] at sent

theorem actionData_iff_one :
    Arrives default default default (fun _ _ => ⟨0, 0, 0, 0, 0, 0, none, none⟩) default (zeroPacket 1 1)
      (ActionRecovered (zeroPacket 1 1)) :=
  (actionData_iff default default default (fun _ _ => ⟨0, 0, 0, 0, 0, 0, none, none⟩) default
    ⟨rfl, rfl, rfl⟩ 1 1 (by decide) (by decide)).1.mpr rfl _ [] (zeroPacket_carrying (by decide))

theorem zeros_not_recovered :
    ¬ ∀ crypto sender receiver junk random n m, SharesKeys sender receiver → 0 < n →
      n.toNat + m.toNat + 157 < 2 ^ 31 → ∀ cp controls, Carrying n m cp controls →
        Arrives crypto sender receiver junk random cp (ActionRecovered cp) := by
  intro arrives
  have keys : SharesKeys default default := ⟨rfl, rfl, rfl⟩
  exact not_arrives_zeros keys (by decide : (0 : UInt32) < 1) (by decide) (by decide) _
    (arrives default default default (fun _ _ => ⟨0, 0, 0, 0, 0, 0, none, none⟩) default 1 0 keys
      (by decide) (by decide) _ [] (zeroPacket_carrying (by decide)))

end ActionData
