import ChatFabric.PacketRoundTrip

/- An encrypted DATA packet on its way from one record to another that shares its keys: it
   arrives as the call on its plaintext ends. -/
namespace DataArrival
open ByteStrings WhileLoop TagStream ChatFabric PacketRoundTrip

def receiverEnv (crypto : Crypto) (receiver : ChatFabricPairing) (junk : Nat → Nat → CfControl) :
    DecodeEnv := ⟨crypto, receiver, fun _ => true, junk⟩

/-- The packet is encoded, and decoded without error into a good one. -/
def Arrives (crypto : Crypto) (sender receiver : ChatFabricPairing) (junk : Nat → Nat → CfControl)
    (random : PacketRandom) (cp : ChatPacket) (good : ChatPacket → Prop) : Prop :=
  ∃ e fuel got allocs, chatPacketEncode crypto cp sender true .data = .ok e ∧
    chatPacketDecode (receiverEnv crypto receiver junk) fuel (chatPacketInit0 random) 0 e.msg
      e.msg.length = .returned 0 got allocs ∧ good got

def openedPacket (env : DecodeEnv) (sender : ChatFabricPairing) (random : PacketRandom)
    (cp : ChatPacket) (controls : List CfControl) : ChatPacket :=
  sectionPacket env (chatPacketInit0 random) 0 { cp with serial := sender.serial + 1 }
    (sectionLength cp controls)

variable {crypto : Crypto} {sender receiver : ChatFabricPairing} {junk : Nat → Nat → CfControl}
  {random : PacketRandom} {cp : ChatPacket} {controls : List CfControl} {pad : Padding}
  {good : ChatPacket → Prop}

section
variable (sound : Sound cp pad controls) (size : plainSize cp controls + 105 < 2 ^ 31)
include size

theorem opened_enough (env : DecodeEnv) (sender : ChatFabricPairing) (random : PacketRandom) :
    ¬ (openedPacket env sender random cp controls).payloadLength < cp.payloadLength :=
  section_enough env (chatPacketInit0 random) { cp with serial := sender.serial + 1 } 0 (by omega)

include sound

theorem arrives_iff_opened (good : ChatPacket → Prop) (keys : SharesKeys sender receiver) {fuel : Nat}
    {r : DecodeEnd}
    (nested : chatPacketDecode (receiverEnv crypto receiver junk) fuel
      (openedPacket (receiverEnv crypto receiver junk) sender random cp controls) 4
      (plainBytes cp controls) (plainBytes cp controls).length = r) (ends : r ≠ .endless) :
    Arrives crypto sender receiver junk random cp good ↔
      ∃ got allocs, r = .returned 0 got allocs ∧ good got := by
  have length := length_sealedMessage sound (by omega) crypto sender
  have sealed : (sectionLength cp controls).toNat = (plainBytes cp controls).length + 16 := by
    rw [toNat_sectionLength (by omega), length_plainBytes sound]
  obtain ⟨enough, run⟩ := decodes_section (receiverEnv crypto receiver junk) (Nat.le_refl _)
    (show (sealedMessage crypto cp sender controls).length < 2 ^ 32 by omega) keys.sharedkey keys.nonce
    rfl sealed (plainBytes_ne_nil sound) (ahead_whole _ (chatPacketInit0 random) 0) nested ends
  rw [if_pos ⟨rfl, rfl, rfl⟩] at run
  have encoded := encodeData_sealed sound (by omega) crypto sender
  constructor
  · rintro ⟨e, more, got, allocs, made, decoded, fine⟩
    cases encoded.symm.trans made
    have same : sectionEnd r = .returned 0 got allocs := by
      rcases chatPacketDecode_unique enough decoded (by simp) with same | stuck
      · exact run.symm.trans same
      · rw [run] at stuck
        cases r with
        | endless => exact absurd rfl ends
        | returned ret cp' n | fault f => simp [sectionEnd] at stuck
    cases r with
    | endless => exact absurd rfl ends
    | fault f => simp [sectionEnd] at same
    | returned ret cp' n =>
      simp only [sectionEnd, DecodeEnd.returned.injEq] at same
      obtain ⟨zero, rfl, rfl⟩ := same
      refine ⟨cp', n, ?_, fine⟩
      split at zero
      · rename_i ok
        rw [ok]
      · simp at zero
  · rintro ⟨got, allocs, rfl, fine⟩
    exact ⟨_, enough, got, allocs, encoded, run, fine⟩

theorem arrives_iff_written (random : PacketRandom) (good : ChatPacket → Prop)
    (keys : SharesKeys sender receiver)
    (readable : FrontReadable (receiverEnv crypto receiver junk) cp controls)
    (each : ∀ c ∈ controls, Readable c) :
    ∃ n got, got.content = (withPlain (receiverEnv crypto receiver junk)
        (openedPacket (receiverEnv crypto receiver junk) sender random cp controls) cp controls
        n).content ∧
      (Arrives crypto sender receiver junk random cp good ↔
        (controls.map unwritten).sum = 0 ∧ good got) := by
  obtain ⟨fuel, ret, got, allocs, n, run, ends⟩ := decodes_plain (receiverEnv crypto receiver junk) sound
    readable each (by omega) (openedPacket (receiverEnv crypto receiver junk) sender random cp controls)
    4 (opened_enough size _ sender random) fun _ => section_buffer _ _ _ (by omega) rfl
  have opens := arrives_iff_opened sound size good keys run (by simp)
  split at ends
  · rename_i written
    obtain ⟨rfl, content⟩ := ends
    refine ⟨n, got, content, opens.trans ⟨?_, ?_⟩⟩
    · rintro ⟨got', allocs', same, fine⟩
      cases same
      exact ⟨written, fine⟩
    · exact fun fine => ⟨got, allocs, rfl, fine.2⟩
  · rename_i missing
    refine ⟨n, _, rfl, opens.trans ⟨?_, ?_⟩⟩
    · rintro ⟨got', allocs', same, fine⟩
      simp [ends] at same
    · exact fun fine => absurd fine.1 missing

theorem not_arrives_long (keys : SharesKeys sender receiver)
    (readable : FrontReadable (receiverEnv crypto receiver junk) cp controls)
    (labels : ∀ c ∈ controls, c.labelLength.toNat + 1 < 2 ^ 32)
    (long : ∃ c ∈ controls, CarriesData c ∧ 4 < c.value.toUInt32.toNat) :
    ¬ Arrives crypto sender receiver junk random cp good := by
  have length := length_plainBytes sound
  obtain ⟨t, opening, _⟩ := reads_opening (receiverEnv crypto receiver junk)
    (chatPacketDecode (receiverEnv crypto receiver junk) 0) (Nat.le_refl _) (by omega) sound readable
    (by exact opened_enough size (receiverEnv crypto receiver junk) sender random)
    (ahead_plain cp controls _ 4)
  obtain ⟨u, reach, inside, leave⟩ := stops_table (receiverEnv crypto receiver junk)
    (chatPacketDecode (receiverEnv crypto receiver junk) 0) (Nat.le_refl _) (by omega) sound.listed
    (fun _ => rfl) (fun c member => ⟨sound.backed c member, labels c member⟩) long opening.ahead
  obtain ⟨fuel, run⟩ := chatPacketDecode_exit (opening.reach.trans reach) inside leave (by simp)
  rw [arrives_iff_opened sound size good keys run (by simp)]
  simp

end

end DataArrival
