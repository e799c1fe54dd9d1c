import ChatFabric.SealedSections

/- The plaintext of a DATA packet from end to end: what is read before the payload, the
   payload, and what a call on the whole of it returns. -/
namespace ChatFabric
open ByteStrings WhileLoop TagStream

def withActionData (cp reply : ChatPacket) : ChatPacket :=
  if reply.action ≠ 0 then
    { withAction cp reply with
      actionData :=
        if 0 < reply.actionLength then
          some ((reply.actionData.getD []).take reply.actionLength.toNat)
        else cp.actionData }
  else cp

def withFront (cp reply : ChatPacket) (table : List CfControl) : ChatPacket :=
  withTable (withActionData { cp with payloadLength := reply.payloadLength } reply) reply table

def withPayload (cp reply : ChatPacket) : ChatPacket :=
  if 0 < reply.payloadLength then
    { cp with
      payload := some ((reply.payload.getD []).take reply.payloadLength.toNat ++
        (cp.payload.getD []).drop reply.payloadLength.toNat) }
  else cp

structure FrontReadable (env : DecodeEnv) (reply : ChatPacket) (controls : List CfControl) : Prop where
  action : reply.action ≠ 0 → 0 < reply.actionLength → reply.payloadLength = reply.actionLength
  actionMemory : reply.action ≠ 0 → 0 < reply.actionLength → ∀ n, env.alloc n = true
  tableMemory : 0 < reply.numOfControllers → ∀ n, env.alloc n = true

def frontFields (cp : ChatPacket) (controls : List CfControl) : List (UInt8 × TagData) :=
  [tagInt32 .payloadLength cp.payloadLength] ++
  paddingBefore .payloadRandomPaddingLength .payloadRandomPaddingHigh cp.payloadRandomPaddingLength
    cp.payloadRandomPadding ++
  actionFields cp ++ tableFields cp controls

def backFields (cp : ChatPacket) : List (UInt8 × TagData) :=
  (if 0 < cp.payloadLength then [tagData8 .payload cp.payload cp.payloadLength] else []) ++
  [paddingBehind .payloadRandomPaddingLow cp.payloadRandomPaddingLength cp.payloadRandomPadding]

theorem payloadFields_split (cp : ChatPacket) (controls : List CfControl) :
    payloadFields cp controls true = frontFields cp controls ++ backFields cp := by
  simp [payloadFields, frontFields, backFields, tableFields]

theorem actionFields_split {cp : ChatPacket} (action : cp.action ≠ 0) :
    actionFields cp = actionWords cp ++ (if 0 < cp.actionLength then
      [tagData8 .actionData cp.actionData cp.actionLength] else []) := by
  simp only [actionFields, action, if_true, actionWords, ne_eq, not_false_eq_true]

theorem content_withActionData (cp reply : ChatPacket) :
    (withActionData cp reply).content = withActionData cp.content reply := by
  unfold withActionData
  split <;> rfl

theorem content_withTable (cp reply : ChatPacket) (table : List CfControl) :
    (withTable cp reply table).content = withTable cp.content reply table := by
  unfold withTable
  split <;> rfl

theorem content_withPayload (cp reply : ChatPacket) :
    (withPayload cp reply).content = withPayload cp.content reply := by
  unfold withPayload
  split <;> rfl

variable {env : DecodeEnv} {again : DecodeCall} {b : Bytes} {len : Nat} {s t : Decoding}
  {reply : ChatPacket} {pad : Padding} {controls : List CfControl} {plain rest : Bytes}

theorem ne_nil_of_take {d : Bytes} {n : UInt32} (some : 0 < n) (enough : n.toNat ≤ d.length) :
    d.take n.toNat ≠ [] := by
  rw [UInt32.lt_iff_toNat_lt] at some
  apply List.ne_nil_of_length_pos
  simp only [List.length_take]
  simp at some
  omega

section
variable (env again)
variable (short : len ≤ b.length) (small : len < 2 ^ 32)
include short small

theorem reads_action (sound : Sound reply pad controls) (readable : FrontReadable env reply controls)
    (length : s.cp.payloadLength = reply.payloadLength)
    (ahead : Ahead b len s (fieldBytes (plainFields (actionFields reply)) ++ rest)) :
    ∃ i a, Reads env again b len s
      { s with i := i, allocs := a, cp := withActionData s.cp reply } rest := by
  by_cases action : reply.action ≠ 0
  · rw [actionFields_split action, plain_append, List.append_assoc] at ahead
    obtain ⟨i, a, words⟩ := reads_actionWords env again short small ahead
      (readable.actionMemory action)
    by_cases some : 0 < reply.actionLength
    · obtain ⟨d, here, enough⟩ := sound.actionData action some
      have after := words.ahead
      rw [if_pos some, here, plain_data8, plain_nil, List.append_nil] at after
      have size : (d.take reply.actionLength.toNat).length = reply.actionLength.toNat := by
        simpa using enough
      obtain ⟨j, data⟩ := reads_actionData env again short small
        (d := List.replicate reply.actionLength.toNat 0) after
        (ne_nil_of_take some enough) (by simp [withAction, size])
        (by simp [withAction, length, readable.action action some])
        (by simp [withAction, some]) (by simp [size])
      refine ⟨j, a, ?_⟩
      have reads := words.trans data
      simpa [withActionData, action, some, here] using reads
    · refine ⟨i, a, ?_⟩
      rw [if_neg some] at words
      simpa [withActionData, withAction, action, some, plainFields, fieldBytes] using words
  · have none : actionFields reply = [] := if_neg action
    rw [none] at ahead
    rw [withActionData, if_neg action]
    exact ⟨s.i, s.allocs, .refl, ahead⟩

theorem reads_declared (sound : Sound reply pad controls)
    (enough : ¬ s.cp.payloadLength < reply.payloadLength)
    (ahead : Ahead b len s (fieldBytes (plainFields (tagInt32 .payloadLength reply.payloadLength ::
      paddingBefore .payloadRandomPaddingLength .payloadRandomPaddingHigh
        reply.payloadRandomPaddingLength reply.payloadRandomPadding)) ++ rest)) :
    ∃ t, Reads env again b len s t rest ∧ t.hp = pad.h ∧ t.lp = pad.l ∧
      t.cp.content = ChatPacket.content { s.cp with payloadLength := reply.payloadLength } := by
  rw [plain_int32, List.append_assoc] at ahead
  obtain ⟨i, declared⟩ := reads_payloadLength env again short small ahead enough
  have after := declared.ahead
  rw [sound.padding] at after
  obtain ⟨j, padded, padding, kept⟩ := reads_paddingBefore env again short small after
  exact ⟨_, declared.trans padding, rfl, rfl, kept⟩

theorem reads_opening (sound : Sound reply pad controls) (readable : FrontReadable env reply controls)
    (enough : ¬ s.cp.payloadLength < reply.payloadLength)
    (ahead : Ahead b len s (fieldBytes (plainFields (frontFields reply controls)) ++ rest)) :
    ∃ t, Reads env again b len s t (fieldBytes (plainFields (tableFields reply controls)) ++ rest) ∧
      t.hp = pad.h ∧ t.lp = pad.l ∧ t.cp.content =
        (withActionData { s.cp with payloadLength := reply.payloadLength } reply).content := by
  rw [frontFields, plain_append, plain_append, List.append_assoc, List.append_assoc] at ahead
  obtain ⟨t, declared, high, low, content⟩ := reads_declared env again short small sound enough ahead
  have length : t.cp.payloadLength = reply.payloadLength := by
    have word := congrArg ChatPacket.payloadLength content
    exact word
  obtain ⟨k, a, action⟩ := reads_action env again short small sound readable length declared.ahead
  refine ⟨_, declared.trans action, high, low, ?_⟩
  rw [content_withActionData, content, content_withActionData]

theorem reads_front (sound : Sound reply pad controls) (readable : FrontReadable env reply controls)
    (each : ∀ c ∈ controls, Readable c)
    (enough : ¬ s.cp.payloadLength < reply.payloadLength)
    (ahead : Ahead b len s (fieldBytes (plainFields (frontFields reply controls)) ++ rest)) :
    ∃ t n, Reads env again b len s t rest ∧ t.hp = pad.h ∧ t.lp = pad.l ∧
      t.cp.content = (withFront s.cp reply
        (List.zipWith readControl controls (leftovers env n controls.length))).content := by
  obtain ⟨t, opening, high, low, content⟩ :=
    reads_opening env again short small sound readable enough ahead
  obtain ⟨u, table, hp, lp, cp⟩ := reads_table env again short small sound.listed each
    readable.tableMemory opening.ahead
  refine ⟨u, t.allocs, opening.trans table, hp.trans high, lp.trans low, ?_⟩
  rw [cp, withFront, content_withTable, content, content_withTable]

theorem reads_back (sound : Sound reply pad controls) (high : t.hp = pad.h) (low : t.lp = pad.l)
    (length : t.cp.payloadLength = reply.payloadLength)
    (buffer : 0 < reply.payloadLength → ∃ d, t.cp.payload = some d ∧
      reply.payloadLength.toNat ≤ d.length)
    (ahead : Ahead b len t (fieldBytes (plainFields (backFields reply)) ++ rest)) :
    ∃ u, Reads env again b len t u rest ∧ u.cp.content = (withPayload t.cp reply).content := by
  rw [backFields, plain_append, List.append_assoc, sound.padding] at ahead
  by_cases some : 0 < reply.payloadLength
  · obtain ⟨v, here, enough⟩ := sound.payload some
    obtain ⟨d, there, room⟩ := buffer some
    have size : (v.take reply.payloadLength.toNat).length = reply.payloadLength.toNat := by
      simpa using enough
    rw [if_pos some, here, plain_data8, plain_nil, List.append_nil] at ahead
    obtain ⟨i, payload⟩ := reads_payload env again short small ahead
      (by rw [length, size]) (ne_nil_of_take some enough) there (by rw [size]; exact room)
    obtain ⟨j, cp, padding, kept⟩ := reads_paddingBehind env again short small
      (by exact high) (by exact low) payload.ahead
    refine ⟨_, payload.trans padding, ?_⟩
    rw [kept]
    simp [withPayload, some, here, there, size]
  · rw [if_neg some] at ahead
    obtain ⟨j, cp, padding, kept⟩ := reads_paddingBehind env again short small
      high low ahead
    exact ⟨_, padding, by rw [kept, withPayload, if_neg some]⟩

end

/-- The bytes a DATA packet seals: its fields, and zeros for what was counted and not written. -/
def plainBytes (cp : ChatPacket) (controls : List CfControl) : Bytes :=
  fieldBytes (plainFields (payloadFields cp controls true)) ++
    List.replicate (controls.map unwritten).sum 0

theorem length_plainBytes (sound : Sound reply pad controls) :
    (plainBytes reply controls).length = plainSize reply controls := by
  obtain ⟨n, fills, size⟩ := payloadFields_fills sound true
  simp only [plainBytes, List.length_append, fills.size, List.length_replicate]
  simpa using size

theorem plainBytes_ne_nil (sound : Sound reply pad controls) : plainBytes reply controls ≠ [] := by
  apply List.ne_nil_of_length_pos
  rw [length_plainBytes sound, plainSize]
  omega

def withPlain (env : DecodeEnv) (cp reply : ChatPacket) (controls : List CfControl) (n : Nat) :
    ChatPacket :=
  withPayload (withFront cp reply
    (List.zipWith readControl controls (leftovers env n controls.length))) reply

theorem content_withFront (cp reply : ChatPacket) (table : List CfControl) :
    (withFront cp reply table).payload = cp.payload ∧
      (withFront cp reply table).payloadLength = reply.payloadLength := by
  unfold withFront withTable withActionData
  split <;> split <;> exact ⟨rfl, rfl⟩

theorem ahead_plain (reply : ChatPacket) (controls : List CfControl) (cp : ChatPacket)
    (allocs : Nat) :
    Ahead (plainBytes reply controls) (plainBytes reply controls).length (.start cp allocs)
      (fieldBytes (plainFields (frontFields reply controls)) ++
        (fieldBytes (plainFields (backFields reply)) ++
          List.replicate (controls.map unwritten).sum 0)) where
  here := ⟨[], by
    rw [List.append_nil, ← List.append_assoc, ← plain_append, ← payloadFields_split]
    rfl⟩
  size := by
    rw [← List.append_assoc, ← plain_append, ← payloadFields_split]
    exact Nat.zero_add _

theorem reads_plain (env : DecodeEnv) (again : DecodeCall) (sound : Sound reply pad controls)
    (readable : FrontReadable env reply controls) (each : ∀ c ∈ controls, Readable c)
    (small : plainSize reply controls < 2 ^ 32)
    (cp : ChatPacket) (allocs : Nat) (enough : ¬ cp.payloadLength < reply.payloadLength)
    (buffer : 0 < reply.payloadLength → ∃ d, cp.payload = some d ∧
      reply.payloadLength.toNat ≤ d.length) :
    ∃ u n, Reads env again (plainBytes reply controls) (plainBytes reply controls).length
        (.start cp allocs) u (List.replicate (controls.map unwritten).sum 0) ∧
      u.cp.content = (withPlain env cp reply controls n).content := by
  have length := length_plainBytes sound
  obtain ⟨t, n, front, high, low, content⟩ := reads_front env again (Nat.le_refl _) (by omega) sound
    readable each enough (ahead_plain reply controls cp allocs)
  have kept := content_withFront cp reply
    (List.zipWith readControl controls (leftovers env n controls.length))
  have payload : t.cp.payload = cp.payload :=
    (congrArg ChatPacket.payload content).trans kept.1
  have payloadLength : t.cp.payloadLength = reply.payloadLength :=
    (congrArg ChatPacket.payloadLength content).trans kept.2
  obtain ⟨u, back, same⟩ := reads_back env again (Nat.le_refl _) (by omega) sound high low
    payloadLength (by rwa [payload]) front.ahead
  refine ⟨u, n, front.trans back, ?_⟩
  rw [same, content_withPayload, content, withPlain, content_withPayload]
  rfl

theorem body_zero (env : DecodeEnv) (again : DecodeCall) {more : Bytes}
    (ahead : Ahead b len s (0 :: more)) :
    s.i < len ∧ ∃ cp allocs, decodeBody env again b s = .error (.returned (-1) cp allocs) := by
  have size := ahead.size
  obtain ⟨beyond, here⟩ := ahead.here
  simp only [List.length_cons] at size
  have first : b[s.i]? = some 0 := getElem?_of_drop here
  refine ⟨by omega, s.cp, s.allocs, ?_⟩
  simp only [decodeBody, first]
  rfl

/-- Where all that is counted is written, the plaintext is read to its end; else it ends in a
    zero, which is refused. -/
theorem decodes_plain (env : DecodeEnv) (sound : Sound reply pad controls)
    (readable : FrontReadable env reply controls) (each : ∀ c ∈ controls, Readable c)
    (small : plainSize reply controls < 2 ^ 32)
    (cp : ChatPacket) (allocs : Nat) (enough : ¬ cp.payloadLength < reply.payloadLength)
    (buffer : 0 < reply.payloadLength → ∃ d, cp.payload = some d ∧
      reply.payloadLength.toNat ≤ d.length) :
    ∃ fuel ret cp' allocs' n, chatPacketDecode env fuel cp allocs (plainBytes reply controls)
        (plainBytes reply controls).length = .returned ret cp' allocs' ∧
      (if (controls.map unwritten).sum = 0 then
        ret = 0 ∧ cp'.content = (withPlain env cp reply controls n).content
      else ret = -1) := by
  obtain ⟨u, n, reads, content⟩ := reads_plain env (chatPacketDecode env 0) sound readable each small
    cp allocs enough buffer
  have ahead := reads.ahead
  split
  · rename_i written
    rw [written] at ahead
    obtain ⟨fuel, run⟩ := chatPacketDecode_done reads.reach (Nat.le_of_eq ahead.size.symm)
    exact ⟨fuel, 0, u.cp, u.allocs, n, run, rfl, content⟩
  · rename_i some
    obtain ⟨k, more⟩ := Nat.exists_eq_succ_of_ne_zero some
    rw [more, List.replicate_succ] at ahead
    obtain ⟨inside, cp', allocs', leave⟩ := body_zero env (chatPacketDecode env 0) ahead
    obtain ⟨fuel, run⟩ := chatPacketDecode_exit reads.reach inside leave (by simp)
    exact ⟨fuel, -1, cp', allocs', n, run, rfl⟩

def sectionLength (cp : ChatPacket) (controls : List CfControl) : UInt32 :=
  plainLength cp controls + 16

def sealedMessage (crypto : Crypto) (cp : ChatPacket) (pair : ChatFabricPairing)
    (controls : List CfControl) : Bytes :=
  messageBytes { cp with serial := pair.serial + 1 }
    (sectionFields (sectionLength cp controls) (sectionLength cp controls)
      (sealBytes crypto pair.sharedkey (chatPacketCalcNonce (pair.serial + 1) pair.nonce)
        (plainBytes cp controls)))

theorem toNat_sectionLength (small : plainSize reply controls + 105 < 2 ^ 32) :
    (sectionLength reply controls).toNat = plainSize reply controls + 16 := by
  simp only [sectionLength, UInt32.toNat_add, plainLength_toNat, UInt32.reduceToNat]
  omega

section
variable (sound : Sound reply pad controls) (small : plainSize reply controls + 105 < 2 ^ 32)
include sound small

theorem sealedFields_fills (crypto : Crypto) (key : Block 32) (nonce : Block 8) :
    Fills (sectionFields (sectionLength reply controls) (sectionLength reply controls)
      (sealBytes crypto key nonce (plainBytes reply controls))) (plainSize reply controls + 22) := by
  have fields := sectionFields_fills (sectionLength reply controls) (sectionLength reply controls)
    (sealBytes crypto key nonce (plainBytes reply controls))
    (by rw [length_sealBytes, length_plainBytes sound, toNat_sectionLength small])
  rw [toNat_sectionLength small, show 5 + (1 + (plainSize reply controls + 16)) =
    plainSize reply controls + 22 by omega] at fields
  exact fields

theorem length_sealedMessage (crypto : Crypto) (pair : ChatFabricPairing) :
    (sealedMessage crypto reply pair controls).length = plainSize reply controls + 105 := by
  rw [sealedMessage, length_messageBytes (sealedFields_fills sound small crypto _ _)]
  omega

theorem encodeData_sealed (crypto : Crypto) (pair : ChatFabricPairing) :
    encodeData crypto reply pair true = .ok ⟨sealedMessage crypto reply pair controls,
      { pair with serial := pair.serial + 1 },
      some (pair.sharedkey, chatPacketCalcNonce (pair.serial + 1) pair.nonce)⟩ := by
  have room : (plainLength reply controls).toNat = plainSize reply controls := by
    rw [plainLength_toNat]
    omega
  obtain ⟨n, fills, size⟩ := payloadFields_fills sound true
  have payload : (encodeFields (.calloc (plainLength reply controls).toNat)
      (payloadFields reply controls true)).map OutBuf.msg = .ok (plainBytes reply controls) := by
    rw [encodeFields_within fills (by omega)]
    simp only [Except.map, OutBuf.msg, fills.size, plainBytes, room]
    rw [show plainSize reply controls - n = (controls.map unwritten).sum by simp at size; omega]
  have total : (headerLength + (plainLength reply controls + 16 + 1 + 4 + 1)).toNat =
      83 + (plainSize reply controls + 22) := by
    have header : headerLength.toNat = 83 := rfl
    simp only [UInt32.toNat_add, header, UInt32.reduceToNat, room]
    omega
  have message := encodeMessage_fills { reply with serial := pair.serial + 1 }
    (sealedFields_fills sound small crypto pair.sharedkey
      (chatPacketCalcNonce (pair.serial + 1) pair.nonce)) total
  simp only [encodeData, sound.listed, payload, bind, Except.bind, if_true]
  rw [if_pos (by simp only [macBytes]; omega)]
  simp only [sectionLength] at message
  rw [message]
  rfl

end

theorem payloadLength_le (cp : ChatPacket) (controls : List CfControl) :
    cp.payloadLength.toNat ≤ plainSize cp controls := by
  unfold plainSize
  split
  · omega
  · rename_i none
    simp only [UInt32.lt_iff_toNat_lt, UInt32.reduceToNat] at none
    omega

theorem section_enough (env : DecodeEnv) (cp header : ChatPacket) (allocs : Nat)
    (size : plainSize reply controls + 105 < 2 ^ 32) :
    ¬ (sectionPacket env cp allocs header (sectionLength reply controls)).payloadLength <
      reply.payloadLength := by
  have length := toNat_sectionLength size
  have bound := payloadLength_le reply controls
  rw [UInt32.lt_iff_toNat_lt]
  simp only [sectionPacket]
  omega

theorem section_buffer (env : DecodeEnv) (cp header : ChatPacket) {allocs : Nat}
    (size : plainSize reply controls + 105 < 2 ^ 32) (allocated : env.alloc allocs = true) :
    ∃ d, (sectionPacket env cp allocs header (sectionLength reply controls)).payload = some d ∧
      reply.payloadLength.toNat ≤ d.length := by
  have length := toNat_sectionLength size
  have bound := payloadLength_le reply controls
  exact ⟨_, if_pos allocated, by rw [List.length_replicate]; omega⟩

theorem encodeData_beyond (crypto : Crypto) (sound : Sound reply pad controls)
    (written : (controls.map unwritten).sum = 0) (beyond : 2 ^ 32 ≤ plainSize reply controls + 105)
    (pair : ChatFabricPairing) :
    encodeData crypto reply pair true = .error .bufferWrite := by
  have room := plainLength_toNat reply controls
  obtain ⟨n, fills, size⟩ := payloadFields_fills sound true
  simp only [written, if_true, Nat.add_zero] at size
  subst size
  by_cases wraps : 2 ^ 32 ≤ plainSize reply controls
  · have stop : encodeFields (.calloc (plainLength reply controls).toNat)
        (payloadFields reply controls true) = .error .bufferWrite := by
      apply encodeFields_over fills.present (Nat.zero_le _)
      simp only [OutBuf.calloc, List.length_nil, fills.size]
      omega
    simp only [encodeData, sound.listed, stop, Except.map, bind, Except.bind]
  · have exact : (plainLength reply controls).toNat = plainSize reply controls := by omega
    simp only [encodeData, sound.listed, encodeFields_within fills (Nat.le_of_eq exact.symm), Except.map,
      bind, Except.bind, if_true]
    by_cases sealed : (plainLength reply controls).toNat + macBytes < 2 ^ 32
    · rw [if_pos sealed]
      simp only [macBytes] at sealed
      have length : (plainLength reply controls + 16).toNat = plainSize reply controls + 16 := by
        simp only [UInt32.toNat_add, UInt32.reduceToNat]
        omega
      have fields := sectionFields_fills (plainLength reply controls + 16)
        (plainLength reply controls + 16)
        (sealBytes crypto pair.sharedkey (chatPacketCalcNonce (pair.serial + 1) pair.nonce)
          (OutBuf.msg ⟨(plainLength reply controls).toNat,
            fieldBytes (plainFields (payloadFields reply controls true))⟩))
        (by
          rw [length_sealBytes, length_msg (by simp only [fills.size]; omega), length]
          simp only
          omega)
      have stop := encodeMessage_over { reply with serial := pair.serial + 1 }
        (headerLength + (plainLength reply controls + 16 + 1 + 4 + 1)) fields (by
          have header : headerLength.toNat = 83 := rfl
          simp only [UInt32.toNat_add, header, UInt32.reduceToNat, exact]
          omega)
      rw [stop]
    · rw [if_neg sealed]

theorem decodes_noBuffer (env : DecodeEnv) (sound : Sound reply pad controls)
    (readable : FrontReadable env reply controls) (each : ∀ c ∈ controls, Readable c)
    (small : plainSize reply controls < 2 ^ 32)
    (cp : ChatPacket) (allocs : Nat) (enough : ¬ cp.payloadLength < reply.payloadLength)
    (buffer : cp.payload = none) (some : 0 < reply.payloadLength) :
    ∃ fuel, chatPacketDecode env fuel cp allocs (plainBytes reply controls)
      (plainBytes reply controls).length = .fault .nullPointer := by
  have length := length_plainBytes sound
  obtain ⟨t, n, front, _, _, content⟩ := reads_front env (chatPacketDecode env 0) (Nat.le_refl _)
    (by omega) sound readable each enough (ahead_plain reply controls cp allocs)
  have kept := content_withFront cp reply
    (List.zipWith readControl controls (leftovers env n controls.length))
  have payload : t.cp.payload = none :=
    ((congrArg ChatPacket.payload content).trans kept.1).trans buffer
  have payloadLength : t.cp.payloadLength = reply.payloadLength :=
    (congrArg ChatPacket.payloadLength content).trans kept.2
  obtain ⟨v, here, enough⟩ := sound.payload some
  have size : (v.take reply.payloadLength.toNat).length = reply.payloadLength.toNat := by
    simpa using enough
  have nonempty := ne_nil_of_take some enough
  have ahead := front.ahead
  rw [backFields, plain_append, if_pos some, here, plain_data8, plain_nil, List.append_nil,
    List.append_assoc] at ahead
  have known : tagCase env { t with i := t.i + 1 } .payload =
      .copy (v.take reply.payloadLength.toNat).length (v.take reply.payloadLength.toNat).length
        (fun v s => do
          let p ← memcpyTo .payloadWrite s.cp.payload v
          .ok { s with cp.payload := p }) := by
    simp only [tagCase, payloadLength, size]
  obtain ⟨inside, leave⟩ := stop_field (chatPacketDecode env 0) (f := .nullPointer) ahead
    (Nat.le_refl _) (by omega) known (by simp [memcpyTo, nonempty, payload, bind, Except.bind])
  exact chatPacketDecode_exit front.reach inside leave (by simp)

section
variable {cp : ChatPacket} {allocs : Nat} (short : len ≤ b.length) (small : len < 2 ^ 32)
include short small

theorem decodes_sealed (env : DecodeEnv) (sound : Sound reply pad controls)
    (readable : FrontReadable env reply controls) (each : ∀ c ∈ controls, Readable c)
    (size : plainSize reply controls + 105 < 2 ^ 32) {pair : ChatFabricPairing}
    (key : env.pair.sharedkey = pair.sharedkey) (nonce : env.pair.mynonce = pair.nonce)
    (fresh : cp.payloadLength = 0)
    (whole : Ahead b len (.start cp allocs) (sealedMessage env.crypto reply pair controls)) :
    ∃ fuel, ((∃ n, env.alloc n = false) ∧
        chatPacketDecode env fuel cp allocs b len = .fault .nullPointer) ∨
      ∃ ret cp' allocs' n, chatPacketDecode env fuel cp allocs b len = .returned ret cp' allocs' ∧
        (if (controls.map unwritten).sum = 0 then
          ret = 0 ∧ cp'.content = (withPlain env (sectionPacket env cp allocs
            { reply with serial := pair.serial + 1 } (sectionLength reply controls)) reply controls
            n).content
        else ret = -1) := by
  have length := toNat_sectionLength size
  have sealed : (sectionLength reply controls).toNat = (plainBytes reply controls).length + 16 := by
    rw [length, length_plainBytes sound]
  have enough := section_enough env cp { reply with serial := pair.serial + 1 } allocs size
  have kept (allocated : env.alloc allocs = true) :=
    section_buffer env cp { reply with serial := pair.serial + 1 } size allocated
  generalize packet : sectionPacket env cp allocs { reply with serial := pair.serial + 1 }
    (sectionLength reply controls) = received at enough kept ⊢
  have opens {fuel : Nat} {r : DecodeEnd} (nested : chatPacketDecode env fuel received (allocs + 4)
      (plainBytes reply controls) (plainBytes reply controls).length = r) (ends : r ≠ .endless) :=
    decodes_section env short small key nonce fresh sealed (plainBytes_ne_nil sound) whole
      (packet ▸ nested) ends
  by_cases missing : env.alloc allocs = false ∧ 0 < reply.payloadLength
  · have buffer : received.payload = none := by
      simp [← packet, sectionPacket, DecodeEnv.calloc, missing.1]
    obtain ⟨fuel, nested⟩ := decodes_noBuffer env sound readable each (by omega) received (allocs + 4)
      enough buffer missing.2
    obtain ⟨enough, run⟩ := opens nested (by simp)
    refine ⟨enough, .inl ⟨⟨allocs, missing.1⟩, ?_⟩⟩
    rw [run]
    split <;> rfl
  · have buffer : 0 < reply.payloadLength → ∃ d, received.payload = some d ∧
        reply.payloadLength.toNat ≤ d.length := by
      intro some
      apply kept
      by_contra none
      exact missing ⟨by simpa using none, some⟩
    obtain ⟨fuel, ret, cp', allocs', n, nested, ends⟩ := decodes_plain env sound readable each (by omega)
      received (allocs + 4) enough buffer
    obtain ⟨enough, run⟩ := opens nested (by simp)
    refine ⟨enough, ?_⟩
    split at run
    · refine .inr ⟨_, cp', allocs', n, run, ?_⟩
      split
      · rename_i written
        rw [if_pos written] at ends
        exact ⟨if_pos ends.1, ends.2⟩
      · rename_i some
        rw [if_neg some] at ends
        exact if_neg (by simp [ends])
    · rename_i none
      refine .inl ⟨?_, run⟩
      by_contra every
      simp only [not_exists, Bool.not_eq_false] at every
      exact none ⟨every _, every _, every _⟩

end

theorem verifySection_cut (env : DecodeEnv) {i k : Nat} {length : UInt32} (size : length.toNat = k + 16)
    (beyond : b.length < i + length.toNat) (n : Nat) :
    ∃ f, verifySection env b i length n = .error f := by
  have missing : readAt b (i + length.toNat - macBytes) macBytes = .error .inputRead := by
    rw [readAt, if_neg]
    simp only [macBytes]
    omega
  simp only [verifySection, missing, bind, Except.bind]
  split
  · exact ⟨_, rfl⟩
  · split <;> exact ⟨_, rfl⟩

theorem openPayload_cut (env : DecodeEnv) {k : Nat} (size : s.cp.payloadLength.toNat = k + 16)
    (beyond : b.length < s.i + s.cp.payloadLength.toNat) : ∃ f, openPayload env b s = .error f := by
  simp only [openPayload, bind, Except.bind]
  split
  · obtain ⟨f, stop⟩ := verifySection_cut env size beyond (s.allocs + 1)
    rw [stop]
    exact ⟨f, rfl⟩
  · exact ⟨_, rfl⟩

theorem ahead_cut {front bytes : Bytes} {tag : UInt8} (cp : ChatPacket) (allocs : Nat)
    (begun : front.length < bufferSize) (long : bufferSize < (front ++ tag :: bytes).length) :
    Ahead (receiveBuffer (front ++ tag :: bytes)) (min (front ++ tag :: bytes).length bufferSize)
      (.start cp allocs) (front ++ tag :: bytes.take (bufferSize - (front.length + 1))) where
  here := by
    refine ⟨[], ?_⟩
    simp only [List.length_append, List.length_cons] at long
    obtain ⟨k, room⟩ : ∃ k, bufferSize - front.length = k + 1 := ⟨bufferSize - front.length - 1, by omega⟩
    have rest : bufferSize - (front.length + 1) = k := by omega
    have none : bufferSize - (front ++ tag :: bytes).length = 0 := by
      simp only [List.length_append, List.length_cons]
      omega
    rw [receiveBuffer, List.take_append, none, List.take_zero, List.take_append, room, rest,
      List.take_of_length_le (Nat.le_of_lt begun), List.take_succ_cons]
    simp [Decoding.start]
  size := by
    simp only [List.length_append, List.length_cons, List.length_take] at long ⊢
    simp only [Decoding.start]
    omega

theorem decodes_cut (env : DecodeEnv) {cp : ChatPacket} {allocs : Nat} {length : UInt32} {bytes : Bytes}
    {k : Nat} (fresh : cp.payloadLength = 0) (size : length.toNat = k + 16)
    (all : bytes.length = length.toNat)
    (long : bufferSize < (messageBytes reply (sectionFields length length bytes)).length) :
    ∃ fuel f, chatPacketDecode env fuel cp allocs
      (receiveBuffer (messageBytes reply (sectionFields length length bytes)))
      (min (messageBytes reply (sectionFields length length bytes)).length bufferSize) = .fault f := by
  have front : ((headerStored reply).flatMap Field.bytes).length = 83 := by
    have whole : (messageBytes reply []).length = 83 := length_messageBytes .nil
    rw [headerStored_bytes] at whole
    simpa [plainFields, fieldBytes] using whole
  rw [messageBytes_section reply all, ← List.append_assoc] at long ⊢
  generalize head : (headerStored reply).flatMap Field.bytes ++
    Tag.payloadLength.toByte :: be32 length = before at long ⊢
  have opening : before.length = 88 := by
    rw [← head, List.length_append, front]
    rfl
  have cut := ahead_cut cp allocs (by rw [opening]; decide) long
  have small := received_small (before ++ Tag.encryptedPayload.toByte :: bytes)
  have short := received_short (before ++ Tag.encryptedPayload.toByte :: bytes)
  have whole : Ahead (receiveBuffer (before ++ Tag.encryptedPayload.toByte :: bytes))
      (min (before ++ Tag.encryptedPayload.toByte :: bytes).length bufferSize) (.start cp allocs)
      ((headerStored reply).flatMap Field.bytes ++ (Tag.payloadLength.toByte :: be32 length ++
        (Tag.encryptedPayload.toByte :: bytes.take (bufferSize - (before.length + 1))))) := by
    rw [← List.append_assoc, head]
    exact cut
  obtain ⟨i, reach, ahead⟩ := reads_fields (chatPacketDecode env 0) (headerStored_known reply) whole short
    small
  rw [Decoding.start, headerStored_foldl] at reach ahead
  have more : (withHeader cp reply).payloadLength < length := by
    rw [show (withHeader cp reply).payloadLength = 0 from fresh, UInt32.lt_iff_toNat_lt]
    simp [size]
  obtain ⟨j, declared⟩ := reads_sectionLength env (chatPacketDecode env 0) short small ahead more
  obtain ⟨here, inside, leave⟩ := body_payload env (chatPacketDecode env 0) declared.ahead small
  have past := inside.size
  simp only [List.length_take, opening, List.length_append, List.length_cons] at past long
  have beyond : (receiveBuffer (before ++ Tag.encryptedPayload.toByte :: bytes)).length <
      j + 1 + length.toNat := by
    rw [length_receiveBuffer]
    omega
  generalize opened : openPayload env _ _ = o at leave
  obtain ⟨f, rfl⟩ : ∃ f, o = .error f := by
    rw [← opened]
    exact openPayload_cut env size beyond
  obtain ⟨fuel, run⟩ := chatPacketDecode_exit (reach.trans declared.reach) here leave (by simp)
  exact ⟨fuel, f, run⟩

end ChatFabric
