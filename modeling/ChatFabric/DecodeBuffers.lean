import ChatFabric.DecodeTurns

/- The buffers of the packet that is decoded into. The length of a field and the memory of
   its buffer are set by different branches; the length never gets ahead of the memory. -/
namespace DecodeBuffers
open ChatFabric ByteStrings WhileLoop DecodeTermination

/-- How many bytes the last allocation of a buffer holds. -/
def capacity (buffer : Option Bytes) : Nat := (buffer.getD []).length

structure Fits (cp : ChatPacket) : Prop where
  payload : cp.payloadLength.toNat ≤ capacity cp.payload
  actionData : cp.actionLength.toNat ≤ capacity cp.actionData

variable {env : DecodeEnv}

theorem capacity_memcpyTo {overflow : Fault} {dest d : Option Bytes} {v : Bytes}
    (done : memcpyTo overflow dest v = .ok d) : capacity d = capacity dest := by
  unfold memcpyTo at done
  split at done
  · cases done
    rfl
  · split at done
    · cases done
    · split at done
      · cases done
        simp only [capacity, Option.getD_some, List.length_append, List.length_drop]
        omega
      · cases done

theorem capacity_calloc (memory : ∀ n, env.alloc n = true) (n size : Nat) :
    capacity (env.calloc n size) = size := by
  simp [capacity, DecodeEnv.calloc, memory]

theorem tag_fits (memory : ∀ n, env.alloc n = true) (s : Decoding) (tag : Tag) (fits : Fits s.cp) :
    Stores s (fun _ t => Fits t.cp) (tagCase env s tag) := by
  obtain ⟨payload, actionData⟩ := fits
  cases tag with
  | payloadLength =>
    simp only [tagCase, stores_copy]
    intro v t size stored
    split at stored
    · cases stored
      exact ⟨by simp [capacity_calloc memory], actionData⟩
    · rename_i notMore
      cases stored
      refine ⟨?_, actionData⟩
      have le := UInt32.le_iff_toNat_le.mp (UInt32.not_lt.mp notMore)
      simp only
      omega
  | actionLength =>
    simp only [tagCase, stores_copy]
    intro v t size stored
    split at stored
    · cases stored
      exact ⟨payload, by simp [capacity_calloc memory]⟩
    · rename_i none
      cases stored
      have zero : ofBe32 v = 0 := by
        have := UInt32.le_iff_toNat_le.mp (UInt32.not_lt.mp none)
        exact UInt32.toNat_inj.mp (by simpa using this)
      exact ⟨payload, by simp [zero]⟩
  | payload =>
    simp only [tagCase, stores_copy, bind, Except.bind]
    intro v t size stored
    split at stored
    · cases stored
    · rename_i d copied
      cases stored
      exact ⟨by simpa only [capacity_memcpyTo copied] using payload, actionData⟩
  | actionData =>
    simp only [tagCase, stores_copy, bind, Except.bind]
    intro v t size stored
    split at stored
    · cases stored
    · rename_i d copied
      cases stored
      exact ⟨payload, by simpa only [capacity_memcpyTo copied] using actionData⟩
  | envelopeRandomPaddingHigh | envelopeRandomPaddingLow | payloadRandomPaddingHigh
  | payloadRandomPaddingLow =>
    simp only [tagCase, stores_padding, bind, Except.bind]
    intro _ v t size stored
    split at stored
    · cases stored
    · cases stored
      exact ⟨payload, actionData⟩
  | appControlI | appControlType | appControlValue | appControlRangeLow | appControlRangeHigh
  | appControlLabelLength | appControlLabel | appControlData =>
    refine (entryTag_stores s rfl).mono fun v t stored => ?_
    obtain ⟨table, table', allocs, _, _, _, rfl⟩ := stored
    exact ⟨payload, actionData⟩
  | encryptedEnvelope | encryptedPayload | noop | nonceLength | publickeyId | configLength | config
  | mac | endtag => trivial
  | _ =>
    intro v t size stored
    cases stored
    exact ⟨payload, actionData⟩

theorem keepsFitting (memory : ∀ n, env.alloc n = true) : KeepsPacket env Fits where
  tags := tag_fits memory
  marks := fun _ _ fits => ⟨fits.payload, fits.actionData⟩

theorem memcpyTo_fits (overflow : Fault) {dest : Option Bytes} {v : Bytes}
    (fits : v.length ≤ capacity dest) : ∃ d, memcpyTo overflow dest v = .ok d := by
  refine memcpyTo_ok.mpr ?_
  cases dest with
  | none => exact .inl (List.eq_nil_of_length_eq_zero (by simpa [capacity] using fits))
  | some d => exact .inr ⟨d, rfl, by simpa [capacity] using fits⟩

/-- Where the loop comes to a tag that copies into a buffer, the memory last allocated for
    the buffer holds the bytes, and no copy of that many fails. -/
def CopyFits (env : DecodeEnv) (x : Iteration) (tag : Tag) (buffer : Option Bytes) : Prop :=
  x.b[x.s.i]? = some tag.toByte → ∃ width move store,
    x.case env = some (.copy width move store) ∧ width ≤ capacity buffer ∧
      ∀ v, v.length = width → ∃ t, store v x.afterTag = .ok t

theorem payload_fits {x : Iteration} (fits : Fits x.s.cp) :
    CopyFits env x .payload x.s.cp.payload := by
  intro here
  refine ⟨_, _, _, case_of_tag here, fits.payload, fun v size => ?_⟩
  obtain ⟨d, copied⟩ := memcpyTo_fits .payloadWrite (size ▸ fits.payload)
  simp only [Iteration.afterTag_cp, copied, bind, Except.bind]
  exact ⟨_, rfl⟩

theorem actionData_fits {x : Iteration} (fits : Fits x.s.cp) :
    CopyFits env x .actionData x.s.cp.actionData := by
  intro here
  refine ⟨_, _, _, case_of_tag here, fits.actionData, fun v size => ?_⟩
  obtain ⟨d, copied⟩ := memcpyTo_fits .actionDataWrite (size ▸ fits.actionData)
  simp only [Iteration.afterTag_cp, copied, bind, Except.bind]
  exact ⟨_, rfl⟩

theorem init0_fits (random : PacketRandom) : Fits (chatPacketInit0 random) := by
  constructor
  · exact Nat.zero_le _
  · exact Nat.zero_le _

theorem no_overflow {x : Iteration} {f : Fault} {tag : Tag} {buffer : Option Bytes}
    (only : ∀ other, mayRaise f other = true → other = tag) (notSection : ¬ SectionFault f)
    (fits : CopyFits env x tag buffer)
    (stop : ∀ again, decodeBody env again x.b x.s = .error (.fault f)) : False := by
  rcases body_raises stop with ofSection | ⟨other, here, raises, copies⟩
  · exact notSection ofSection
  · have same := only other raises
    subst same
    obtain ⟨width, move, store, known, _, room⟩ := fits here
    obtain ⟨v, size, failed⟩ := copies width move store known
    obtain ⟨t, stored⟩ := room v size
    rw [failed] at stored
    cases stored

/-- Every copy into the payload and into the action data, at any level of the sections,
    fits what was last allocated for it; so none of them ends the call. -/
theorem copies_fit (env : DecodeEnv) (memory : ∀ n, env.alloc n = true) (random : PacketRandom)
    (b : Bytes) (fuel : Nat) :
    (∀ x, Visits env fuel (chatPacketInit0 random) 0 b b.length x →
      CopyFits env x .payload x.s.cp.payload ∧ CopyFits env x .actionData x.s.cp.actionData) ∧
    chatPacketDecode env fuel (chatPacketInit0 random) 0 b b.length ≠ .fault .payloadWrite ∧
    chatPacketDecode env fuel (chatPacketInit0 random) 0 b b.length ≠ .fault .actionDataWrite := by
  have fits : ∀ x, Visits env fuel (chatPacketInit0 random) 0 b b.length x → Fits x.s.cp :=
    fun x visit => (keepsFitting memory).visited visit (init0_fits random)
  refine ⟨fun x visit => ⟨payload_fits (fits x visit), actionData_fits (fits x visit)⟩, ?_, ?_⟩
  · intro run
    obtain ⟨x, visit, stop⟩ := visit_of_fault run
    exact no_overflow (by simp [mayRaise]) (by simp [SectionFault]) (payload_fits (fits x visit)) stop
  · intro run
    obtain ⟨x, visit, stop⟩ := visit_of_fault run
    exact no_overflow (by simp [mayRaise]) (by simp [SectionFault]) (actionData_fits (fits x visit)) stop

/-- A payload of two bytes announced, one of one byte announced next, and copied. -/
def shrunkPayload : Bytes :=
  Tag.payloadLength.toByte :: be32 2 ++ Tag.payloadLength.toByte :: be32 1 ++
    [Tag.payload.toByte, 7]

theorem copies_fit_shrunkPayload :
    chatPacketDecode plainEnv 20 (chatPacketInit0 default) 0 shrunkPayload shrunkPayload.length ≠
      .fault .payloadWrite :=
  (copies_fit plainEnv (fun _ => rfl) default shrunkPayload 20).2.1

end DecodeBuffers
