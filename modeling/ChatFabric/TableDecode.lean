import ChatFabric.PayloadDecode

/- What the decoder makes of a table of controls. The memory it reads them into is not
   zeroed, and the bytes of a data control go to a word of the stack. -/
namespace ChatFabric
open ByteStrings WhileLoop TagStream

def Labelled (c : CfControl) : Prop := 0 < c.labelLength ∧ c.label ≠ none

def CarriesData (c : CfControl) : Prop := c.type = actionTypeData ∧ 0 < c.value ∧ c.data ≠ none

instance (c : CfControl) : Decidable (Labelled c) := inferInstanceAs (Decidable (_ ∧ _))
instance (c : CfControl) : Decidable (CarriesData c) := inferInstanceAs (Decidable (_ ∧ _ ∧ _))

def readControl (c left : CfControl) : CfControl where
  control := c.control
  type := c.type
  value := c.value
  rangeLow := c.rangeLow
  rangeHigh := c.rangeHigh
  labelLength := if Labelled c then c.labelLength else left.labelLength
  label :=
    if Labelled c then some ((c.label.getD []).take c.labelLength.toNat ++ [0]) else left.label
  data := if CarriesData c then some (List.replicate c.value.toUInt32.toNat 0) else left.data

def readHead (c left : CfControl) : CfControl := { readControl c left with data := left.data }

def wordFields (c : CfControl) : List (UInt8 × TagData) :=
  [tagInt32 .appControlI c.control,
   tagInt32 .appControlType c.type,
   tagInt32 .appControlValue c.value.toUInt32,
   tagInt32 .appControlRangeLow c.rangeLow.toUInt32,
   tagInt32 .appControlRangeHigh c.rangeHigh.toUInt32]

def labelFields (c : CfControl) : List (UInt8 × TagData) :=
  if Labelled c then
    [tagInt32 .appControlLabelLength c.labelLength,
     tagData8 .appControlLabel c.label c.labelLength] else []

def dataFields (c : CfControl) : List (UInt8 × TagData) :=
  if CarriesData c then [tagData8 .appControlData c.data c.value.toUInt32] else []

theorem controlFields_split (c : CfControl) :
    controlFields c = wordFields c ++ labelFields c ++ dataFields c := rfl

/-- A control the decoder gets past: its pointers hold what its lengths say, and its data
    fit a word. -/
structure Readable (c : CfControl) : Prop where
  backed : Backed c
  label : c.labelLength.toNat + 1 < 2 ^ 32
  word : CarriesData c → c.value.toUInt32.toNat ≤ 4

def withTable (cp reply : ChatPacket) (table : List CfControl) : ChatPacket :=
  if 0 < reply.numOfControllers then
    { cp with numOfControllers := reply.numOfControllers, controlers := some table }
  else cp

def leftovers (env : DecodeEnv) (n count : Nat) : List CfControl := (List.range count).map (env.junk n)

theorem listed_length {reply : ChatPacket} {controls : List CfControl}
    (listed : listedControls reply = .ok controls) (some : 0 < reply.numOfControllers) :
    controls.length = reply.numOfControllers.toInt.toNat := by
  rw [listedControls, if_pos some] at listed
  split at listed
  · cases listed
  · simp only at listed
    split at listed
    · cases listed
      simpa using ‹_›
    · cases listed

theorem listed_bound {reply : ChatPacket} {controls : List CfControl}
    (listed : listedControls reply = .ok controls) (some : 0 < reply.numOfControllers) :
    controls.length < 2 ^ 32 := by
  have size := listed_length listed some
  have bound : reply.numOfControllers.toInt < 2 ^ 31 := reply.numOfControllers.toInt_lt
  omega

structure AtEntry (s : Decoding) (front : List CfControl) (c : CfControl) (back : List CfControl) :
    Prop where
  table : s.cp.controlers = some (front ++ c :: back)
  index : s.curControler.toNat = front.length

variable {env : DecodeEnv} {again : DecodeCall} {b : Bytes} {len : Nat} {s t u : Decoding}
  {rest later v : Bytes} {front back : List CfControl} {c left : CfControl}

theorem modify_at (front back : List CfControl) (c : CfControl) (f : CfControl → CfControl) :
    (front ++ c :: back).modify front.length f = front ++ f c :: back := by
  induction front with
  | nil => simp
  | cons first rest ih => simpa using ih

theorem AtEntry.setControl (entry : AtEntry s front c back) (f : CfControl → CfControl) :
    s.setControl f = .ok { s with cp.controlers := some (front ++ f c :: back) } := by
  have inside : s.curControler.toNat < (front ++ c :: back).length := by
    rw [entry.index]
    simp
  have there := modify_at front back c f
  rw [← entry.index] at there
  simp only [Decoding.setControl, entry.table, inside, if_true, there]

theorem AtEntry.next (entry : AtEntry s front c back) (bound : front.length + 1 < 2 ^ 32) :
    (s.curControler + 1).toNat = (front ++ [c]).length := by
  have here := entry.index
  simp only [UInt32.toNat_add, UInt32.reduceToNat, List.length_append, List.length_singleton]
  omega

theorem AtEntry.past (entry : AtEntry s front c back) :
    s.cp.controlers = some ((front ++ [c]) ++ back) := by
  simpa using entry.table

theorem AtEntry.control (entry : AtEntry s front c back) : s.control = .ok c := by
  simp [Decoding.control, entry.table, entry.index]

/-- A positive value is the same number as an argument of calloc and memcpy. -/
theorem copySize {value : Int32} (some : 0 < value) :
    (value.toInt % 2 ^ 64).toNat = value.toUInt32.toNat := by
  rw [← toNat_of_positive some]
  have bound := value.toUInt32.toNat_lt
  omega

structure Beside (s t : Decoding) : Prop where
  hp : t.hp = s.hp
  lp : t.lp = s.lp
  cp : { t.cp with controlers := none } = { s.cp with controlers := none }

theorem Beside.refl (s : Decoding) : Beside s s := ⟨rfl, rfl, rfl⟩

theorem Beside.trans (first : Beside s t) (second : Beside t u) : Beside s u :=
  ⟨second.hp.trans first.hp, second.lp.trans first.lp, second.cp.trans first.cp⟩

structure ReadsEntry (env : DecodeEnv) (again : DecodeCall) (b : Bytes) (len : Nat)
    (front back : List CfControl) (s t : Decoding) (c : CfControl) (rest : Bytes) : Prop where
  reads : Reads env again b len s t rest
  entry : AtEntry t front c back
  beside : Beside s t

section
variable (env again)
variable (short : len ≤ b.length) (small : len < 2 ^ 32)
include short small

theorem reads_index {w : UInt32} (table : s.cp.controlers = some (front ++ left :: back))
    (index : (s.curControler + 1).toNat = front.length)
    (ahead : Ahead b len s (Tag.appControlI.toByte :: be32 w ++ rest)) :
    ∃ t, ReadsEntry env again b len front back s t { left with control := w } rest := by
  have entry : AtEntry { s with curControler := s.curControler + 1 } front left back := ⟨table, index⟩
  obtain ⟨i, reads⟩ := reads_field env again (t := { s with
      curControler := s.curControler + 1
      cp.controlers := some (front ++ { left with control := w } :: back) }) short small ahead
    (fun i => rfl) (fun i => by
      have at' : AtEntry { s with i := i, curControler := s.curControler + 1 } front left back :=
        ⟨table, index⟩
      simp only [ofBe32_be32]
      exact at'.setControl _)
  exact ⟨_, reads, ⟨rfl, index⟩, ⟨rfl, rfl, rfl⟩⟩

theorem reads_word {tag : Tag} {w : UInt32} {f : UInt32 → CfControl → CfControl}
    (entry : AtEntry s front c back) (ahead : Ahead b len s (tag.toByte :: be32 w ++ rest))
    (known : ∀ s, tagCase env s tag = .controlField f) :
    ∃ t, ReadsEntry env again b len front back s t (f w c) rest := by
  obtain ⟨i, reads⟩ := reads_field env again (t := { s with
      cp.controlers := some (front ++ f w c :: back) }) short small ahead
    (fun i => known _) (fun i => by
      have at' : AtEntry { s with i := i } front c back := ⟨entry.table, entry.index⟩
      simp only [ofBe32_be32]
      exact at'.setControl _)
  exact ⟨_, reads, ⟨rfl, entry.index⟩, ⟨rfl, rfl, rfl⟩⟩

theorem reads_label (entry : AtEntry s front c back)
    (ahead : Ahead b len s (Tag.appControlLabel.toByte :: v ++ rest))
    (length : c.labelLength.toNat = v.length) (fits : v.length + 1 < 2 ^ 32)
    (memory : ∀ n, env.alloc n = true) :
    ∃ t, ReadsEntry env again b len front back s t { c with label := some (v ++ [0]) } rest := by
  have size : (c.labelLength + 1).toNat = v.length + 1 := by
    simp only [UInt32.toNat_add, UInt32.reduceToNat]
    omega
  obtain ⟨i, reads⟩ := reads_field env again (t := { s with
      allocs := s.allocs + 1
      cp.controlers := some (front ++ { c with label := some (v ++ [0]) } :: back) }) short small ahead
    (f := fun v s => if v.length < (c.labelLength + 1).toNat then
        { s with allocs := s.allocs + 1 }.setControl fun c => { c with label := some (v ++ [0]) }
      else .error .labelWrite)
    (fun i => by
      have at' : AtEntry { s with i := i } front c back := ⟨entry.table, entry.index⟩
      simp [tagCase, TagCase.ofControl, at'.control, memory, length])
    (fun i => by
      have at' : AtEntry { s with i := i, allocs := s.allocs + 1 } front c back :=
        ⟨entry.table, entry.index⟩
      simp only [size, Nat.lt_succ_self, if_true]
      exact at'.setControl _)
  exact ⟨_, reads, ⟨rfl, entry.index⟩, ⟨rfl, rfl, rfl⟩⟩

/-- The bytes of a data control are copied over a word of the stack; the data stay zero. -/
theorem reads_data (entry : AtEntry s front c back)
    (ahead : Ahead b len s (Tag.appControlData.toByte :: v ++ rest)) (some : 0 < c.value)
    (length : c.value.toUInt32.toNat = v.length) (word : v.length ≤ 4)
    (memory : ∀ n, env.alloc n = true) :
    ∃ t, ReadsEntry env again b len front back s t
      { c with data := .some (List.replicate v.length 0) } rest := by
  have size := (copySize some).trans length
  obtain ⟨i, reads⟩ := reads_field env again (t := { s with
      allocs := s.allocs + 1
      cp.controlers := .some (front ++ { c with data := .some (List.replicate v.length 0) } :: back) })
    short small ahead
    (f := fun w s => if w.length ≤ 4 then
        { s with allocs := s.allocs + 1 }.setControl fun d =>
          { d with data := if 0 ≤ d.value then env.calloc s.allocs v.length else none }
      else .error .localWrite)
    (fun i => by
      have at' : AtEntry { s with i := i } front c back := ⟨entry.table, entry.index⟩
      simp only [tagCase, TagCase.ofControl, at'.control, size])
    (fun i => by
      have at' : AtEntry { s with i := i, allocs := s.allocs + 1 } front c back :=
        ⟨entry.table, entry.index⟩
      have nonneg : 0 ≤ c.value := Int32.le_of_lt some
      simp only [word, if_true, at'.setControl, nonneg, DecodeEnv.calloc, memory])
  exact ⟨_, reads, ⟨rfl, entry.index⟩, ⟨rfl, rfl, rfl⟩⟩

theorem reads_words (table : s.cp.controlers = some (front ++ left :: back))
    (index : (s.curControler + 1).toNat = front.length)
    (ahead : Ahead b len s (fieldBytes (plainFields (wordFields c)) ++ rest)) :
    ∃ t, ReadsEntry env again b len front back s t { left with
      control := c.control
      type := c.type
      value := c.value
      rangeLow := c.rangeLow
      rangeHigh := c.rangeHigh } rest := by
  simp only [wordFields, plain_int32, List.append_assoc, List.cons_append] at ahead
  obtain ⟨s₁, control⟩ := reads_index env again short small table index ahead
  obtain ⟨s₂, type⟩ := reads_word env again short small
    (f := fun v c => { c with type := v }) control.entry control.reads.ahead fun s => rfl
  obtain ⟨s₃, value⟩ := reads_word env again short small
    (f := fun v c => { c with value := v.toInt32 }) type.entry type.reads.ahead fun s => rfl
  obtain ⟨s₄, rangeLow⟩ := reads_word env again short small
    (f := fun v c => { c with rangeLow := v.toInt32 }) value.entry value.reads.ahead
    fun s => rfl
  obtain ⟨s₅, rangeHigh⟩ := reads_word env again short small
    (f := fun v c => { c with rangeHigh := v.toInt32 }) rangeLow.entry rangeLow.reads.ahead
    fun s => rfl
  exact ⟨s₅, control.reads.trans (type.reads.trans (value.reads.trans (rangeLow.reads.trans
    rangeHigh.reads))), rangeHigh.entry, control.beside.trans (type.beside.trans (value.beside.trans
    (rangeLow.beside.trans rangeHigh.beside)))⟩

theorem reads_head (backed : Backed c) (fits : c.labelLength.toNat + 1 < 2 ^ 32)
    (memory : ∀ n, env.alloc n = true) (table : s.cp.controlers = some (front ++ left :: back))
    (index : (s.curControler + 1).toNat = front.length)
    (ahead : Ahead b len s (fieldBytes (plainFields (wordFields c ++ labelFields c)) ++ rest)) :
    ∃ t, ReadsEntry env again b len front back s t (readHead c left) rest := by
  rw [plain_append, List.append_assoc] at ahead
  obtain ⟨s₁, words⟩ := reads_words env again short small table index ahead
  have ahead := words.reads.ahead
  by_cases labelled : Labelled c
  · obtain ⟨v, label⟩ := Option.ne_none_iff_exists'.mp labelled.2
    rw [labelFields, if_pos labelled, plain_int32, label, plain_data8] at ahead
    obtain ⟨s₂, length⟩ := reads_word env again short small
      (f := fun v c => { c with labelLength := v }) words.entry
      (by simpa [plainFields, fieldBytes] using ahead) fun s => rfl
    have size : (v.take c.labelLength.toNat).length = c.labelLength.toNat := by
      simpa using backed.label v label
    obtain ⟨s₃, bytes⟩ := reads_label env again short small length.entry
      length.reads.ahead size.symm (by omega) memory
    refine ⟨s₃, words.reads.trans (length.reads.trans bytes.reads), ?_,
      words.beside.trans (length.beside.trans bytes.beside)⟩
    have entry := bytes.entry
    simpa [readHead, readControl, labelled, label] using entry
  · rw [labelFields, if_neg labelled] at ahead
    refine ⟨s₁, ⟨words.reads.reach, ahead⟩, ?_, words.beside⟩
    simpa [readHead, readControl, labelled] using words.entry

theorem reads_control (backed : Backed c) (fits : c.labelLength.toNat + 1 < 2 ^ 32)
    (word : CarriesData c → c.value.toUInt32.toNat ≤ 4) (memory : ∀ n, env.alloc n = true)
    (table : s.cp.controlers = some (front ++ left :: back))
    (index : (s.curControler + 1).toNat = front.length)
    (ahead : Ahead b len s (fieldBytes (plainFields (controlFields c)) ++ rest)) :
    ∃ t, ReadsEntry env again b len front back s t (readControl c left) rest := by
  rw [controlFields_split, plain_append, List.append_assoc] at ahead
  obtain ⟨s₁, head⟩ := reads_head env again short small backed fits memory table
    index ahead
  have ahead := head.reads.ahead
  by_cases carries : CarriesData c
  · obtain ⟨v, data⟩ := Option.ne_none_iff_exists'.mp carries.2.2
    have size : (v.take c.value.toUInt32.toNat).length = c.value.toUInt32.toNat := by
      simpa using backed.data carries.1 carries.2.1 v data
    rw [dataFields, if_pos carries, data, plain_data8] at ahead
    obtain ⟨s₂, zeros⟩ := reads_data env again short small
      (v := v.take c.value.toUInt32.toNat) head.entry
      (by simpa [plainFields, fieldBytes] using ahead) carries.2.1 size.symm
      (by rw [size]; exact word carries) memory
    refine ⟨s₂, head.reads.trans zeros.reads, ?_, head.beside.trans zeros.beside⟩
    rw [size] at zeros
    simpa [readHead, readControl, carries] using zeros.entry
  · rw [dataFields, if_neg carries] at ahead
    refine ⟨s₁, ⟨head.reads.reach, ahead⟩, ?_, head.beside⟩
    simpa [readHead, readControl, carries] using head.entry

theorem reads_entries (memory : ∀ n, env.alloc n = true) {controls junk : List CfControl}
    (each : ∀ c ∈ controls, Readable c) (same : junk.length = controls.length)
    (bound : front.length + controls.length < 2 ^ 32) (table : s.cp.controlers = some (front ++ junk))
    (index : (s.curControler + 1).toNat = front.length)
    (ahead : Ahead b len s (fieldBytes (plainFields (controls.flatMap controlFields)) ++ rest)) :
    ∃ t, Reads env again b len s t rest ∧ Beside s t ∧
      t.cp.controlers = some (front ++ List.zipWith readControl controls junk) := by
  induction controls generalizing s front junk with
  | nil =>
    have none : junk = [] := List.eq_nil_of_length_eq_zero same
    exact ⟨s, ⟨.refl, by simpa [plainFields, fieldBytes] using ahead⟩, .refl s, by simpa [none] using table⟩
  | cons c controls ih =>
    obtain ⟨left, junk, rfl⟩ := List.exists_cons_of_length_eq_add_one same
    simp only [List.length_cons] at bound same
    rw [List.flatMap_cons, plain_append, List.append_assoc] at ahead
    have first := each c (by simp)
    obtain ⟨t, control⟩ := reads_control env again short small first.backed
      first.label first.word memory table index ahead
    obtain ⟨u, reads, beside, done⟩ := ih (fun d member => each d (by simp [member])) (by omega)
      (by simp; omega) control.entry.past (control.entry.next (by omega)) control.reads.ahead
    exact ⟨u, control.reads.trans reads, control.beside.trans beside, by simpa using done⟩

theorem reads_count {reply : ChatPacket} {controls : List CfControl}
    (listed : listedControls reply = .ok controls) (some : 0 < reply.numOfControllers)
    (memory : ∀ n, env.alloc n = true)
    (ahead : Ahead b len s (fieldBytes (plainFields (tableFields reply controls)) ++ rest)) :
    ∃ i, Reads env again b len s { s with
        i := i
        curControler := 0 - 1
        cp.numOfControllers := reply.numOfControllers
        cp.controlers := .some ([] ++ leftovers env s.allocs controls.length)
        allocs := s.allocs + 1 }
      (fieldBytes (plainFields (controls.flatMap controlFields)) ++ rest) := by
  have size := listed_length listed some
  have nonneg : 0 ≤ reply.numOfControllers := Int32.le_of_lt some
  rw [tableFields, if_pos some, plain_int32, List.append_assoc] at ahead
  apply reads_field env again (t := { s with
      curControler := 0 - 1
      cp.numOfControllers := reply.numOfControllers
      cp.controlers := .some ([] ++ leftovers env s.allocs controls.length)
      allocs := s.allocs + 1 }) short small ahead (fun i => rfl)
  intro i
  simp [DecodeEnv.mallocControls, nonneg, memory, leftovers, size]

theorem reads_table {reply : ChatPacket} {controls : List CfControl}
    (listed : listedControls reply = .ok controls) (each : ∀ c ∈ controls, Readable c)
    (memory : 0 < reply.numOfControllers → ∀ n, env.alloc n = true)
    (ahead : Ahead b len s (fieldBytes (plainFields (tableFields reply controls)) ++ rest)) :
    ∃ t, Reads env again b len s t rest ∧ t.hp = s.hp ∧ t.lp = s.lp ∧ t.cp = withTable s.cp reply
      (List.zipWith readControl controls (leftovers env s.allocs controls.length)) := by
  by_cases some : 0 < reply.numOfControllers
  · have bound := listed_bound listed some
    obtain ⟨i, count⟩ := reads_count env again short small listed some (memory some) ahead
    have wraps : ((0 - 1 : UInt32) + 1).toNat = 0 := by decide
    obtain ⟨t, reads, beside, table⟩ := reads_entries env again short small (memory some) each
      (by simp [leftovers]) (by simpa using bound) rfl (by exact wraps)
      count.ahead
    refine ⟨t, count.trans reads, beside.hp, beside.lp, ?_⟩
    calc t.cp = { ({ t.cp with controlers := none } : ChatPacket) with
            controlers := t.cp.controlers } := rfl
      _ = _ := by
          rw [beside.cp, table]
          simp [withTable, some]
  · rw [tableFields, if_neg some] at ahead
    exact ⟨s, ⟨.refl, by simpa [plainFields, fieldBytes] using ahead⟩, rfl, rfl, by simp [withTable, some]⟩

theorem stops_data (entry : AtEntry s front c back)
    (ahead : Ahead b len s (Tag.appControlData.toByte :: v ++ rest)) (some : 0 < c.value)
    (length : c.value.toUInt32.toNat = v.length) (long : 4 < v.length) :
    s.i < len ∧ decodeBody env again b s = .error (.fault .localWrite) := by
  have size := (copySize some).trans length
  have at' : AtEntry { s with i := s.i + 1 } front c back := ⟨entry.table, entry.index⟩
  have known : tagCase env { s with i := s.i + 1 } .appControlData = .copy v.length v.length
      (fun w s => if w.length ≤ 4 then
        { s with allocs := s.allocs + 1 }.setControl fun d =>
          { d with data := if 0 ≤ d.value then env.calloc s.allocs v.length else none }
      else .error .localWrite) := by
    simp only [tagCase, TagCase.ofControl, at'.control, size]
  exact stop_field again ahead short small known (if_neg (by omega))

theorem stops_entries (memory : ∀ n, env.alloc n = true) {controls junk : List CfControl}
    (each : ∀ c ∈ controls, Backed c ∧ c.labelLength.toNat + 1 < 2 ^ 32)
    (long : ∃ c ∈ controls, CarriesData c ∧ 4 < c.value.toUInt32.toNat)
    (same : junk.length = controls.length) (bound : front.length + controls.length < 2 ^ 32)
    (table : s.cp.controlers = some (front ++ junk))
    (index : (s.curControler + 1).toNat = front.length)
    (ahead : Ahead b len s (fieldBytes (plainFields (controls.flatMap controlFields)) ++ rest)) :
    ∃ t, Reaches (decodeGuard len) (decodeBody env again b) s t ∧ t.i < len ∧
      decodeBody env again b t = .error (.fault .localWrite) := by
  induction controls generalizing s front junk with
  | nil => simp at long
  | cons c controls ih =>
    obtain ⟨left, junk, rfl⟩ := List.exists_cons_of_length_eq_add_one same
    simp only [List.length_cons] at bound same
    rw [List.flatMap_cons, plain_append, List.append_assoc] at ahead
    obtain ⟨backed, fits⟩ := each c (by simp)
    by_cases here : CarriesData c ∧ 4 < c.value.toUInt32.toNat
    · obtain ⟨carries, beyond⟩ := here
      obtain ⟨v, data⟩ := Option.ne_none_iff_exists'.mp carries.2.2
      have size : (v.take c.value.toUInt32.toNat).length = c.value.toUInt32.toNat := by
        simpa using backed.data carries.1 carries.2.1 v data
      rw [controlFields_split, plain_append, List.append_assoc] at ahead
      obtain ⟨t, head⟩ := reads_head env again short small backed fits memory table index ahead
      have tail := head.reads.ahead
      rw [dataFields, if_pos carries, data, plain_data8, plain_nil, List.append_nil] at tail
      obtain ⟨inside, leave⟩ := stops_data env again short small head.entry tail carries.2.1 size.symm
        (by omega)
      exact ⟨t, head.reads.reach, inside, leave⟩
    · have word : CarriesData c → c.value.toUInt32.toNat ≤ 4 := by
        intro carries
        by_contra beyond
        exact here ⟨carries, by omega⟩
      obtain ⟨t, control⟩ := reads_control env again short small backed fits word memory table index
        ahead
      have later : ∃ d ∈ controls, CarriesData d ∧ 4 < d.value.toUInt32.toNat := by
        obtain ⟨d, member, beyond⟩ := long
        rcases List.mem_cons.mp member with rfl | member
        · exact absurd beyond here
        · exact ⟨d, member, beyond⟩
      obtain ⟨u, reach, inside, leave⟩ := ih (fun d member => each d (by simp [member])) later
        (by omega) (by simp; omega) control.entry.past (control.entry.next (by omega))
        control.reads.ahead
      exact ⟨u, control.reads.reach.trans reach, inside, leave⟩

theorem stops_table {reply : ChatPacket} {controls : List CfControl}
    (listed : listedControls reply = .ok controls) (memory : ∀ n, env.alloc n = true)
    (each : ∀ c ∈ controls, Backed c ∧ c.labelLength.toNat + 1 < 2 ^ 32)
    (long : ∃ c ∈ controls, CarriesData c ∧ 4 < c.value.toUInt32.toNat)
    (ahead : Ahead b len s (fieldBytes (plainFields (tableFields reply controls)) ++ rest)) :
    ∃ t, Reaches (decodeGuard len) (decodeBody env again b) s t ∧ t.i < len ∧
      decodeBody env again b t = .error (.fault .localWrite) := by
  have some : 0 < reply.numOfControllers := by
    by_contra none
    rw [listed_none listed none] at long
    simp at long
  have bound := listed_bound listed some
  obtain ⟨i, count⟩ := reads_count env again short small listed some memory ahead
  have wraps : ((0 - 1 : UInt32) + 1).toNat = 0 := by decide
  obtain ⟨t, reach, stop⟩ := stops_entries env again short small memory each long
    (by simp [leftovers]) (by simpa using bound) rfl (by exact wraps)
    count.ahead
  exact ⟨t, count.reach.trans reach, stop⟩

end

end ChatFabric
