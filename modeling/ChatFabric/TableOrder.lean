import ChatFabric.DecodeHistory

/- The order in which the tags of a control table come. The decoder finds the entry of a tag
   with a counter of its call; the same entry can be told from the tags that came before. -/
namespace TableOrder
open ByteStrings WhileLoop ChatFabric DecodeTermination

/-- What the tags that came before say: the entries announced last and the table there is for
    them, the entry the next tag is about, for each call under way from the innermost on, and
    the entries begun since the announcement. -/
structure Tally where
  announced : Int32
  room : Option Nat
  entries : List Int
  started : List Int

namespace Tally

def start : Tally := ⟨0, none, [0], []⟩

/-- Each call counts for itself: from the announcement, or from its own beginning. -/
def about (o : Tally) (tag : Tag) : Int :=
  if tag = .appControlI then o.entries.headD 0 + 1 else o.entries.headD 0

def note (env : DecodeEnv) (o : Tally) : Moment → Tally
  | .tag x =>
    match tagAt x with
    | some .appControls =>
      let count := (ofBe32 (slice x.b x.afterTag.i 4)).toInt32
      { announced := count
        room := if 0 ≤ count ∧ env.alloc x.s.allocs then some count.toInt.toNat else none
        entries := -1 :: o.entries.tail
        started := [] }
    | some .appControlI =>
      { o with
        entries := o.about .appControlI :: o.entries.tail
        started := o.started ++ [o.about .appControlI] }
    | _ => o
  | .enter _ => { o with entries := 0 :: o.entries }
  | .leave => { o with entries := o.entries.tail }

def Counts (o : Tally) (tag : Tag) : Prop :=
  ∃ n : Nat, o.room = some n ∧ 0 ≤ o.about tag ∧ o.about tag < n

end Tally

def starts (l : List Nat) : Moment → List Nat
  | .tag x =>
    match tagAt x with
    | some .appControls => []
    | some .appControlI => l ++ [(entryOf x.s .appControlI).toNat]
    | _ => l
  | _ => l

/-- The entry a tag reads or writes is one of the announced table. -/
def InsideTable (x : Iteration) (tag : Tag) : Prop :=
  ∃ table, x.s.cp.controlers = some table ∧ (table.length : Int) = x.s.cp.numOfControllers.toInt ∧
    (entryOf x.s tag).toNat < table.length

structure TableKept (env : DecodeEnv) (random : PacketRandom) (b : Bytes) : Prop where
  inside : ∀ fuel x, Visits env fuel (chatPacketInit0 random) 0 b b.length x →
    ∀ tag, tagAt x = some tag → entryTag tag = true → InsideTable x tag
  started : ∀ fuel got allocs, chatPacketDecode env fuel (chatPacketInit0 random) 0 b b.length =
      .returned 0 got allocs →
    ∀ j : Nat, (j : Int) < got.numOfControllers.toInt →
      j ∈ (history env fuel (chatPacketInit0 random) 0 b b.length).foldl starts []

/-- The tags of the table come in order: each is about an entry of the table announced before
    it, and at the end of a string that is accepted each announced entry has been begun. -/
structure InOrder (env : DecodeEnv) (random : PacketRandom) (b : Bytes) : Prop where
  inside : ∀ fuel, Along (Tally.note env) (fun o x => ∀ tag, tagAt x = some tag →
    entryTag tag = true → o.Counts tag) .start
      (history env fuel (chatPacketInit0 random) 0 b b.length)
  started : ∀ fuel got allocs, chatPacketDecode env fuel (chatPacketInit0 random) 0 b b.length =
      .returned 0 got allocs →
    let o := (history env fuel (chatPacketInit0 random) 0 b b.length).foldl (Tally.note env) .start
    ∀ j : Nat, (j : Int) < o.announced.toInt → (j : Int) ∈ o.started

variable {env : DecodeEnv}

/-- The tally and the decoder agree: the frame is the entries of the outer calls. -/
structure Agrees (f : List Int) (o : Tally) (s : Decoding) : Prop where
  entry : ∃ e, o.entries = e :: f ∧ -1 ≤ e ∧ e < 2 ^ 31 ∧ (s.curControler.toNat : Int) = e % 2 ^ 32
  announced : s.cp.numOfControllers = o.announced
  room : s.cp.controlers.map List.length = o.room
  size : ∀ n, o.room = some n → (n : Int) = o.announced.toInt

theorem Agrees.of_same {f : List Int} {o : Tally} {s t : Decoding} (agrees : Agrees f o s)
    (entry : t.curControler = s.curControler) (table : t.cp.controlers = s.cp.controlers)
    (count : t.cp.numOfControllers = s.cp.numOfControllers) : Agrees f o t where
  entry := entry ▸ agrees.entry
  announced := count ▸ agrees.announced
  room := table ▸ agrees.room
  size := agrees.size

theorem bound_of_announced (count : Int32) : count.toInt < 2 ^ 31 := by
  have := count.toInt_lt
  omega

theorem Agrees.counts_iff {f : List Int} {o : Tally} {x : Iteration} (agrees : Agrees f o x.s)
    (tag : Tag) : o.Counts tag ↔ InsideTable x tag := by
  obtain ⟨⟨e, entries, low, high, cur⟩, announced, room, size⟩ := agrees
  have place : ((entryOf x.s tag).toNat : Int) = o.about tag % 2 ^ 32 ∧ -1 ≤ o.about tag ∧
      o.about tag ≤ 2 ^ 31 := by
    unfold entryOf Tally.about
    rw [entries, List.headD_cons]
    split
    · rw [UInt32.toNat_add]
      simp only [UInt32.reduceToNat]
      omega
    · omega
  constructor
  · rintro ⟨n, there, least, most⟩
    have bound := size n there
    have small := bound_of_announced o.announced
    rw [there, Option.map_eq_some_iff] at room
    obtain ⟨table, here, rfl⟩ := room
    exact ⟨table, here, by rw [announced]; exact bound, by omega⟩
  · rintro ⟨table, here, count, inside⟩
    have small := bound_of_announced x.s.cp.numOfControllers
    rw [here] at room
    exact ⟨table.length, room.symm, by omega, by omega⟩

theorem note_other (env : DecodeEnv) (o : Tally) (l : List Nat) {x : Iteration} (notTable : tagAt x ≠ some .appControls)
    (notNext : tagAt x ≠ some .appControlI) :
    Tally.note env o (.tag x) = o ∧ starts l (.tag x) = l := by
  simp [Tally.note, starts]

theorem note_uncopied (o : Tally) (l : List Nat) {x : Iteration}
    (noCopy : ∀ width move store, x.case env ≠ some (.copy width move store)) :
    Tally.note env o (.tag x) = o ∧ starts l (.tag x) = l := by
  apply note_other env o l
  · intro named
    exact noCopy _ _ _ (case_of_tag (byte_of_tagAt named))
  · intro named
    exact noCopy _ _ _ (case_of_tag (byte_of_tagAt named))

def both (env : DecodeEnv) (o : Tally × List Nat) (m : Moment) : Tally × List Nat :=
  (o.1.note env m, starts o.2 m)

theorem foldl_both (o : Tally × List Nat) (h : List Moment) :
    h.foldl (both env) o = (h.foldl (Tally.note env) o.1, h.foldl starts o.2) := by
  induction h generalizing o with
  | nil => rfl
  | cons m ms ih => exact ih (both env o m)

theorem along_both (good : Tally → Iteration → Prop) (o : Tally × List Nat) (h : List Moment) :
    Along (both env) (fun o x => good o.1 x) o h ↔ Along (Tally.note env) good o.1 h := by
  induction h generalizing o with
  | nil => rfl
  | cons m ms ih => exact and_congr .rfl (ih (both env o m))

structure Follows (f : List Int) (o : Tally × List Nat) (s : Decoding) : Prop where
  agrees : Agrees f o.1 s
  started : o.1.started = o.2.map Nat.cast

theorem announced_follows {f : List Int} {o : Tally × List Nat} {x : Iteration}
    (here : x.b[x.s.i]? = some Tag.appControls.toByte) (follows : Follows f o x.s) :
    Stores x.afterTag (fun v t => readAt x.b x.afterTag.i v.length = .ok v →
      ∀ i, Follows f (both env o (.tag x)) { t with i := i }) (tagCase env x.afterTag .appControls) := by
  simp only [tagCase, stores_copy, Except.ok.injEq]
  rintro v t size rfl read i
  obtain ⟨e, entries, _⟩ := follows.agrees.entry
  rw [size] at read
  obtain rfl := slice_of_readAt read
  have named := tagAt_of_byte here
  simp only [both, Tally.note, starts, named]
  generalize (ofBe32 (slice x.b x.afterTag.i 4)).toInt32 = count
  refine ⟨⟨⟨-1, by simp [entries], by omega, by omega, rfl⟩, rfl, ?_, ?_⟩, rfl⟩
  · simp only [DecodeEnv.mallocControls, Iteration.afterTag_allocs]
    split <;> simp_all
  · intro n there
    simp only at there ⊢
    split at there
    · rename_i fits
      cases there
      have positive := Int32.le_iff_toInt_le.mp fits.1
      simp only [Int32.toInt_zero] at positive
      omega
    · cases there

theorem entry_follows {f : List Int} {o : Tally × List Nat} {x : Iteration} {tag : Tag}
    (here : x.b[x.s.i]? = some tag.toByte) (entry : entryTag tag = true) (follows : Follows f o x.s) :
    Stores x.afterTag (fun v t => readAt x.b x.afterTag.i v.length = .ok v →
      ∀ i, Follows f (both env o (.tag x)) { t with i := i }) (tagCase env x.afterTag tag) := by
  refine (entryTag_stores x.afterTag entry).mono fun v t stored _ i => ?_
  obtain ⟨table, table', allocs, there, same, inside, rfl⟩ := stored
  obtain ⟨⟨⟨e, entries, low, high, cur⟩, announced, room, size⟩, started⟩ := follows
  have named := tagAt_of_byte here
  simp only [Iteration.afterTag_cp] at there
  rw [there, Option.map_some] at room
  have bound := size _ room.symm
  have small := bound_of_announced o.1.announced
  have table : Option.map List.length (some table') = o.1.room := by
    rw [Option.map_some, same]
    exact room
  by_cases next : tag = .appControlI
  · subst next
    have about : o.1.about .appControlI = e + 1 := by simp [Tally.about, entries]
    have moved : (entryOf x.afterTag .appControlI).toNat = (x.s.curControler.toNat + 1) % 2 ^ 32 := by
      simp [entryOf, Iteration.afterTag, UInt32.toNat_add]
    have place : ((entryOf x.afterTag .appControlI).toNat : Int) = e + 1 := by omega
    simp only [both, Tally.note, starts, named, about]
    refine ⟨⟨⟨e + 1, by simp [entries], by omega, by omega, ?_⟩, announced, table, size⟩, ?_⟩
    · rw [place]
      omega
    · simp only [started, List.map_append, List.map_cons, List.map_nil, List.append_cancel_left_eq,
        List.cons.injEq, and_true]
      exact place.symm
  · have stays : entryOf x.afterTag tag = x.s.curControler := if_neg next
    obtain ⟨noted, begun⟩ := note_other env o.1 o.2 (x := x)
      (by rw [named]; rintro ⟨⟩; cases entry) (by rw [named]; simpa using next)
    simp only [both, noted, begun]
    exact ⟨⟨⟨e, entries, low, high, by rw [stays]; exact cur⟩, announced, table, size⟩, started⟩

theorem other_follows {f : List Int} {o : Tally × List Nat} {x : Iteration} {tag : Tag}
    (here : x.b[x.s.i]? = some tag.toByte) (notTable : tag ≠ .appControls)
    (notEntry : entryTag tag = false) (follows : Follows f o x.s) :
    Stores x.afterTag (fun v t => readAt x.b x.afterTag.i v.length = .ok v →
      ∀ i, Follows f (both env o (.tag x)) { t with i := i }) (tagCase env x.afterTag tag) := by
  refine (tagCase_untouched x.afterTag tag).mono fun v t untouched _ i => ?_
  obtain ⟨entry, table, count⟩ := untouched.table notTable notEntry
  have named := tagAt_of_byte here
  obtain ⟨noted, begun⟩ := note_other env o.1 o.2 (x := x)
    (by rw [named]; simpa using notTable) (by rw [named]; rintro ⟨⟩; cases notEntry)
  simp only [both, noted, begun]
  exact ⟨follows.agrees.of_same entry table count, follows.started⟩

theorem observes : Observes env (both env) Follows where
  copies := by
    intro f o x tag here follows
    by_cases table : tag = .appControls
    · subst table
      exact announced_follows here follows
    · cases entry : entryTag tag with
      | true => exact entry_follows here entry follows
      | false => exact other_follows here table entry follows
  rejects := by
    intro f o x noCopy follows w
    obtain ⟨noted, begun⟩ := note_uncopied o.1 o.2 noCopy
    refine ⟨{ x.s with cp.wasEncrypted := w }, rfl, ?_⟩
    simp only [both, noted, begun]
    exact ⟨follows.agrees.of_same rfl rfl rfl, follows.started⟩
  enters := by
    intro f o x t decrypted enter follows
    obtain ⟨⟨w, packet⟩, cur, _⟩ := opened_state enter
    simp only [Opened.state, Iteration.afterTag] at packet cur
    obtain ⟨noted, begun⟩ := note_uncopied o.1 o.2 (opened_uncopied enter)
    obtain ⟨⟨⟨e, entries, low, high, at'⟩, announced, room, size⟩, started⟩ := follows
    have entered : both env (both env o (.tag x)) (.enter x) =
        ({ o.1 with entries := 0 :: o.1.entries }, o.2) := by
      rw [show both env o (.tag x) = o from Prod.ext noted begun]
      rfl
    refine ⟨e :: f, ?_, ?_⟩
    · rw [entered]
      refine ⟨⟨⟨0, by rw [entries], by omega, by omega, rfl⟩, ?_, ?_, size⟩, started⟩
      · rw [Decoding.start, packet]
        exact announced
      · rw [Decoding.start, packet]
        exact room
    · rintro o' u allocs ⟨⟨⟨e', entries', _⟩, announced', room', size'⟩, started'⟩
      refine ⟨⟨⟨e, ?_, low, high, by rw [cur]; exact at'⟩, announced', room', size'⟩, started'⟩
      simp only [both, Tally.note, entries', List.tail_cons]

theorem start_follows (random : PacketRandom) :
    Follows [] (.start, []) (.start (chatPacketInit0 random) 0) where
  agrees := ⟨⟨0, rfl, by omega, by omega, rfl⟩, rfl, rfl, by simp [Tally.start]⟩
  started := rfl

theorem history_follows (env : DecodeEnv) (random : PacketRandom) (fuel : Nat) (b : Bytes) :
    Along (Tally.note env) (fun o x => ∀ tag, o.Counts tag ↔ InsideTable x tag) .start
        (history env fuel (chatPacketInit0 random) 0 b b.length) ∧
      ∀ ret got allocs, chatPacketDecode env fuel (chatPacketInit0 random) 0 b b.length =
          .returned ret got allocs →
        let h := history env fuel (chatPacketInit0 random) 0 b b.length
        got.numOfControllers = (h.foldl (Tally.note env) .start).announced ∧
          (h.foldl (Tally.note env) .start).started = (h.foldl starts []).map Nat.cast := by
  let good (o : Tally) (x : Iteration) : Prop := ∀ tag, o.Counts tag ↔ InsideTable x tag
  have watch : Observes env (both env) Follows := observes
  obtain ⟨along, returned⟩ := watch.follows (fun o x => good o.1 x)
    (fun f o x follows tag => follows.agrees.counts_iff tag) (start_follows random) fuel b b.length
  refine ⟨(along_both good (.start, []) _).mp along, fun ret got allocs run => ?_⟩
  obtain ⟨u, rfl, follows⟩ := returned ret got allocs run
  rw [foldl_both] at follows
  exact ⟨follows.agrees.announced, follows.started⟩

/-- Every entry read or written is one of the table announced last, and every accepted string
    begins all the entries it announces, for exactly the strings whose tags come in order. -/
theorem table_kept_iff (env : DecodeEnv) (random : PacketRandom) (b : Bytes) :
    TableKept env random b ↔ InOrder env random b := by
  constructor
  · rintro ⟨inside, started⟩
    constructor
    · intro fuel
      obtain ⟨along, _⟩ := history_follows env random fuel b
      have visited : Along (Tally.note env) (fun _ x => ∀ tag, tagAt x = some tag →
          entryTag tag = true → InsideTable x tag) .start
            (history env fuel (chatPacketInit0 random) 0 b b.length) :=
        along_iff_forall.mpr fun x mem => inside fuel x (visits_of_mem_history mem)
      exact (along.and visited).mono _ fun o x both tag named entry =>
        (both.1 tag).mpr (both.2 tag named entry)
    · intro fuel got allocs run o j announced
      obtain ⟨_, returned⟩ := history_follows env random fuel b
      obtain ⟨count, begun⟩ := returned 0 got allocs run
      simp only [o] at announced ⊢
      rw [← count] at announced
      rw [begun]
      exact List.mem_map_of_mem (started fuel got allocs run j announced)
  · rintro ⟨inside, started⟩
    constructor
    · intro fuel x visit tag named entry
      obtain ⟨n, found⟩ := mem_history_of_visits visit
      obtain ⟨along, _⟩ := history_follows env random n b
      have counted := (along.and (inside n)).mono
        (fun _ x => ∀ tag, tagAt x = some tag → entryTag tag = true → InsideTable x tag)
        fun o x both tag named entry => (both.1 tag).mp (both.2 tag named entry)
      exact along_iff_forall.mp counted x (found n (Nat.le_refl n)) tag named entry
    · intro fuel got allocs run j announced
      obtain ⟨_, returned⟩ := history_follows env random fuel b
      obtain ⟨count, begun⟩ := returned 0 got allocs run
      rw [count] at announced
      have mem := started fuel got allocs run j announced
      simp only [begun, List.mem_map] at mem
      obtain ⟨k, mem, same⟩ := mem
      rwa [Int.ofNat_inj.mp same] at mem

def stray : Bytes := Tag.appControlValue.toByte :: be32 1

def bare : Bytes := Tag.appControls.toByte :: be32 1

theorem stray_not_kept : ¬ TableKept plainEnv default stray ∧ ¬ TableKept plainEnv default bare := by
  constructor
  · intro kept
    obtain ⟨table, here, _⟩ := kept.inside 1 ⟨stray, 5, .start (chatPacketInit0 default) 0⟩
      (.here .refl (by decide)) .appControlValue rfl rfl
    cases here
  · intro kept
    have begun := kept.started 3 _ 1 rfl 0 (by decide)
    exact absurd begun (by decide)

end TableOrder
