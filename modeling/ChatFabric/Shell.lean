import ChatFabric.ConfigStrings
import ChatFabric.LineEditor
import ChatFabric.Runs

/- The shell of the ESP8266 build: characters of the serial line go into shellBuffer, and a line
   that a newline ends goes to ProcessCommand. -/
namespace Shell
open ByteStrings CStrings ChatFabric
open ConfigStrings (strlen)
open LineEditor (Editor)
open Runs (EveryStep)

/-- shellBuffer has BUFF_LEN = 64 bytes. -/
structure State where
  shellBuffer : Block 64
  sbi : Int8

/-- shellBuffer[i] = c -/
def put (buffer : Block 64) (i : Int8) (c : UInt8) : Except Fault (Block 64) :=
  if 0 ≤ i.toInt ∧ i.toInt < 64 then .ok (buffer.patch i.toInt.toNat [c]) else .error .bufferWrite

/-- A command line that is cut at its spaces, and where its words begin. -/
structure Words where
  str : Block 64
  cmd : List Nat

/-- The loop of ProcessCommand from index i on, with so many characters to go. It is left when
    there are four words. -/
def splitWords : Nat → Nat → Words → Words
  | 0, _, w => w
  | left + 1, i, w =>
    let w := if w.str.val[i]? = some 32 then ⟨w.str.patch i [0], w.cmd ++ [i + 1]⟩ else w
    if w.cmd.length = 4 then w else splitWords left (i + 1) w

/-- ProcessCommand up to its words. The pointers that the loop does not set are to the string
    itself. -/
def processCommand (str : Block 64) : Except Fault Words := do
  let s ← strlen str.val
  let w := splitWords s 0 ⟨str, [0]⟩
  .ok { w with cmd := w.cmd ++ List.replicate (4 - w.cmd.length) 0 }

/-- The shell after a character, and the buffer where it was passed to ProcessCommand. -/
def shellCircleBuffer (s : State) (rcvChar : UInt8) : Except Fault (State × Option (Block 64)) :=
  if s.sbi = 63 then do
    let buffer ← put s.shellBuffer 0 0
    .ok (⟨buffer, 0⟩, none)
  else if rcvChar = 8 ∨ rcvChar = 127 then do
    let sbi := s.sbi - 1
    let buffer ← put s.shellBuffer sbi 0
    .ok (⟨buffer, sbi⟩, none)
  else if rcvChar = 13 then .ok (s, none)
  else if rcvChar = 10 then do
    let passed ← put s.shellBuffer s.sbi 0
    let words ← processCommand passed
    let buffer ← put words.str 0 0
    .ok (⟨buffer, 0⟩, some passed)
  else do
    let buffer ← put s.shellBuffer s.sbi rcvChar
    .ok (⟨buffer, s.sbi + 1⟩, none)

def receive (s : State) : Bytes → Except Fault (State × List (Block 64))
  | [] => .ok (s, [])
  | c :: rest => do
    let here ← shellCircleBuffer s c
    let later ← receive here.1 rest
    .ok (later.1, here.2.toList ++ later.2)

def start : State := ⟨.zero 64, 0⟩

/-- What the shell is meant to be: 63 characters of a line, which 8 and 127 take back. -/
def console : Editor UInt8 where
  room := 63
  rubout c := c = 8 ∨ c = 127
  skip c := c = 13
  newline c := c = 10
  positive := by decide
  apart c newline := by
    obtain rfl : c = 10 := by simpa using newline
    decide

structure Holds (s : State) (line : Bytes) : Prop where
  index : s.sbi.toInt = line.length
  room : line.length ≤ 63
  front : s.shellBuffer.val.take line.length = line

theorem start_holds : Holds start [] := ⟨rfl, by decide, rfl⟩

section
variable {s : State} {line : Bytes}

theorem put_ok (buffer : Block 64) {i : Int8} {k : Nat} (index : i.toInt = k) (inside : k < 64)
    (c : UInt8) : put buffer i c = .ok (buffer.patch k [c]) := by
  rw [put, index, if_pos (by omega), Int.toNat_natCast]

theorem put_front (buffer : Block 64) {k : Nat} (inside : k < 64) (c : UInt8) :
    (buffer.patch k [c]).val = buffer.val.take k ++ c :: buffer.val.drop (k + 1) := by
  rw [Block.patch_val buffer (Nat.succ_le_of_lt inside)]
  simp

theorem Holds.full_iff (holds : Holds s line) : s.sbi = 63 ↔ line.length = 63 := by
  have index := holds.index
  rw [← Int8.toInt_inj]
  have top : (63 : Int8).toInt = 63 := rfl
  omega

theorem holds_nil {buffer : Block 64} : Holds ⟨buffer, 0⟩ [] := ⟨rfl, by decide, rfl⟩

theorem processCommand_ok {str : Block 64} (terminated : 0 ∈ str.val) :
    ∃ words, processCommand str = .ok words := by
  rw [processCommand, strlen, if_pos terminated]
  exact ⟨_, rfl⟩

theorem splitWords_behind {left i k : Nat} {w : Words} (ended : w.str.val[k]? = some 0) (before : k < i) :
    text (splitWords left i w).str.val = text w.str.val := by
  induction left generalizing i w with
  | zero => rfl
  | succ left ih =>
    by_cases space : w.str.val[i]? = some 32
    · have inside : i < 64 := by
        have here := (List.getElem?_eq_some_iff.mp space).1
        rwa [Block.length_val] at here
      have bytes := put_front w.str inside 0
      have kept : (w.str.patch i [0]).val[k]? = some 0 := by
        rw [bytes, List.getElem?_append_left (by rw [List.length_take, Block.length_val]; omega),
          List.getElem?_take_of_lt before, ended]
      have same : text (w.str.patch i [0]).val = text w.str.val := by
        rw [← text_take kept, ← text_take ended, bytes, List.take_append_of_le_length, List.take_take,
          Nat.min_eq_left (by omega)]
        rw [List.length_take, Block.length_val]
        omega
      simp only [splitWords, space, if_true]
      split
      · exact same
      · rw [ih kept (by omega), same]
    · simp only [splitWords, space, if_false]
      split
      · rfl
      · exact ih ended (by omega)

theorem splitWords_first {left : Nat} {w : Words} {front tail : Bytes} (arr : w.str.val = front ++ tail)
    (word : ∀ c ∈ front, c ≠ 32 ∧ c ≠ 0) (size : (text tail).length = left) (one : w.cmd.length = 1) :
    text (splitWords left front.length w).str.val = front ++ (text tail).takeWhile (· ≠ 32) := by
  have free : 0 ∉ front := fun member => (word 0 member).2 rfl
  induction left generalizing front tail with
  | zero =>
    have none : text tail = [] := List.eq_nil_of_length_eq_zero size
    rw [splitWords, arr, text_append free, none]
    rfl
  | succ left ih =>
    match tail with
    | [] => cases size
    | c :: tail =>
      have other : c ≠ 0 := by
        rintro rfl
        simp at size
      have here : w.str.val[front.length]? = some c := by simp [arr]
      rw [text_cons tail other] at size ⊢
      by_cases space : c = 32
      · subst space
        have inside : front.length < 64 := by
          have here := (List.getElem?_eq_some_iff.mp here).1
          rwa [Block.length_val] at here
        have bytes := put_front w.str inside 0
        rw [arr, List.take_left] at bytes
        have ended : (w.str.patch front.length [0]).val[front.length]? = some 0 := by simp [bytes]
        have two : (w.cmd ++ [front.length + 1]).length ≠ 4 := by simp [one]
        simp only [splitWords, here, if_true, two, if_false]
        rw [splitWords_behind (w := ⟨w.str.patch front.length [0], _⟩) ended (by omega), bytes,
          text_append free]
        simp
      · have longer : w.str.val = (front ++ [c]) ++ tail := by simp [arr]
        have four : w.cmd.length ≠ 4 := by omega
        have later := ih longer (by simpa [or_imp, forall_and, space, other] using word)
          (by simpa using size)
          (by simpa [free] using Ne.symm other)
        have apart : ¬ some c = some (32 : UInt8) := by simpa using space
        simp only [splitWords, here, apart, if_false, four]
        rw [List.length_append, List.length_singleton] at later
        rw [later]
        simp [space]

/-- What ProcessCommand compares with its commands is the first word of the line. -/
theorem processCommand_name {str : Block 64} {words : Words} (split : processCommand str = .ok words) :
    text words.str.val = (text str.val).takeWhile (· ≠ 32) := by
  by_cases terminated : 0 ∈ str.val
  · rw [processCommand, strlen, if_pos terminated] at split
    cases split
    have none : ∀ c ∈ ([] : Bytes), c ≠ 32 ∧ c ≠ 0 := by simp
    exact splitWords_first rfl none rfl rfl
  · rw [processCommand, strlen, if_neg terminated] at split
    cases split

theorem Holds.put_end (holds : Holds s line) :
    ∃ passed, put s.shellBuffer s.sbi 0 = .ok passed ∧ 0 ∈ passed.val ∧ text passed.val = text line := by
  have inside : line.length < 64 := by
    have short := holds.room
    omega
  refine ⟨_, put_ok s.shellBuffer holds.index inside 0, ?_, ?_⟩
  · rw [put_front _ inside]
    simp
  · rw [put_front _ inside, holds.front]
    have last : (line ++ 0 :: s.shellBuffer.val.drop (line.length + 1))[line.length]? = some 0 := by simp
    rw [← text_take last, List.take_left]

theorem Holds.rubout (holds : Holds s line) (some : line ≠ []) :
    ∃ buffer, put s.shellBuffer (s.sbi - 1) 0 = .ok buffer ∧ Holds ⟨buffer, s.sbi - 1⟩ line.dropLast := by
  have short := holds.room
  have positive : 0 < line.length := List.length_pos_iff.mpr some
  have index : (s.sbi - 1).toInt = (line.length - 1 : Nat) := by
    have one : (1 : Int8).toInt = 1 := rfl
    rw [Int8.toInt_sub, holds.index, one, Int.bmod_eq_of_le (by omega) (by omega)]
    omega
  have inside : line.length - 1 < 64 := by omega
  refine ⟨_, put_ok s.shellBuffer index inside 0, ?_, ?_, ?_⟩
  · rw [index, List.length_dropLast]
  · rw [List.length_dropLast]
    omega
  · have front := congrArg (List.take (line.length - 1)) holds.front
    rw [List.take_take, Nat.min_eq_left (by omega)] at front
    rw [put_front _ inside, List.length_dropLast, List.dropLast_eq_take, ← front]
    exact List.take_left' (by rw [List.length_take, Block.length_val]; omega)

theorem Holds.char (holds : Holds s line) (room : line.length ≠ 63) (c : UInt8) :
    ∃ buffer, put s.shellBuffer s.sbi c = .ok buffer ∧ Holds ⟨buffer, s.sbi + 1⟩ (line ++ [c]) := by
  have short := holds.room
  have inside : line.length < 64 := by omega
  have length : (line ++ [c]).length = line.length + 1 := List.length_append
  refine ⟨_, put_ok s.shellBuffer holds.index inside c, ?_, ?_, ?_⟩
  · have one : (1 : Int8).toInt = 1 := rfl
    rw [Int8.toInt_add, holds.index, one, Int.bmod_eq_of_le (by omega) (by omega), length]
    rfl
  · omega
  · have behind : line ++ c :: s.shellBuffer.val.drop (line.length + 1) =
        (line ++ [c]) ++ s.shellBuffer.val.drop (line.length + 1) := by simp
    rw [put_front _ inside, holds.front, behind, List.take_left]

theorem Holds.newline (holds : Holds s line) :
    ∃ passed words buffer, put s.shellBuffer s.sbi 0 = .ok passed ∧ 0 ∈ passed.val ∧
      text passed.val = text line ∧ processCommand passed = .ok words ∧ put words.str 0 0 = .ok buffer := by
  obtain ⟨passed, put, terminated, same⟩ := holds.put_end
  obtain ⟨words, split⟩ := processCommand_ok terminated
  exact ⟨passed, words, _, put, terminated, same, split, put_ok words.str (k := 0) rfl (by decide) 0⟩

def Follows (s : State) (line : Bytes) (c : UInt8) : Prop :=
  ∃ t passed, shellCircleBuffer s c = .ok (t, passed) ∧ Holds t (console.type line c).1 ∧
    (∀ b ∈ passed, 0 ∈ b.val) ∧ passed.map (fun b => text b.val) = (console.type line c).2.map text

theorem follows_silent {t : State} {next : Bytes} {c : UInt8} (run : shellCircleBuffer s c = .ok (t, none))
    (typed : console.type line c = (next, none)) (holds : Holds t next) : Follows s line c :=
  ⟨t, none, run, by rwa [typed], by simp, by rw [typed]; rfl⟩

theorem step_follows (holds : Holds s line) {c : UInt8} (some : console.rubout c = true → line ≠ []) :
    Follows s line c := by
  by_cases full : line.length = 63
  · have top : s.sbi = 63 := holds.full_iff.mpr full
    have put := put_ok s.shellBuffer (i := 0) (k := 0) rfl (by decide) 0
    exact follows_silent (t := ⟨_, 0⟩) (by rw [shellCircleBuffer, if_pos top, put]; rfl) (if_pos full) holds_nil
  have room : s.sbi ≠ 63 := fun top => full (holds.full_iff.mp top)
  have more : line.length ≠ console.room := full
  by_cases rubout : c = 8 ∨ c = 127
  · have takes : console.rubout c = true := by simpa [console] using rubout
    obtain ⟨buffer, put, keeps⟩ := holds.rubout (some takes)
    exact follows_silent (t := ⟨buffer, _⟩)
      (by simp only [shellCircleBuffer, room, rubout, if_false, if_true, put, bind, Except.bind])
      (by rw [LineEditor.Editor.type, if_neg more, if_pos takes]) keeps
  have keeps : ¬ console.rubout c = true := by simpa [console] using rubout
  by_cases skip : c = 13
  · exact follows_silent (by rw [shellCircleBuffer, if_neg room, if_neg rubout, if_pos skip])
      (by rw [LineEditor.Editor.type, if_neg more, if_neg keeps, if_pos (by simp [console, skip])]) holds
  have kept : ¬ console.skip c = true := by simpa [console] using skip
  by_cases newline : c = 10
  · obtain ⟨passed, words, buffer, put, terminated, same, split, clear⟩ := holds.newline
    have typed : console.type line c = ([], Option.some line) := by
      rw [LineEditor.Editor.type, if_neg more, if_neg keeps, if_neg kept,
        if_pos (by simp [console, newline])]
    refine ⟨⟨buffer, 0⟩, Option.some passed, ?_, by rw [typed]; exact holds_nil,
      by simpa using terminated, by rw [typed, Option.map_some, Option.map_some, same]⟩
    rw [shellCircleBuffer, if_neg room, if_neg rubout, if_neg skip, if_pos newline, put]
    simp only [bind, Except.bind, split, clear]
  · obtain ⟨buffer, put, keeps'⟩ := holds.char full c
    exact follows_silent (t := ⟨buffer, _⟩)
      (by rw [shellCircleBuffer, if_neg room, if_neg rubout, if_neg skip, if_neg newline, put]; rfl)
      (by rw [LineEditor.Editor.type, if_neg more, if_neg keeps, if_neg kept,
        if_neg (by simpa [console] using newline)]) keeps'

theorem step_faults (holds : Holds s []) {c : UInt8} (rubout : console.rubout c = true) :
    shellCircleBuffer s c = .error .bufferWrite := by
  have room : s.sbi ≠ 63 := fun top => absurd (holds.full_iff.mp top) (by decide)
  have takes : c = 8 ∨ c = 127 := by simpa [console] using rubout
  have before : (s.sbi - 1).toInt = -1 := by
    have one : (1 : Int8).toInt = 1 := rfl
    rw [Int8.toInt_sub, holds.index, one]
    rfl
  have outside : put s.shellBuffer (s.sbi - 1) 0 = .error .bufferWrite := by
    rw [put, before]
    rfl
  simp only [shellCircleBuffer, room, takes, if_false, if_true, outside, bind, Except.bind]

def TakesFromLine (line : Bytes) (c : UInt8) : Prop := console.rubout c = true → line ≠ []

abbrev type (line : Bytes) (c : UInt8) : Bytes := (console.type line c).1

theorem receive_follows (holds : Holds s line) {stream : Bytes}
    (steps : EveryStep type TakesFromLine line stream) :
    ∃ t passed, receive s stream = .ok (t, passed) ∧ Holds t (console.typed line stream).1 ∧
      (∀ b ∈ passed, 0 ∈ b.val) ∧
      passed.map (fun b => text b.val) = (console.typed line stream).2.map text := by
  induction stream generalizing s line with
  | nil => exact ⟨s, [], rfl, holds, by simp, rfl⟩
  | cons c rest ih =>
    obtain ⟨here, later⟩ := steps
    obtain ⟨t, passed, step, keeps, terminated, same⟩ := step_follows holds here
    obtain ⟨u, others, run, stays, ended, texts⟩ := ih keeps later
    refine ⟨u, passed.toList ++ others, ?_, stays, fun b member => ?_, ?_⟩
    · simp only [receive, step, run, bind, Except.bind]
    · rcases List.mem_append.mp member with first | behind
      · exact terminated b (by simpa using first)
      · exact ended b behind
    · have first : passed.toList.map (fun b => text b.val) = (console.type line c).2.toList.map text := by
        rw [← Option.toList_map, ← Option.toList_map, same]
      simp only [List.map_append, first, texts, LineEditor.Editor.typed]

theorem receive_faults (holds : Holds s line) {stream : Bytes}
    (step : ¬ EveryStep type TakesFromLine line stream) : ∃ f, receive s stream = .error f := by
  induction stream generalizing s line with
  | nil => exact absurd trivial step
  | cons c rest ih =>
    by_cases here : TakesFromLine line c
    · obtain ⟨t, passed, run, keeps, _⟩ := step_follows holds here
      obtain ⟨f, stop⟩ := ih keeps fun later => step ⟨here, later⟩
      exact ⟨f, by simp only [receive, run, stop, bind, Except.bind]⟩
    · obtain ⟨rubout, rfl⟩ : console.rubout c = true ∧ line = [] := by
        simpa [TakesFromLine] using here
      exact ⟨.bufferWrite, by simp only [receive, step_faults holds rubout, bind, Except.bind]⟩

end

/-- Every write is inside of the buffer, and every string that is passed ends there, exactly as long
    as nothing is taken back from an empty line. -/
theorem writes_inside_iff (stream : Bytes) :
    (∃ t passed, receive start stream = .ok (t, passed) ∧ ∀ b ∈ passed, 0 ∈ b.val) ↔
      EveryStep type TakesFromLine [] stream := by
  constructor
  · rintro ⟨t, passed, run, _⟩
    by_contra step
    obtain ⟨f, stop⟩ := receive_faults start_holds step
    rw [run] at stop
    cases stop
  · intro steps
    obtain ⟨t, passed, run, _, terminated, _⟩ := receive_follows start_holds steps
    exact ⟨t, passed, run, terminated⟩

/-- A backspace before anything else writes before the buffer. -/
theorem backspace_outside :
    ¬ ∃ t passed, receive start [8] = .ok (t, passed) ∧ ∀ b ∈ passed, 0 ∈ b.val := by
  rintro ⟨t, passed, run, _⟩
  have stop : receive start [8] = .error .bufferWrite := rfl
  rw [stop] at run
  cases run

def serialLines (stream : Bytes) : List Bytes :=
  (stream.splitOn 10).dropLast.map fun w => w.filter (· ≠ 13)

def shortLines (stream : Bytes) : List Bytes := (serialLines stream).filter fun w => w.length ≤ 62

theorem console_lines (stream : Bytes) : console.lines stream = (stream.splitOn 10).dropLast := by
  have same : console.newline = fun c => c == 10 := by
    funext c
    simp [console, Bool.beq_eq_decide_eq]
  rw [LineEditor.Editor.lines, same, List.splitOn_eq_splitOnP]

theorem console_kept (w : Bytes) : console.kept w = w.filter (· ≠ 13) := by
  simp [LineEditor.Editor.kept, console]

theorem console_shortLine (w : Bytes) :
    console.shortLine w = if (w.filter (· ≠ 13)).length ≤ 62 then [w.filter (· ≠ 13)] else [] := by
  rw [LineEditor.Editor.shortLine, console_kept]
  exact if_congr Nat.lt_succ_iff rfl rfl

theorem console_shortLines (stream : Bytes) :
    (console.lines stream).flatMap console.shortLine = shortLines stream := by
  rw [console_lines, shortLines, serialLines]
  induction (stream.splitOn 10).dropLast with
  | nil => rfl
  | cons w rest ih =>
    rw [List.flatMap_cons, List.map_cons, List.filter_cons, ih, console_shortLine]
    by_cases short : (w.filter (· ≠ 13)).length ≤ 62
    · rw [if_pos short, if_pos (by simpa using short), List.singleton_append]
    · rw [if_neg short, if_neg (by simpa using short), List.nil_append]

theorem text_kept_iff (w : Bytes) : text (console.kept w) = console.kept w ↔ 0 ∉ w := by
  rw [text_eq_iff, console_kept]
  simp

theorem steps_of_plain {stream : Bytes} (plain : ∀ c ∈ stream, console.rubout c = false) (line : Bytes) :
    EveryStep type TakesFromLine line stream := by
  induction stream generalizing line with
  | nil => trivial
  | cons c rest ih =>
    have here := plain c (by simp)
    exact ⟨fun takes => absurd (here.symm.trans takes) (by decide),
      ih (fun d member => plain d (by simp [member])) _⟩

/-- Without backspaces, the strings passed are the lines of at most 62 characters exactly where each
    line is one, and free of zeros, or fills the buffer at its end. -/
theorem commands_iff {stream : Bytes} (plain : ∀ c ∈ stream, c ≠ 8 ∧ c ≠ 127) :
    (∃ t passed, receive start stream = .ok (t, passed) ∧
      passed.map (fun b => text b.val) = shortLines stream) ↔
      ∀ w ∈ (stream.splitOn 10).dropLast,
        (w.filter (· ≠ 13)).length ≤ 62 ∧ 0 ∉ w ∨ console.Fills w := by
  have kept : ∀ c ∈ stream, console.rubout c = false := fun c member => by
    simpa [console] using plain c member
  obtain ⟨t, passed, run, _, _, texts⟩ := receive_follows start_holds (steps_of_plain kept [])
  have exact := LineEditor.Editor.typed_short_iff kept text
  rw [console_shortLines, console_lines] at exact
  have condition (w : Bytes) : (console.kept w).length < console.room ∧ text (console.kept w) = console.kept w ↔
      (w.filter (· ≠ 13)).length ≤ 62 ∧ 0 ∉ w := by
    rw [text_kept_iff, console_kept]
    exact and_congr Nat.lt_succ_iff Iff.rfl
  simp only [condition] at exact
  rw [← exact]
  constructor
  · rintro ⟨u, others, again, same⟩
    rw [run] at again
    cases again
    rw [← texts, same]
  · intro same
    exact ⟨t, passed, run, texts.trans same⟩

theorem commands_iff_ip : (∀ c ∈ ([105, 112, 13, 10] : Bytes), c ≠ 8 ∧ c ≠ 127) ∧
    ∃ t passed, receive start [105, 112, 13, 10] = .ok (t, passed) ∧
      passed.map (fun b => text b.val) = shortLines [105, 112, 13, 10] := by
  refine ⟨by simp, (commands_iff (by simp)).mpr fun w member => .inl ?_⟩
  have lines : (([105, 112, 13, 10] : Bytes).splitOn 10).dropLast = [[105, 112, 13]] := rfl
  rw [lines, List.mem_singleton] at member
  rw [member]
  decide

/-- 64 characters that are lost, and the command behind them. -/
def longLine : Bytes := List.replicate 64 97 ++ [117, 110, 112, 97, 105, 114, 10]

theorem longLine_runs : (∀ c ∈ longLine, c ≠ 8 ∧ c ≠ 127) ∧
    ¬ ∃ t passed, receive start longLine = .ok (t, passed) ∧
      passed.map (fun b => text b.val) = shortLines longLine := by
  refine ⟨by simp [longLine, or_imp, forall_and], ?_⟩
  rintro ⟨t, passed, run, same⟩
  have texts : (receive start longLine).map (fun r => r.2.map fun b => text b.val) =
      .ok [[117, 110, 112, 97, 105, 114]] := by decide +kernel
  have none : shortLines longLine = [] := by decide +kernel
  rw [run] at texts
  rw [none] at same
  simp [Except.map, same] at texts

end Shell
