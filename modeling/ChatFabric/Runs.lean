import Mathlib.Data.List.Basic

/- Runs of a deterministic machine over a list of inputs. The environment's
   choices are part of an input, so one list fixes one run. At the end, chains of steps that
   are only related. -/
namespace Runs
variable {State Input : Type}

def run (next : State → Input → State) (s : State) (inputs : List Input) : State :=
  inputs.foldl next s

def states (next : State → Input → State) : State → List Input → List State
  | s, [] => [s]
  | s, a :: rest => s :: states next (next s a) rest

/-- Every step of the run meets a condition on the state before it and its input. -/
def EveryStep (next : State → Input → State) (meets : State → Input → Prop) :
    State → List Input → Prop
  | _, [] => True
  | s, a :: rest => meets s a ∧ EveryStep next meets (next s a) rest

variable {next : State → Input → State}

theorem run_append (s : State) (first second : List Input) :
    run next s (first ++ second) = run next (run next s first) second := by
  simp [run]

theorem every_step_append {meets : State → Input → Prop} {s : State} {first second : List Input} :
    EveryStep next meets s (first ++ second) ↔
      EveryStep next meets s first ∧ EveryStep next meets (run next s first) second := by
  induction first generalizing s with
  | nil => simp [EveryStep, run]
  | cons a rest ih => simp only [List.cons_append, EveryStep, ih, run, List.foldl_cons, and_assoc]

theorem mem_states_iff {s t : State} {inputs : List Input} :
    t ∈ states next s inputs ↔ ∃ front back, inputs = front ++ back ∧ run next s front = t := by
  induction inputs generalizing s with
  | nil =>
    constructor
    · intro member
      exact ⟨[], [], rfl, by simpa [states, run, eq_comm] using member⟩
    · rintro ⟨front, back, split, rfl⟩
      have none : front = [] := (List.append_eq_nil_iff.mp split.symm).1
      simp [states, run, none]
  | cons a rest ih =>
    simp only [states, List.mem_cons, ih]
    constructor
    · rintro (rfl | ⟨front, back, split, reached⟩)
      · exact ⟨[], a :: rest, rfl, rfl⟩
      · exact ⟨a :: front, back, by simp [split], reached⟩
    · rintro ⟨front, back, split, reached⟩
      cases front with
      | nil => exact Or.inl reached.symm
      | cons b front =>
        simp only [List.cons_append, List.cons.injEq] at split
        obtain ⟨rfl, split⟩ := split
        exact Or.inr ⟨front, back, split, reached⟩

theorem start_mem_states (s : State) (inputs : List Input) : s ∈ states next s inputs :=
  mem_states_iff.mpr ⟨[], inputs, rfl, rfl⟩

theorem every_state_of_every_step {Inv : State → Prop} {meets : State → Input → Prop}
    (keep : ∀ s a, Inv s → meets s a → Inv (next s a)) {s : State} {inputs : List Input}
    (start : Inv s) (steps : EveryStep next meets s inputs) : ∀ t ∈ states next s inputs, Inv t := by
  induction inputs generalizing s with
  | nil => simpa [states] using start
  | cons a rest ih =>
    intro t member
    rcases List.mem_cons.mp member with rfl | later
    · exact start
    · exact ih (keep s a start steps.1) steps.2 t later

theorem every_step_of {Inv : State → Prop} {meets gives : State → Input → Prop}
    (keep : ∀ s a, Inv s → Inv (next s a)) (each : ∀ s a, Inv s → meets s a → gives s a) {s : State}
    {inputs : List Input} (start : Inv s) (steps : EveryStep next meets s inputs) :
    EveryStep next gives s inputs := by
  induction inputs generalizing s with
  | nil => trivial
  | cons a rest ih => exact ⟨each s a start steps.1, ih (keep s a start) steps.2⟩

theorem EveryStep.and {one two : State → Input → Prop} {s : State} {inputs : List Input}
    (first : EveryStep next one s inputs) (second : EveryStep next two s inputs) :
    EveryStep next (fun s a => one s a ∧ two s a) s inputs := by
  induction inputs generalizing s with
  | nil => trivial
  | cons a rest ih => exact ⟨⟨first.1, second.1⟩, ih first.2 second.2⟩

theorem every_step {Inv : State → Prop} {meets : State → Input → Prop}
    (keep : ∀ s a, Inv s → Inv (next s a)) (each : ∀ s a, Inv s → meets s a) {s : State}
    (start : Inv s) (inputs : List Input) : EveryStep next meets s inputs := by
  induction inputs generalizing s with
  | nil => trivial
  | cons a rest ih => exact ⟨each s a start, ih (keep s a start)⟩

theorem every_state {Inv : State → Prop} (keep : ∀ s a, Inv s → Inv (next s a)) {s : State}
    (start : Inv s) (inputs : List Input) : ∀ t ∈ states next s inputs, Inv t := by
  have steps : EveryStep next (fun _ _ => True) s inputs :=
    every_step keep (fun _ _ _ => trivial) start inputs
  exact every_state_of_every_step (fun s a hs _ => keep s a hs) start steps

theorem run_invariant {Inv : State → Prop} (keep : ∀ s a, Inv s → Inv (next s a)) {s : State}
    (start : Inv s) (inputs : List Input) : Inv (run next s inputs) :=
  every_state keep start inputs _ (mem_states_iff.mpr ⟨inputs, [], by simp, rfl⟩)

/-- Where an allowed step keeps the property exactly when it meets the condition, a run of
    such steps has it throughout exactly when all its steps meet the condition. -/
theorem every_state_iff_every_step_of_steps {Inv Good : State → Prop}
    {allowed meets : State → Input → Prop}
    (keep : ∀ s a, Inv s → Good s → allowed s a → Inv (next s a))
    (exact : ∀ s a, Inv s → Good s → allowed s a → (Good (next s a) ↔ meets s a))
    {s : State} {inputs : List Input} (start : Inv s) (good : Good s)
    (all : EveryStep next allowed s inputs) :
    (∀ t ∈ states next s inputs, Good t) ↔ EveryStep next meets s inputs := by
  induction inputs generalizing s with
  | nil => simp [states, EveryStep, good]
  | cons a rest ih =>
    obtain ⟨here, later⟩ := all
    have first := (start_mem_states (next s a) rest : next s a ∈ states next _ rest)
    have stays := keep s a start good here
    have step := exact s a start good here
    constructor
    · intro all
      have goodNext := all _ (List.mem_cons_of_mem s first)
      exact ⟨step.mp goodNext,
        (ih stays goodNext later).mp fun t member => all t (List.mem_cons_of_mem s member)⟩
    · rintro ⟨met, steps⟩ t member
      have goodNext := step.mpr met
      rcases List.mem_cons.mp member with rfl | behind
      · exact good
      · exact (ih stays goodNext later).mpr steps t behind

theorem every_step_input {meets : Input → Prop} {s : State} {inputs : List Input} :
    EveryStep next (fun _ a => meets a) s inputs ↔ ∀ a ∈ inputs, meets a := by
  induction inputs generalizing s with
  | nil => simp [EveryStep]
  | cons a rest ih => simp [EveryStep, ih]

theorem every_state_iff_every_step_of_all {Inv Good : State → Prop} {allowed : Input → Prop}
    {meets : State → Input → Prop}
    (keep : ∀ s a, Inv s → Good s → allowed a → Inv (next s a))
    (exact : ∀ s a, Inv s → Good s → allowed a → (Good (next s a) ↔ meets s a))
    {s : State} {inputs : List Input} (start : Inv s) (good : Good s) (all : ∀ a ∈ inputs, allowed a) :
    (∀ t ∈ states next s inputs, Good t) ↔ EveryStep next meets s inputs :=
  every_state_iff_every_step_of_steps keep exact start good (every_step_input.mpr all)

theorem every_state_iff_every_step {Inv Good : State → Prop} {meets : State → Input → Prop}
    (keep : ∀ s a, Inv s → Good s → Inv (next s a))
    (exact : ∀ s a, Inv s → Good s → (Good (next s a) ↔ meets s a))
    {s : State} (start : Inv s) (good : Good s) (inputs : List Input) :
    (∀ t ∈ states next s inputs, Good t) ↔ EveryStep next meets s inputs :=
  have all : ∀ a ∈ inputs, (fun _ => True : Input → Prop) a := fun _ _ => trivial
  every_state_iff_every_step_of_all (fun s a inv good _ => keep s a inv good)
    (fun s a inv good _ => exact s a inv good) start good all

theorem run_invariant_of_all {Inv : State → Prop} {allowed : Input → Prop}
    (keep : ∀ s a, Inv s → allowed a → Inv (next s a)) {s : State} {inputs : List Input}
    (start : Inv s) (all : ∀ a ∈ inputs, allowed a) : Inv (run next s inputs) := by
  induction inputs generalizing s with
  | nil => exact start
  | cons a rest ih =>
    apply ih (keep s a start (all a List.mem_cons_self))
    intro b member
    exact all b (List.mem_cons_of_mem a member)

/-- Where a step that does not meet the condition leads into a trap, the end of a run is
    good exactly when all its steps meet the condition. -/
theorem end_iff_every_step {Live Dead Good : State → Prop} {allowed : Input → Prop}
    {meets : State → Input → Prop}
    (keep : ∀ s a, Live s → allowed a → meets s a → Live (next s a))
    (lose : ∀ s a, Live s → ¬ meets s a → Dead (next s a))
    (trap : ∀ s a, Dead s → allowed a → Dead (next s a))
    (good : ∀ s, Live s → Good s) (bad : ∀ s, Dead s → ¬ Good s)
    {s : State} {inputs : List Input} (start : Live s) (all : ∀ a ∈ inputs, allowed a) :
    Good (run next s inputs) ↔ EveryStep next meets s inputs := by
  induction inputs generalizing s with
  | nil => exact ⟨fun _ => trivial, fun _ => good s start⟩
  | cons a rest ih =>
    have first := all a List.mem_cons_self
    have later : ∀ b ∈ rest, allowed b := fun b member => all b (List.mem_cons_of_mem a member)
    by_cases met : meets s a
    · have stays := ih (keep s a start first met) later
      exact ⟨fun reached => ⟨met, stays.mp reached⟩, fun steps => stays.mpr steps.2⟩
    · have dead : Dead (run next (next s a) rest) := run_invariant_of_all trap (lose s a start met) later
      exact ⟨fun reached => absurd reached (bad _ dead), fun steps => absurd steps.1 met⟩

section chains
variable {Next : State → State → Prop}

/-- So many steps of a relation, one behind the other. -/
inductive Chain (Next : State → State → Prop) : Nat → State → State → Prop where
  | none (s : State) : Chain Next 0 s s
  | more {n : Nat} {s t u : State} (step : Next s t) (rest : Chain Next n t u) : Chain Next (n + 1) s u

theorem chain_le_measure {Inv : State → Prop} (measure : State → Nat)
    (down : ∀ s t, Inv s → Next s t → measure t < measure s) (keep : ∀ s t, Inv s → Next s t → Inv t)
    {n : Nat} {s t : State} (start : Inv s) (chain : Chain Next n s t) : n ≤ measure s := by
  induction chain with
  | none s => exact Nat.zero_le _
  | more step rest ih =>
    have less := down _ _ start step
    have later := ih (keep _ _ start step)
    omega

end chains

end Runs
