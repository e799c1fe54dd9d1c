import Mathlib.Logic.Relation

/- While loops whose body may leave the enclosing function early. A loop that
   does not finish within its fuel has no result; the variant rule shows when
   that cannot happen. -/
namespace WhileLoop
variable {State Exit : Type}

def iterate (guard : State → Bool) (body : State → Except Exit State) :
    Nat → State → Option (Except Exit State)
  | 0, _ => none
  | fuel + 1, s =>
    if guard s then
      match body s with
      | .ok t => iterate guard body fuel t
      | .error e => some (.error e)
    else some (.ok s)

def Pass (guard : State → Bool) (body : State → Except Exit State) (s t : State) : Prop :=
  guard s = true ∧ body s = .ok t

def Reaches (guard : State → Bool) (body : State → Except Exit State) : State → State → Prop :=
  Relation.ReflTransGen (Pass guard body)

variable {guard : State → Bool} {body : State → Except Exit State}

theorem iterate_pass {s t : State} (pass : Pass guard body s t) (fuel : Nat) :
    iterate guard body (fuel + 1) s = iterate guard body fuel t := by
  simp [iterate, pass.1, pass.2]

theorem iterate_done {s : State} (done : guard s = false) (fuel : Nat) :
    iterate guard body (fuel + 1) s = some (.ok s) := by
  simp [iterate, done]

theorem iterate_exit {s : State} {e : Exit} (more : guard s = true) (leave : body s = .error e)
    (fuel : Nat) : iterate guard body (fuel + 1) s = some (.error e) := by
  simp [iterate, more, leave]

/-- A finished loop stops at a reached state: its guard is false there, or the body left. -/
theorem iterate_result {fuel : Nat} {s : State} {r : Except Exit State}
    (run : iterate guard body fuel s = some r) :
    ∃ t, Reaches guard body s t ∧
      ((guard t = false ∧ r = .ok t) ∨ (guard t = true ∧ ∃ e, body t = .error e ∧ r = .error e)) := by
  induction fuel generalizing s with
  | zero => simp [iterate] at run
  | succ fuel ih =>
    cases more : guard s with
    | false =>
      rw [iterate_done more] at run
      exact ⟨s, .refl, .inl ⟨more, (Option.some.inj run).symm⟩⟩
    | true =>
      cases pass : body s with
      | ok t =>
        rw [iterate_pass ⟨more, pass⟩] at run
        obtain ⟨u, reach, stop⟩ := ih run
        exact ⟨u, .head ⟨more, pass⟩ reach, stop⟩
      | error e =>
        rw [iterate_exit more pass] at run
        exact ⟨s, .refl, .inr ⟨more, e, pass, (Option.some.inj run).symm⟩⟩

theorem reaches_invariant (Inv : State → Prop) {s t : State} (reach : Reaches guard body s t)
    (start : Inv s) (keep : ∀ u v, Inv u → Pass guard body u v → Inv v) : Inv t := by
  induction reach with
  | refl => exact start
  | tail _ pass ih => exact keep _ _ ih pass

theorem reaches_of_pass {s t u : State} (pass : Pass guard body s u) (reach : Reaches guard body s t) :
    t = s ∨ Reaches guard body u t := by
  rcases Relation.ReflTransGen.cases_head reach with same | ⟨v, first, later⟩
  · exact .inl same.symm
  · have same : u = v := Except.ok.inj (pass.2.symm.trans first.2)
    exact .inr (same ▸ later)

theorem reaches_last {s t : State} (last : ∀ u, body s = .ok u → guard u = false)
    (reach : Reaches guard body s t) (more : guard t = true) : t = s := by
  rcases Relation.ReflTransGen.cases_head reach with same | ⟨u, pass, later⟩
  · exact same.symm
  · have done := last u pass.2
    rcases Relation.ReflTransGen.cases_head later with same | ⟨v, next, _⟩
    · rw [← same, done] at more
      cases more
    · rw [next.1] at done
      cases done

theorem last_or_passed {s t last : State} (reach : Reaches guard body s t)
    (stop : Reaches guard body s last) (ends : ∀ u, ¬ Pass guard body last u) :
    t = last ∨ ∃ u, Pass guard body t u := by
  have unique : Relator.RightUnique (Pass guard body) :=
    fun _ _ _ first second => Except.ok.inj (first.2.symm.trans second.2)
  rcases Relation.ReflTransGen.total_of_right_unique unique reach stop with later | later
  · rcases Relation.ReflTransGen.cases_head later with same | ⟨u, pass, _⟩
    · exact .inl same
    · exact .inr ⟨u, pass⟩
  · rcases Relation.ReflTransGen.cases_head later with same | ⟨u, pass, _⟩
    · exact .inl same.symm
    · exact absurd pass (ends u)

/-- The variant rule: a measure every pass decreases bounds the fuel the loop needs. -/
theorem iterate_total (variant : State → Nat) {s : State}
    (falls : ∀ t u, Reaches guard body s t → Pass guard body t u → variant u < variant t)
    {fuel : Nat} (enough : variant s < fuel) : ∃ r, iterate guard body fuel s = some r := by
  induction fuel generalizing s with
  | zero => omega
  | succ fuel ih =>
    cases more : guard s with
    | false => exact ⟨_, iterate_done more fuel⟩
    | true =>
      cases pass : body s with
      | error e => exact ⟨_, iterate_exit more pass fuel⟩
      | ok t =>
        have less := falls s t .refl ⟨more, pass⟩
        rw [iterate_pass ⟨more, pass⟩]
        exact ih (fun u v reach next => falls u v (.head ⟨more, pass⟩ reach) next) (by omega)

theorem iterate_mono {fuel more : Nat} {s : State} {r : Except Exit State}
    (run : iterate guard body fuel s = some r) (le : fuel ≤ more) :
    iterate guard body more s = some r := by
  induction fuel generalizing s more with
  | zero => simp [iterate] at run
  | succ fuel ih =>
    obtain ⟨more, rfl⟩ : ∃ k, more = k + 1 := ⟨more - 1, by omega⟩
    simp only [iterate] at run ⊢
    split at run
    · rename_i yes
      rw [if_pos yes]
      split at run
      · rename_i t pass
        simpa only [pass] using ih run (by omega)
      · rename_i e leave
        simpa only [leave] using run
    · rename_i no
      rw [if_neg no]
      exact run

theorem iterate_agree {next : State → Except Exit State} (stuck : Exit)
    (agree : ∀ s, body s ≠ .error stuck → next s = body s) {fuel : Nat} {s : State}
    {r : Except Exit State} (run : iterate guard body fuel s = some r) (ends : r ≠ .error stuck) :
    iterate guard next fuel s = some r := by
  induction fuel generalizing s with
  | zero => simp [iterate] at run
  | succ fuel ih =>
    cases more : guard s with
    | false => rwa [iterate_done more] at run ⊢
    | true =>
      cases pass : body s with
      | ok t =>
        have same := agree s (by simp [pass])
        rw [iterate_pass ⟨more, pass⟩] at run
        rw [iterate_pass ⟨more, same.trans pass⟩]
        exact ih run
      | error e =>
        rw [iterate_exit more pass] at run
        cases run
        have same := agree s (by rwa [pass])
        exact iterate_exit more (same.trans pass) fuel

theorem iterate_simulates {State' : Type} {guard' : State' → Bool} {body' : State' → Except Exit State'}
    {Sim : State → State' → Prop} (guards : ∀ s t, Sim s t → guard' t = guard s)
    (passes : ∀ s t u, Sim s t → body s = .ok u → ∃ v, body' t = .ok v ∧ Sim u v) {fuel : Nat}
    {s r : State} {t : State'} (start : Sim s t) (run : iterate guard body fuel s = some (.ok r)) :
    ∃ q, iterate guard' body' fuel t = some (.ok q) ∧ Sim r q := by
  induction fuel generalizing s t with
  | zero => simp [iterate] at run
  | succ fuel ih =>
    have same := guards s t start
    cases more : guard s with
    | false =>
      rw [iterate_done more] at run
      cases run
      exact ⟨t, iterate_done (same.trans more) fuel, start⟩
    | true =>
      cases pass : body s with
      | error e => simp [iterate_exit more pass] at run
      | ok u =>
        obtain ⟨v, matched, later⟩ := passes s t u start pass
        rw [iterate_pass ⟨more, pass⟩] at run
        rw [iterate_pass ⟨same.trans more, matched⟩]
        exact ih later run

theorem iterate_of_reaches {s t : State} (reach : Reaches guard body s t) :
    ∃ passes, ∀ fuel, iterate guard body (passes + fuel) s = iterate guard body fuel t := by
  induction reach using Relation.ReflTransGen.head_induction_on with
  | refl => exact ⟨0, fun fuel => by rw [Nat.zero_add]⟩
  | head pass _ ih =>
    obtain ⟨passes, same⟩ := ih
    refine ⟨passes + 1, fun fuel => ?_⟩
    rw [Nat.add_right_comm, iterate_pass pass, same]

theorem iterate_endless {Inv : State → Prop} (keep : ∀ s, Inv s → ∃ t, Pass guard body s t ∧ Inv t)
    {s : State} (start : Inv s) (fuel : Nat) : iterate guard body fuel s = none := by
  induction fuel generalizing s with
  | zero => rfl
  | succ fuel ih =>
    obtain ⟨t, pass, later⟩ := keep s start
    rw [iterate_pass pass, ih later]

theorem iterate_stuck {s : State} (pass : Pass guard body s s) (fuel : Nat) :
    iterate guard body fuel s = none := by
  have keep : ∀ t, t = s → ∃ u, Pass guard body t u ∧ u = s := fun _ same => ⟨s, same ▸ pass, rfl⟩
  exact iterate_endless keep rfl fuel

theorem iterate_exit_of_reaches {s t : State} {e : Exit} {fuel : Nat} {r : Except Exit State}
    (reach : Reaches guard body s t) (more : guard t = true) (leave : body t = .error e)
    (run : iterate guard body fuel s = some r) : r = .error e := by
  obtain ⟨passes, same⟩ := iterate_of_reaches reach
  have ends := (same 1).trans (iterate_exit more leave 0)
  have whole := iterate_mono run (Nat.le_max_left fuel (passes + 1))
  have exits := iterate_mono ends (Nat.le_max_right fuel (passes + 1))
  exact Option.some.inj (whole.symm.trans exits)

def turns (guard : State → Bool) (body : State → Except Exit State) : Nat → State → List State
  | 0, _ => []
  | fuel + 1, s =>
    if guard s then
      s :: match body s with
        | .ok t => turns guard body fuel t
        | .error _ => []
    else []

theorem reaches_of_turns {fuel : Nat} {s t : State} (listed : t ∈ turns guard body fuel s) :
    Reaches guard body s t ∧ guard t = true := by
  induction fuel generalizing s with
  | zero => cases listed
  | succ fuel ih =>
    unfold turns at listed
    split at listed
    · rename_i more
      rcases List.mem_cons.mp listed with rfl | later
      · exact ⟨.refl, more⟩
      · split at later
        · rename_i u pass
          obtain ⟨reach, inside⟩ := ih later
          exact ⟨.head ⟨more, pass⟩ reach, inside⟩
        · cases later
    · cases listed

/-- The list is complete once the loop comes to its end. -/
theorem turns_of_reaches {fuel : Nat} {s t : State} {r : Except Exit State}
    (run : iterate guard body fuel s = some r) (reach : Reaches guard body s t)
    (inside : guard t = true) : t ∈ turns guard body fuel s := by
  induction fuel generalizing s with
  | zero => cases run
  | succ fuel ih =>
    rcases Relation.ReflTransGen.cases_head reach with rfl | ⟨u, pass, later⟩
    · simp [turns, inside]
    · rw [iterate_pass pass] at run
      simp [turns, pass.1, pass.2, ih run later]

end WhileLoop
