import ChatFabric.DecodeRuns

/- The iterations of a call as a list that can be computed. Once the call comes to its end the
   list holds every iteration there is, with whatever fuel, so a property of all of them is
   checked by running the decoder. -/
namespace DecodeTrace
open ByteStrings WhileLoop ChatFabric

variable {env : DecodeEnv}

def inSection (env : DecodeEnv) (nested : ChatPacket → Nat → Bytes → List Iteration)
    (x : Iteration) : List Iteration :=
  match x.opened env with
  | some (.ok (.section t decrypted)) => nested t.cp t.allocs decrypted
  | _ => []

def visited (env : DecodeEnv) : Nat → ChatPacket → Nat → Bytes → List Iteration
  | 0, _, _, _ => []
  | fuel + 1, cp, allocs, b =>
    (turns (decodeGuard b.length) (decodeBody env (chatPacketDecode env fuel) b) fuel
        (.start cp allocs)).flatMap fun s =>
      ⟨b, b.length, s⟩ :: inSection env (visited env fuel) ⟨b, b.length, s⟩

theorem visits_of_visited {fuel allocs : Nat} {cp : ChatPacket} {b : Bytes} {x : Iteration}
    (listed : x ∈ visited env fuel cp allocs b) : Visits env fuel cp allocs b b.length x := by
  induction fuel generalizing cp allocs b with
  | zero => cases listed
  | succ fuel ih =>
    obtain ⟨s, turn, listed⟩ := List.mem_flatMap.mp listed
    obtain ⟨reach, inside⟩ := reaches_of_turns turn
    have more : s.i < b.length := by simpa [decodeGuard] using inside
    rcases List.mem_cons.mp listed with rfl | nested
    · exact .here reach more
    · unfold inSection at nested
      split at nested
      · rename_i t decrypted enter
        exact .inside reach more enter (ih nested)
      · cases nested

theorem decodeBody_unique {fuel more : Nat} {b : Bytes} {s t : Decoding}
    (pass : decodeBody env (chatPacketDecode env fuel) b s = .ok t)
    (ends : decodeBody env (chatPacketDecode env more) b s ≠ .error .endless) :
    decodeBody env (chatPacketDecode env more) b s = .ok t := by
  rcases Nat.le_total fuel more with le | le
  · rw [decodeBody_agree (chatPacketDecode_mono le) (by simp [pass]), pass]
  · rw [← decodeBody_agree (chatPacketDecode_mono le) ends, pass]

theorem opened_endless {again : DecodeCall} {x : Iteration} {t : Decoding} {decrypted : Bytes}
    (enter : x.opened env = some (.ok (.section t decrypted)))
    (stuck : again t.cp t.allocs decrypted decrypted.length = .endless) :
    decodeBody env again x.b x.s = .error .endless := by
  obtain ⟨after, kind, body⟩ := body_of_section enter again
  rw [body, stuck]
  rcases kind with rfl | rfl <;> rfl

section
variable {depth allocs : Nat} {cp : ChatPacket} {b : Bytes}

theorem loop_of_ends (ends : chatPacketDecode env (depth + 1) cp allocs b b.length ≠ .endless) :
    ∃ r, iterate (decodeGuard b.length) (decodeBody env (chatPacketDecode env depth) b) depth
      (.start cp allocs) = some r ∧ r ≠ .error .endless := by
  rw [chatPacketDecode] at ends
  cases run : iterate (decodeGuard b.length) (decodeBody env (chatPacketDecode env depth) b) depth
      (.start cp allocs) with
  | none => exact absurd (by rw [run]; rfl) ends
  | some r =>
    refine ⟨r, rfl, ?_⟩
    rintro rfl
    exact ends (by rw [run]; rfl)

theorem body_ends (ends : chatPacketDecode env (depth + 1) cp allocs b b.length ≠ .endless)
    {s : Decoding} (reach : Reaches (decodeGuard b.length)
      (decodeBody env (chatPacketDecode env depth) b) (.start cp allocs) s)
    (inside : decodeGuard b.length s = true) :
    decodeBody env (chatPacketDecode env depth) b s ≠ .error .endless := by
  intro stuck
  obtain ⟨r, run, result⟩ := loop_of_ends ends
  exact result (iterate_exit_of_reaches reach inside stuck run)

theorem reaches_unique (ends : chatPacketDecode env (depth + 1) cp allocs b b.length ≠ .endless)
    {fuel : Nat} {s : Decoding} (reach : Reaches (decodeGuard b.length)
      (decodeBody env (chatPacketDecode env fuel) b) (.start cp allocs) s) :
    Reaches (decodeGuard b.length) (decodeBody env (chatPacketDecode env depth) b)
      (.start cp allocs) s := by
  induction reach with
  | refl => exact .refl
  | tail _ pass ih =>
    exact .tail ih ⟨pass.1, decodeBody_unique pass.2 (body_ends ends ih pass.1)⟩

end

/-- The iterations with whatever fuel are those listed, by induction on the levels. -/
theorem visited_of_visits {fuel depth allocs : Nat} {cp : ChatPacket} {b : Bytes} {x : Iteration}
    (ends : chatPacketDecode env depth cp allocs b b.length ≠ .endless)
    (visit : Visits env fuel cp allocs b b.length x) : x ∈ visited env depth cp allocs b := by
  generalize whole : b.length = len at visit
  induction visit generalizing depth with
  | @here fuel allocs len cp b s reach more =>
    subst whole
    cases depth with
    | zero => exact absurd rfl ends
    | succ depth =>
      have inside : decodeGuard b.length s = true := by simpa [decodeGuard] using more
      obtain ⟨r, run, _⟩ := loop_of_ends ends
      have turn := turns_of_reaches run (reaches_unique ends reach) inside
      exact List.mem_flatMap.mpr ⟨s, turn, List.mem_cons_self⟩
  | @inside fuel allocs len cp b decrypted s t x reach more enter visit ih =>
    subst whole
    cases depth with
    | zero => exact absurd rfl ends
    | succ depth =>
      have inside : decodeGuard b.length s = true := by simpa [decodeGuard] using more
      obtain ⟨r, run, _⟩ := loop_of_ends ends
      have here := reaches_unique ends reach
      have nested : chatPacketDecode env depth t.cp t.allocs decrypted decrypted.length ≠ .endless :=
        fun stuck => body_ends ends here inside (opened_endless enter stuck)
      refine List.mem_flatMap.mpr ⟨s, turns_of_reaches run here inside, List.mem_cons_of_mem _ ?_⟩
      simpa only [inSection, enter] using ih nested rfl

end DecodeTrace
