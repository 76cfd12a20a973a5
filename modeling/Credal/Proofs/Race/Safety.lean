import Credal.Proofs.Race.Invariant
import Credal.Solver.Session

/-!
# Safety of a race

Whatever happens around the runner and whenever it happens, the runner asks the work to stop only
after a cancellation, leaves it behind only after the grace, and takes finished work over everything
else.

* `Finish.delivered`, `Race.delivered?`: what a race gives to the one who asked for it;
* `Race.Won`: once the runner has found the work finished, no other end is possible;
* `Race.over_of_acknowledged`, `Race.leaves_of_unanswered`: the ends after the last look;
* `Race.Safe`: what is known of a play;
* `races_are_safe`: all plays, and with them the races of sessions.
-/

namespace Credal

variable {ρ σ ε α : Type}

/-! ## 1. What a race gives -/

namespace Finish

/-- The end with the result of the work mapped. -/
def map (f : ρ → σ) : Finish ρ → Finish σ
  | .completed result aborted => .completed (f result) aborted
  | .cancelled => .cancelled
  | .abandoned => .abandoned

/-- What an end gives to the one who asked for the race: work that failed fails there too. -/
def delivered : Finish (Except ε α) → Except ε (Finish α)
  | .completed result aborted => result.map (.completed · aborted)
  | .cancelled => .ok .cancelled
  | .abandoned => .ok .abandoned

theorem delivered_eq_ok_iff {f : Finish (Except ε α)} {g : Finish α} :
    f.delivered = .ok g ↔ f = g.map .ok := by
  constructor
  · intro h
    rcases f with ⟨_ | value, aborted⟩ | _ | _
    · exact nomatch h
    all_goals
      obtain rfl := Except.ok.inj h
      rfl
  · rintro rfl
    cases g <;> rfl

end Finish

namespace Race

/-- What a race gives once it is over. -/
def delivered? (r : Race (Except ε α)) : Option (Except ε (Finish α)) :=
  match r.phase with
  | .over f => some f.delivered
  | _ => none

theorem delivered?_eq_some_iff {r : Race (Except ε α)} {d : Except ε (Finish α)} :
    r.delivered? = some d ↔ ∃ f, r.phase = .over f ∧ f.delivered = d := by
  constructor
  · intro h
    unfold delivered? at h
    split at h
    · next f hphase => exact ⟨f, hphase, Option.some.inj h⟩
    · exact nomatch h
  · rintro ⟨f, hphase, rfl⟩
    rw [delivered?, hphase]

theorem delivered?_eq_ok_iff {r : Race (Except ε α)} {g : Finish α} :
    r.delivered? = some (.ok g) ↔ r.phase = .over (g.map .ok) := by
  simp only [delivered?_eq_some_iff, Finish.delivered_eq_ok_iff, exists_eq_right]

/-! ## 2. Finished work wins -/

section

variable {r : Race ρ}

/-- The runner has found the work finished and calls nothing more. -/
def Won (result : ρ) (calls : List Call) (r : Race ρ) : Prop :=
  r.calls = calls ∧
    (r.phase = .completing result ∨ ∃ aborted, r.phase = .over (.completed result aborted))

theorem step_of_over {f : Finish ρ} (h : r.phase = .over f) : r.step = none := by
  simp only [step, h]

theorem step_of_completing {result : ρ} (h : r.phase = .completing result) :
    r.step = some { r with phase := .over (.completed result r.world.cancelled) } := by
  simp only [step, h]

/-- **A look at finished work wins the race**, after a cancellation too, and whether or not there is
    an acknowledgement. -/
theorem won_of_finished {result : ρ} (hphase : r.phase = .deciding ∨ r.phase = .judging)
    (hresult : r.world.finished = some result) : Won result r.calls (r.move .step) := by
  rcases hphase with hphase | hphase
  · have hstep : r.step = some { r with phase := .completing result } := by
      simp only [step, hphase, hresult]
    rw [move, hstep]
    exact ⟨rfl, Or.inl rfl⟩
  · have hstep : r.step = some { r with phase := .over (.completed result true) } := by
      simp only [step, hphase, hresult]
    rw [move, hstep]
    exact ⟨rfl, Or.inr ⟨true, rfl⟩⟩

variable {result : ρ} {calls : List Call}

/-- One more step ends the race. -/
theorem Won.move_step (h : Won result calls r) : (r.move .step).calls = calls ∧
    ∃ aborted, (r.move .step).phase = .over (.completed result aborted) := by
  obtain ⟨hcalls, hphase | ⟨aborted, hphase⟩⟩ := h
  · rw [move, step_of_completing hphase]
    exact ⟨hcalls, _, rfl⟩
  · rw [move, step_of_over hphase]
    exact ⟨hcalls, aborted, hphase⟩

/-- **No move takes the win away.** -/
theorem Won.move (h : Won result calls r) (m : Move ρ) : Won result calls (r.move m) := by
  cases m with
  | step => exact h.move_step.imp_right Or.inr
  | event e => exact h

theorem Won.play (h : Won result calls r) (moves : List (Move ρ)) :
    Won result calls (r.play moves) :=
  play_of_move (fun _ m h => h.move m) h moves

theorem move_of_over {f : Finish ρ} (h : r.phase = .over f) (m : Move ρ) :
    (r.move m).phase = .over f := by
  cases m with
  | step =>
    rw [Race.move, step_of_over h]
    exact h
  | event e => exact h

/-- A race that is won ends with the result when the runner has taken one more step. -/
theorem Won.over (h : Won result calls r) {moves : List (Move ρ)} (hmoves : .step ∈ moves) :
    ∃ aborted, (r.play moves).phase = .over (.completed result aborted) := by
  obtain ⟨before, after, rfl⟩ := List.append_of_mem hmoves
  rw [play_append]
  obtain ⟨-, aborted, hphase⟩ := (h.play before).move_step
  exact ⟨aborted, play_of_move (p := fun r' => r'.phase = .over (.completed result aborted))
    (fun _ m h => move_of_over h m) hphase after⟩

end

/-! ## 3. The last look -/

section

variable {start r : Race ρ} {moves : List (Move ρ)}

/-- **An acknowledgement that the runner finds ends the race.** -/
theorem over_of_acknowledged (h : Once start.Acknowledged moves) :
    (start.play moves).phase = .over .cancelled := by
  obtain ⟨before, after, rfl, hphase, hanswered⟩ := h
  rw [play_append]
  have hstep : (start.play before).step =
      some { start.play before with phase := .over .cancelled } := by
    simp only [step, hphase, hanswered, if_true]
  have hover : ((start.play before).move .step).phase = .over .cancelled := by
    rw [move, hstep, Option.getD_some]
  exact play_of_move (p := fun r' => r'.phase = .over .cancelled)
    (fun _ m h => move_of_over h m) hover after

/-- The runner leaves the work behind. -/
def Leaves (r : Race ρ) : Prop := r.phase = .abandoning ∨ r.phase = .over .abandoned

theorem Leaves.move (h : r.Leaves) (m : Move ρ) : (r.move m).Leaves := by
  rcases h with hphase | hphase
  · cases m with
    | step =>
      have hstep : r.step =
          some { r with phase := .over .abandoned, calls := r.calls ++ [.abandon] } := by
        simp only [step, hphase]
      rw [Race.move, hstep]
      exact Or.inr rfl
    | event e => exact Or.inl hphase
  · exact Or.inr (move_of_over hphase m)

/-- **Without one the runner leaves the work behind**, even if the work finishes at last. -/
theorem leaves_of_unanswered (h : Once start.Unanswered moves) : (start.play moves).Leaves := by
  obtain ⟨before, after, rfl, hphase, hanswered, -⟩ := h
  rw [play_append]
  have hstep : (start.play before).step =
      some { start.play before with phase := .abandoning } := by
    simp only [step, hphase, hanswered, Bool.false_eq_true, if_false]
  have hleaves : ((start.play before).move .step).Leaves := by
    rw [move, hstep]
    exact Or.inl rfl
  exact play_of_move (fun _ m h => h.move m) hleaves after

end

/-! ## 4. Safety -/

/-- What is known of a play. -/
structure Safe (start : Race (Except ε α)) (moves : List (Move (Except ε α))) : Prop where
  /-- Each call is made once at most, and the work is asked to stop before it is left behind. -/
  calls : (start.play moves).calls <+: [.stop, .abandon]
  /-- The work is asked to stop after a cancellation, when it has been seen unfinished. -/
  stop : .stop ∈ (start.play moves).calls → Once start.SeenUnfinished moves
  /-- It is left behind exactly if the race says so. -/
  abandon : .abandon ∈ (start.play moves).calls ↔
    (start.play moves).delivered? = some (.ok .abandoned)
  /-- The grace has then ended, and after it neither the work nor an acknowledgement was there; a
      runner that has seen this does nothing else. -/
  abandoned : (start.play moves).delivered? = some (.ok .abandoned) ∨
    (start.play moves).phase = .abandoning ↔ Once start.Unanswered moves
  /-- If the work is finished at a look of the runner, the race gives its result or its fault and
      nothing else, after one more step at the latest and without a further call. -/
  won : ∀ before after result, moves = before ++ .step :: after →
    (start.play before).phase = .deciding ∨ (start.play before).phase = .judging →
    (start.play before).world.finished = some result →
    (start.play moves).calls = (start.play before).calls ∧
    (.step ∈ after → (start.play moves).delivered?.isSome = true) ∧
    ∀ d, (start.play moves).delivered? = some d → ∃ aborted, d = result.map (.completed · aborted)
  /-- What a race gives as the result of the work is that, and the token was cancelled if the race
      says so. -/
  completed : ∀ result aborted, (start.play moves).phase = .over (.completed result aborted) →
    (start.play moves).world.finished = some result ∧
    (aborted = true → (start.play moves).world.cancelled = true) ∧
    (aborted = false → (start.play moves).calls = [])
  /-- The race says that the work stopped exactly if an acknowledgement was offered and the runner
      found it. -/
  cancelled : (start.play moves).delivered? = some (.ok .cancelled) ↔
    start.offers = true ∧ Once start.Acknowledged moves
  /-- Without an acknowledgement work finishes or is left behind. -/
  unoffered : start.offers = false → ∀ f, (start.play moves).delivered? = some (.ok f) →
    (∃ value aborted, f = .completed value aborted) ∨ f = .abandoned
  /-- The runner gives up only if the grace is too long to be waited for. -/
  failed : (start.play moves).phase = .failed → start.waits = false

section

variable {start : Race (Except ε α)} {moves : List (Move (Except ε α))}

/-- What the runner found was offered. -/
theorem Once.offers (h : Once start.Acknowledged moves) : start.offers = true := by
  obtain ⟨before, -, -, -, hanswered⟩ := h
  rw [← (start.terms_play before).1]
  exact (Bool.and_eq_true_iff.1 hanswered).1

theorem Known.calls_prefix (h : Known start moves (start.play moves) (start.play moves).phase) :
    (start.play moves).calls <+: [.stop, .abandon] := by
  rcases h.calls_cases with ⟨hcalls, -⟩ | ⟨hcalls, -⟩ | ⟨hcalls, -⟩
  · rw [hcalls]
    exact List.nil_prefix
  · rw [hcalls]
    exact ⟨[.abandon], rfl⟩
  · exact hcalls ▸ List.prefix_rfl

theorem Known.safe (h : Known start moves (start.play moves) (start.play moves).phase) :
    Safe start moves where
  calls := h.calls_prefix
  stop hstop := by
    rcases h.calls_cases with ⟨hcalls, -⟩ | ⟨-, -, honce⟩ | ⟨-, -, honce, -⟩
    · rw [hcalls] at hstop
      exact nomatch hstop
    · exact honce
    · exact honce
  abandon := by
    rw [delivered?_eq_ok_iff]
    constructor
    · intro habandon
      rcases h.calls_cases with ⟨hcalls, -⟩ | ⟨hcalls, -⟩ | ⟨-, hphase, -⟩
      · rw [hcalls] at habandon
        exact nomatch habandon
      · rw [hcalls] at habandon
        exact absurd habandon (by decide)
      · exact hphase
    · intro hphase
      rw [hphase] at h
      rw [h.1]
      decide
  abandoned := by
    rw [delivered?_eq_ok_iff]
    constructor
    · rintro (hphase | hphase)
      · rw [hphase] at h
        exact h.2.2
      · rw [hphase] at h
        exact h.2
    · intro honce
      exact (leaves_of_unanswered honce).symm
  won before after result hmoves hphase hresult := by
    have hplay : start.play moves = ((start.play before).move .step).play after := by
      rw [hmoves, play_append]
      rfl
    have hwon := won_of_finished hphase hresult
    rw [hplay]
    refine ⟨(hwon.play after).1, fun hafter => ?_, fun d hd => ?_⟩
    · obtain ⟨aborted, hover⟩ := hwon.over hafter
      rw [delivered?_eq_some_iff.2 ⟨_, hover, rfl⟩]
      rfl
    · obtain ⟨f, hover, rfl⟩ := delivered?_eq_some_iff.1 hd
      rcases (hwon.play after).2 with hcompleting | ⟨aborted, hcompleted⟩
      · exact nomatch hover.symm.trans hcompleting
      · obtain rfl := Phase.over.inj (hover.symm.trans hcompleted)
        exact ⟨aborted, rfl⟩
  completed result aborted hphase := by
    rw [hphase] at h
    refine ⟨h.1, fun haborted => ?_, fun haborted => ?_⟩
    · rcases h.2 with ⟨-, hcancelled⟩ | ⟨hasked, -⟩
      · exact hcancelled haborted
      · exact hasked.cancelled
    · rcases h.2 with ⟨hcalls, -⟩ | ⟨-, htrue⟩
      · exact hcalls
      · exact nomatch haborted.symm.trans htrue
  cancelled := by
    rw [delivered?_eq_ok_iff]
    constructor
    · intro hphase
      rw [hphase] at h
      exact ⟨h.2.offers, h.2⟩
    · rintro ⟨-, honce⟩
      exact over_of_acknowledged honce
  unoffered hoffers f hdelivered := by
    cases f with
    | completed value aborted => exact Or.inl ⟨value, aborted, rfl⟩
    | cancelled =>
      rw [delivered?_eq_ok_iff.1 hdelivered] at h
      exact nomatch hoffers.symm.trans h.2.offers
    | abandoned => exact Or.inr rfl
  failed hphase := by
    rw [hphase] at h
    rw [← (start.terms_play moves).2]
    exact h.2

end

end Race

/-- The race of a session is a play in which no acknowledgement is offered. -/
theorem Session.exists_play_race (s : Session) (cancelled : Bool) (seconds : Number.Amount)
    (later : List (Event Solved)) : ∃ moves,
    (s.race cancelled seconds later).1 = Race.play { waits := canWait seconds } moves :=
  Race.exists_play_run _ _ later

/-- **Races are safe.** In whatever order the runner takes its steps and things happen around it,
    also while it asks the work to stop, a play is safe. The race of a session is such a play, and
    as no acknowledgement is offered in it, it ends with finished work or with work that is left
    behind; the session takes a new context exactly in the second case. -/
theorem races_are_safe :
    (∀ (offers waits : Bool) (brings : List (Event (Except ε α)))
      (moves : List (Move (Except ε α))), Race.Safe { offers, waits, brings } moves) ∧
    ∀ (s : Session) (cancelled : Bool) (seconds : Number.Amount) (later : List (Event Solved)),
      let (r, s') := s.race cancelled seconds later
      (∃ moves, r = Race.play { waits := canWait seconds } moves) ∧
      (∀ f, r.delivered? = some (.ok f) →
        (∃ value aborted, f = .completed value aborted) ∨ f = .abandoned) ∧
      (r.delivered? = some (.ok .abandoned) → s' = s.reset) ∧
      (r.delivered? ≠ some (.ok .abandoned) → s' = s) := by
  refine ⟨fun offers waits brings moves => (Race.known_play rfl rfl moves).safe,
    fun s cancelled seconds later => ?_⟩
  obtain ⟨moves, hmoves⟩ := s.exists_play_race cancelled seconds later
  have hsafe : Race.Safe { waits := canWait seconds } moves := (Race.known_play rfl rfl moves).safe
  have habandon := hsafe.abandon
  have hunoffered := hsafe.unoffered rfl
  rw [← hmoves] at habandon hunoffered
  refine ⟨⟨moves, hmoves⟩, hunoffered, fun h => ?_, fun h => ?_⟩
  · exact if_pos (List.contains_iff_mem.2 (habandon.2 h))
  · exact if_neg fun hcalls => h (habandon.1 (List.contains_iff_mem.1 hcalls))

/-- A token is cancelled twice, the work finishes only after the runner has looked for it a second
    time, and the grace ends: the work is left behind. -/
theorem races_are_safe_of_late_finish :
    let moves : List (Move (Except String Nat)) := [.event .cancel, .step, .step, .step,
      .event .elapse, .step, .step, .event (.finish (.ok 1)), .step, .step]
    let r := Race.play { offers := true, brings := [.cancel] } moves
    r.calls = [.stop, .abandon] ∧ r.delivered? = some (.ok .abandoned) := by
  intro moves r
  have hsafe : Race.Safe { offers := true, brings := [.cancel] } moves :=
    races_are_safe.1 true true [.cancel] moves
  have hcalls : r.calls = [.stop, .abandon] := by decide
  have habandon : .abandon ∈ r.calls := by
    rw [hcalls]
    decide
  exact ⟨hcalls, hsafe.abandon.1 habandon⟩

end Credal
