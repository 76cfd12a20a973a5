import Credal.Race
import Mathlib.Data.List.Basic

/-!
# Moves of a race

A race is played by the runner and by what happens around it, in any order: between two steps of the
runner, and also between the end of a wait and the look that follows it, there may be any events.

* `Move`, `Race.move`, `Race.play`: a step of the runner or an event, and a whole play;
* `Race.play_of_move`: what every move keeps;
* `World.Grows`: what has happened stays so;
* `Race.Advances`, `Race.advances_of_step`: all that a step of the runner can do;
* `Race.exists_play_run`: the race in which the runner settles after each event is one of the plays.
-/

namespace Credal

variable {ρ : Type}

/-- A step of the runner, or an event around it. -/
inductive Move (ρ : Type) where
  | step
  | event (e : Event ρ)
  deriving DecidableEq, Repr

namespace Race

/-- The race after a move. A runner that has no step stays where it is. -/
def move (r : Race ρ) : Move ρ → Race ρ
  | .step => r.step.getD r
  | .event e => r.observe e

/-- The race after moves. -/
def play (r : Race ρ) (moves : List (Move ρ)) : Race ρ := moves.foldl move r

theorem play_append (r : Race ρ) (moves later : List (Move ρ)) :
    r.play (moves ++ later) = (r.play moves).play later :=
  List.foldl_append

theorem play_concat (r : Race ρ) (moves : List (Move ρ)) (m : Move ρ) :
    r.play (moves ++ [m]) = (r.play moves).move m :=
  r.play_append moves [m]

/-- **What every move keeps, every play keeps.** -/
theorem play_of_move {p : Race ρ → Prop} (h : ∀ r m, p r → p (r.move m)) {r : Race ρ} (hr : p r)
    (moves : List (Move ρ)) : p (r.play moves) := by
  induction moves generalizing r with
  | nil => exact hr
  | cons m moves ih => exact ih (h r m hr)

end Race

/-! ## 1. The world -/

/-- What has happened in one world has happened in another. Whether the grace has ended is left
    out, as it starts when the runner has asked the work to stop. -/
structure World.Grows (w w' : World ρ) : Prop where
  finished : ∀ result, w.finished = some result → w'.finished = some result
  cancelled : w.cancelled = true → w'.cancelled = true
  acknowledged : w.acknowledged = true → w'.acknowledged = true

namespace World

variable {w w' w'' : World ρ}

theorem Grows.refl (w : World ρ) : w.Grows w := ⟨fun _ h => h, fun h => h, fun h => h⟩

theorem Grows.trans (h : w.Grows w') (h' : w'.Grows w'') : w.Grows w'' where
  finished result hr := h'.finished result (h.finished result hr)
  cancelled hc := h'.cancelled (h.cancelled hc)
  acknowledged ha := h'.acknowledged (h.acknowledged ha)

theorem Grows.isSome (h : w.Grows w') (hw : w.finished.isSome = true) :
    w'.finished.isSome = true := by
  obtain ⟨result, hresult⟩ := Option.isSome_iff_exists.1 hw
  exact Option.isSome_iff_exists.2 ⟨result, h.finished result hresult⟩

/-- **Nothing that has happened comes undone**, and work does not finish twice. -/
theorem grows_after (w : World ρ) (e : Event ρ) : w.Grows (w.after e) := by
  cases e with
  | finish r =>
    refine ⟨fun result h => ?_, fun h => h, fun h => h⟩
    show some (w.finished.getD r) = some result
    rw [h, Option.getD_some]
  | cancel => exact ⟨fun _ h => h, fun _ => rfl, fun h => h⟩
  | acknowledge => exact ⟨fun _ h => h, fun h => h, fun _ => rfl⟩
  | elapse => exact ⟨fun _ h => h, fun h => h, fun h => h⟩

theorem grows_foldl_after (w : World ρ) (es : List (Event ρ)) :
    w.Grows (es.foldl World.after w) := by
  induction es generalizing w with
  | nil => exact .refl w
  | cons e es ih => exact (w.grows_after e).trans (ih (w.after e))

end World

/-! ## 2. Steps of the runner -/

namespace Race

/-- All that a step of the runner can do. -/
inductive Advances (r : Race ρ) : Race ρ → Prop where
  /-- The first wait is over. -/
  | wake (hphase : r.phase = .waiting)
      (h : r.world.finished.isSome = true ∨ r.world.cancelled = true) :
      Advances r { r with phase := .deciding }
  | findDone {result : ρ} (hphase : r.phase = .deciding) (h : r.world.finished = some result) :
      Advances r { r with phase := .completing result }
  | findUndone (hphase : r.phase = .deciding) (h : r.world.finished = none) :
      Advances r { r with phase := .stopping }
  | complete {result : ρ} (hphase : r.phase = .completing result) :
      Advances r { r with phase := .over (.completed result r.world.cancelled) }
  | stop (hphase : r.phase = .stopping) :
      Advances r { r with
        world := { r.brings.foldl World.after r.world with elapsed := false }
        phase := .lingering
        calls := r.calls ++ [.stop] }
  /-- The second wait is over. -/
  | rouse (hphase : r.phase = .lingering)
      (h : r.world.finished.isSome = true ∨ r.answered = true ∨ r.world.elapsed = true) :
      Advances r { r with phase := .judging }
  /-- The second wait would be too long. -/
  | fail (hphase : r.phase = .lingering) (h : r.waits = false) :
      Advances r { r with phase := .failed }
  | judgeDone {result : ρ} (hphase : r.phase = .judging) (h : r.world.finished = some result) :
      Advances r { r with phase := .over (.completed result true) }
  | judgeUndone (hphase : r.phase = .judging) (h : r.world.finished = none) :
      Advances r { r with phase := .asking }
  | accept (hphase : r.phase = .asking) (h : r.answered = true) :
      Advances r { r with phase := .over .cancelled }
  | reject (hphase : r.phase = .asking) (h : r.answered = false) :
      Advances r { r with phase := .abandoning }
  | abandon (hphase : r.phase = .abandoning) :
      Advances r { r with phase := .over .abandoned, calls := r.calls ++ [.abandon] }

/-- **A step of the runner does nothing else.** -/
theorem advances_of_step {r r' : Race ρ} (h : r.step = some r') : r.Advances r' := by
  unfold step at h
  cases hphase : r.phase with
  | waiting =>
    simp only [hphase] at h
    split at h
    · next hw =>
      obtain rfl := Option.some.inj h
      exact .wake hphase (Bool.or_eq_true_iff.1 hw)
    · exact nomatch h
  | deciding =>
    simp only [hphase] at h
    cases hresult : r.world.finished with
    | some result =>
      rw [hresult] at h
      obtain rfl := Option.some.inj h
      exact .findDone hphase hresult
    | none =>
      rw [hresult] at h
      obtain rfl := Option.some.inj h
      exact .findUndone hphase hresult
  | completing result =>
    simp only [hphase] at h
    obtain rfl := Option.some.inj h
    exact .complete hphase
  | stopping =>
    simp only [hphase] at h
    obtain rfl := Option.some.inj h
    exact .stop hphase
  | lingering =>
    simp only [hphase] at h
    split at h
    · next hw =>
      obtain rfl := Option.some.inj h
      rw [Bool.or_eq_true_iff, Bool.or_eq_true_iff, or_assoc] at hw
      exact .rouse hphase hw
    · split at h
      · exact nomatch h
      · next hwaits =>
        obtain rfl := Option.some.inj h
        exact .fail hphase (Bool.not_eq_true _ ▸ hwaits)
  | judging =>
    simp only [hphase] at h
    cases hresult : r.world.finished with
    | some result =>
      rw [hresult] at h
      obtain rfl := Option.some.inj h
      exact .judgeDone hphase hresult
    | none =>
      rw [hresult] at h
      obtain rfl := Option.some.inj h
      exact .judgeUndone hphase hresult
  | asking =>
    simp only [hphase] at h
    split at h
    · next hanswered =>
      obtain rfl := Option.some.inj h
      exact .accept hphase hanswered
    · next hanswered =>
      obtain rfl := Option.some.inj h
      exact .reject hphase (Bool.not_eq_true _ ▸ hanswered)
  | abandoning =>
    simp only [hphase] at h
    obtain rfl := Option.some.inj h
    exact .abandon hphase
  | «over» f =>
    simp only [hphase] at h
    exact nomatch h
  | failed =>
    simp only [hphase] at h
    exact nomatch h

/-- The runner advances, or it has no step and stays where it is. -/
theorem move_step_cases (r : Race ρ) :
    r.Advances (r.move .step) ∨ r.step = none ∧ r.move .step = r := by
  unfold move
  cases h : r.step with
  | none => exact Or.inr ⟨rfl, rfl⟩
  | some r' => exact Or.inl (advances_of_step h)

variable {r r' : Race ρ}

theorem Advances.grows (h : r.Advances r') : r.world.Grows r'.world := by
  cases h with
  | stop =>
    have h := World.grows_foldl_after r.world r.brings
    exact ⟨h.finished, h.cancelled, h.acknowledged⟩
  | wake | findDone | findUndone | complete | rouse | fail | judgeDone | judgeUndone | accept
  | reject | abandon => exact .refl _

/-- The terms of a race stay as they are. -/
theorem Advances.terms_eq (h : r.Advances r') : r'.offers = r.offers ∧ r'.waits = r.waits := by
  cases h <;> exact ⟨rfl, rfl⟩

theorem terms_move (r : Race ρ) (m : Move ρ) :
    (r.move m).offers = r.offers ∧ (r.move m).waits = r.waits := by
  cases m with
  | step =>
    rcases r.move_step_cases with h | ⟨-, h⟩
    · exact h.terms_eq
    · exact ⟨congrArg offers h, congrArg waits h⟩
  | event e => exact ⟨rfl, rfl⟩

theorem terms_play (r : Race ρ) (moves : List (Move ρ)) :
    (r.play moves).offers = r.offers ∧ (r.play moves).waits = r.waits :=
  play_of_move (p := fun r' => r'.offers = r.offers ∧ r'.waits = r.waits)
    (fun r' m h => ⟨(r'.terms_move m).1.trans h.1, (r'.terms_move m).2.trans h.2⟩) ⟨rfl, rfl⟩ moves

/-! ## 3. Runners that settle -/

theorem exists_play_settle (r : Race ρ) : ∃ moves, r.settle = r.play moves := by
  induction r using settle.induct with
  | case1 r r' h ih =>
    obtain ⟨moves, hmoves⟩ := ih
    have hstep : r.move .step = r' := by rw [move, h, Option.getD_some]
    refine ⟨.step :: moves, ?_⟩
    rw [settle, h]
    show r'.settle = (r.move .step).play moves
    rw [hstep, hmoves]
  | case2 r h =>
    refine ⟨[], ?_⟩
    rw [settle, h]
    rfl

theorem exists_play_settle_observe (r : Race ρ) (e : Event ρ) :
    ∃ moves, (r.observe e).settle = r.play moves := by
  obtain ⟨moves, hmoves⟩ := (r.observe e).exists_play_settle
  exact ⟨.event e :: moves, hmoves⟩

/-- **A runner that settles after each event plays one of the plays.** -/
theorem exists_play_run (r : Race ρ) (before later : List (Event ρ)) :
    ∃ moves, r.run before later = r.play moves := by
  have hlater : ∀ r' : Race ρ, ∃ moves,
      later.foldl (fun r e => (r.observe e).settle) r' = r'.play moves := by
    induction later with
    | nil => exact fun r' => ⟨[], rfl⟩
    | cons e later ih =>
      intro r'
      obtain ⟨first, hfirst⟩ := r'.exists_play_settle_observe e
      obtain ⟨rest, hrest⟩ := ih (r'.play first)
      exact ⟨first ++ rest, by rw [List.foldl_cons, hfirst, hrest, play_append]⟩
  have hbefore : before.foldl observe r = r.play (before.map .event) := by
    rw [play, List.foldl_map]
    rfl
  obtain ⟨start, hstart⟩ := (before.foldl observe r).exists_play_settle
  obtain ⟨rest, hrest⟩ := hlater (before.foldl observe r).settle
  refine ⟨before.map .event ++ (start ++ rest), ?_⟩
  rw [run, hrest, play_append, play_append, ← hbefore, ← hstart]

end Race

end Credal
