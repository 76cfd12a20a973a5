import Credal.Proofs.Race.Moves
import Mathlib.Data.List.Induction

/-!
# What is known of a race

Each phase of the runner has its history: the work has been asked to stop only if it was seen
unfinished after a cancellation, and it is left behind only if the grace ended and two more looks
found neither the work finished nor an acknowledgement.

* `Race.Once`, `Race.SeenUnfinished`, `Race.Outlasted`, `Race.FoundUnfinished`, `Race.Unanswered`,
  `Race.Acknowledged`: what the runner saw when it took an earlier step;
* `Race.Known`: what is known in each phase, kept by every move (`known_move`) and therefore by
  every play (`known_play`);
* `Race.Known.calls_cases`: the calls of a race and the reasons for them.
-/

namespace Credal

variable {ρ : Type}

namespace Race

/-! ## 1. What the runner has seen -/

/-- The runner took a step after moves of which `p` holds. -/
def Once (p : List (Move ρ) → Prop) (moves : List (Move ρ)) : Prop :=
  ∃ before after, moves = before ++ .step :: after ∧ p before

theorem Once.concat {p : List (Move ρ) → Prop} {moves : List (Move ρ)} (h : Once p moves)
    (m : Move ρ) : Once p (moves ++ [m]) := by
  obtain ⟨before, after, rfl, hp⟩ := h
  exact ⟨before, after ++ [m], by rw [List.append_assoc, List.cons_append], hp⟩

theorem once_concat {p : List (Move ρ) → Prop} {moves : List (Move ρ)} (h : p moves) :
    Once p (moves ++ [.step]) :=
  ⟨moves, [], rfl, h⟩

section

variable (start : Race ρ) (moves : List (Move ρ))

/-- The runner looks at the work after a cancellation, has called nothing, and the work is not
    finished. -/
def SeenUnfinished : Prop :=
  (start.play moves).phase = .deciding ∧ (start.play moves).calls = [] ∧
    (start.play moves).world.cancelled = true ∧ (start.play moves).world.finished = none

/-- The runner has asked the work to stop, and the grace ends while it waits. -/
def Outlasted : Prop :=
  (start.play moves).phase = .lingering ∧ (start.play moves).calls = [.stop] ∧
    (start.play moves).world.elapsed = true

/-- After the grace the runner looks at the work, and it is not finished. -/
def FoundUnfinished : Prop :=
  (start.play moves).phase = .judging ∧ (start.play moves).world.finished = none ∧
    Once start.Outlasted moves

/-- Then the runner looks for an acknowledgement, and there is none. -/
def Unanswered : Prop :=
  (start.play moves).phase = .asking ∧ (start.play moves).answered = false ∧
    Once start.FoundUnfinished moves

/-- The runner looks for an acknowledgement, and it is there. -/
def Acknowledged : Prop :=
  (start.play moves).phase = .asking ∧ (start.play moves).answered = true

end

/-! ## 2. What is known in each phase -/

/-- The work has been asked to stop, for a reason. -/
structure Asked (start : Race ρ) (moves : List (Move ρ)) (r : Race ρ) : Prop where
  calls : r.calls = [.stop]
  cancelled : r.world.cancelled = true
  once : Once start.SeenUnfinished moves

/-- What is known of a race that has come to a phase by moves. -/
def Known (start : Race ρ) (moves : List (Move ρ)) (r : Race ρ) : Phase ρ → Prop
  | .waiting => r.calls = []
  | .deciding => r.calls = [] ∧ (r.world.finished.isSome = true ∨ r.world.cancelled = true)
  | .completing result => r.calls = [] ∧ r.world.finished = some result
  | .stopping => r.calls = [] ∧ r.world.cancelled = true ∧ Once start.SeenUnfinished moves
  | .lingering => Asked start moves r
  | .judging => Asked start moves r ∧
      (r.world.finished.isSome = true ∨ r.answered = true ∨ Once start.Outlasted moves)
  | .asking => Asked start moves r ∧ (r.answered = true ∨ Once start.FoundUnfinished moves)
  | .abandoning => Asked start moves r ∧ Once start.Unanswered moves
  | .over (.completed result aborted) => r.world.finished = some result ∧
      (r.calls = [] ∧ (aborted = true → r.world.cancelled = true) ∨
        Asked start moves r ∧ aborted = true)
  | .over .cancelled => Asked start moves r ∧ Once start.Acknowledged moves
  | .over .abandoned => r.calls = [.stop, .abandon] ∧ Once start.SeenUnfinished moves ∧
      Once start.Unanswered moves
  | .failed => Asked start moves r ∧ r.waits = false

section

variable {start r r' : Race ρ} {moves : List (Move ρ)}

theorem answered_mono (hworld : r.world.Grows r'.world) (hoffers : r'.offers = r.offers)
    (h : r.answered = true) : r'.answered = true := by
  obtain ⟨hr, ha⟩ := Bool.and_eq_true_iff.1 h
  exact Bool.and_eq_true_iff.2 ⟨hoffers.trans hr, hworld.acknowledged ha⟩

theorem Asked.concat (h : Asked start moves r) (m : Move ρ) (hcalls : r'.calls = r.calls)
    (hworld : r.world.Grows r'.world) : Asked start (moves ++ [m]) r' :=
  ⟨hcalls.trans h.calls, hworld.cancelled h.cancelled, h.once.concat m⟩

/-- What is known stays so while the runner does nothing. -/
theorem Known.concat {φ : Phase ρ} (h : Known start moves r φ) (m : Move ρ)
    (hcalls : r'.calls = r.calls) (hworld : r.world.Grows r'.world)
    (hterms : r'.offers = r.offers ∧ r'.waits = r.waits) : Known start (moves ++ [m]) r' φ := by
  cases φ with
  | waiting => exact hcalls.trans h
  | deciding => exact ⟨hcalls.trans h.1, h.2.imp hworld.isSome hworld.cancelled⟩
  | completing result => exact ⟨hcalls.trans h.1, hworld.finished result h.2⟩
  | stopping => exact ⟨hcalls.trans h.1, hworld.cancelled h.2.1, h.2.2.concat m⟩
  | lingering => exact Asked.concat h m hcalls hworld
  | judging =>
    exact ⟨h.1.concat m hcalls hworld,
      h.2.imp hworld.isSome (Or.imp (answered_mono hworld hterms.1) (·.concat m))⟩
  | asking =>
    exact ⟨h.1.concat m hcalls hworld, h.2.imp (answered_mono hworld hterms.1) (·.concat m)⟩
  | abandoning => exact ⟨h.1.concat m hcalls hworld, h.2.concat m⟩
  | «over» f =>
    cases f with
    | completed result aborted =>
      refine ⟨hworld.finished result h.1, h.2.imp (fun h => ?_) fun h => ?_⟩
      · exact ⟨hcalls.trans h.1, fun ha => hworld.cancelled (h.2 ha)⟩
      · exact ⟨h.1.concat m hcalls hworld, h.2⟩
    | cancelled => exact ⟨h.1.concat m hcalls hworld, h.2.concat m⟩
    | abandoned => exact ⟨hcalls.trans h.1, h.2.1.concat m, h.2.2.concat m⟩
  | failed => exact ⟨h.1.concat m hcalls hworld, hterms.2.trans h.2⟩

/-- **A step of the runner** leads from what is known in one phase to what is known in the next. -/
theorem Known.advances (h : Known start moves (start.play moves) (start.play moves).phase)
    (hstep : (start.play moves).Advances r') : Known start (moves ++ [.step]) r' r'.phase := by
  have hterms := hstep.terms_eq
  have hworld := hstep.grows
  cases hstep with
  | wake hphase hw =>
    rw [hphase] at h
    exact ⟨h, hw⟩
  | findDone hphase hresult =>
    rw [hphase] at h
    exact ⟨h.1, hresult⟩
  | findUndone hphase hresult =>
    rw [hphase] at h
    -- the first wait was over, and not because of the work
    have hcancelled : (start.play moves).world.cancelled = true := by
      refine h.2.resolve_left fun hsome => ?_
      rw [hresult] at hsome
      exact nomatch hsome
    exact ⟨h.1, hcancelled, once_concat ⟨hphase, h.1, hcancelled, hresult⟩⟩
  | complete hphase =>
    rw [hphase] at h
    exact ⟨h.2, Or.inl ⟨h.1, id⟩⟩
  | stop hphase =>
    rw [hphase] at h
    exact ⟨congrArg (· ++ [Call.stop]) h.1, hworld.cancelled h.2.1, h.2.2.concat _⟩
  | rouse hphase hw =>
    rw [hphase] at h
    have hasked : Asked start moves (start.play moves) := h
    exact ⟨hasked.concat _ rfl hworld,
      hw.imp_right (Or.imp_right fun helapsed => once_concat ⟨hphase, hasked.calls, helapsed⟩)⟩
  | fail hphase hw =>
    rw [hphase] at h
    exact ⟨Asked.concat h _ rfl hworld, hw⟩
  | judgeDone hphase hresult =>
    rw [hphase] at h
    exact ⟨hresult, Or.inr ⟨h.1.concat _ rfl hworld, rfl⟩⟩
  | judgeUndone hphase hresult =>
    rw [hphase] at h
    refine ⟨h.1.concat _ rfl hworld, ?_⟩
    rcases h.2 with hsome | hanswered | honce
    · rw [hresult] at hsome
      exact nomatch hsome
    · exact Or.inl hanswered
    · exact Or.inr (once_concat ⟨hphase, hresult, honce⟩)
  | accept hphase hanswered =>
    rw [hphase] at h
    exact ⟨h.1.concat _ rfl hworld, once_concat ⟨hphase, hanswered⟩⟩
  | reject hphase hanswered =>
    rw [hphase] at h
    refine ⟨h.1.concat _ rfl hworld, once_concat ⟨hphase, hanswered, h.2.resolve_left ?_⟩⟩
    rw [hanswered]
    exact Bool.false_ne_true
  | abandon hphase =>
    rw [hphase] at h
    exact ⟨congrArg (· ++ [Call.abandon]) h.1.calls, h.1.once.concat _, h.2.concat _⟩

/-- **Every move keeps what is known.** -/
theorem known_move (h : Known start moves (start.play moves) (start.play moves).phase)
    (m : Move ρ) :
    Known start (moves ++ [m]) ((start.play moves).move m) ((start.play moves).move m).phase := by
  cases m with
  | step =>
    rcases (start.play moves).move_step_cases with hstep | ⟨-, hstay⟩
    · exact h.advances hstep
    · rw [hstay]
      exact h.concat _ rfl (.refl _) ⟨rfl, rfl⟩
  | event e => exact h.concat _ rfl (World.grows_after _ e) ⟨rfl, rfl⟩

/-- **Every play keeps what is known.** -/
theorem known_play (hphase : start.phase = .waiting) (hcalls : start.calls = [])
    (moves : List (Move ρ)) :
    Known start moves (start.play moves) (start.play moves).phase := by
  induction moves using List.reverseRecOn with
  | nil =>
    show Known start [] start start.phase
    rw [hphase]
    exact hcalls
  | append_singleton moves m ih =>
    rw [play_concat]
    exact known_move ih m

/-- The calls of a race and the reasons for them. -/
theorem Known.calls_cases {φ : Phase ρ} (h : Known start moves r φ) :
    (r.calls = [] ∧ φ ≠ .over .abandoned) ∨
    (r.calls = [.stop] ∧ φ ≠ .over .abandoned ∧ Once start.SeenUnfinished moves) ∨
    (r.calls = [.stop, .abandon] ∧ φ = .over .abandoned ∧ Once start.SeenUnfinished moves ∧
      Once start.Unanswered moves) := by
  have hasked : ∀ {φ : Phase ρ}, φ ≠ .over .abandoned → Asked start moves r →
      r.calls = [.stop] ∧ φ ≠ .over .abandoned ∧ Once start.SeenUnfinished moves :=
    fun hφ h => ⟨h.calls, hφ, h.once⟩
  cases φ with
  | waiting => exact Or.inl ⟨h, nofun⟩
  | deciding | completing | stopping => exact Or.inl ⟨h.1, nofun⟩
  | lingering => exact Or.inr (Or.inl (hasked nofun h))
  | judging | asking | abandoning | failed => exact Or.inr (Or.inl (hasked nofun h.1))
  | «over» f =>
    cases f with
    | completed result aborted =>
      rcases h.2 with h | h
      · exact Or.inl ⟨h.1, nofun⟩
      · exact Or.inr (Or.inl (hasked nofun h.1))
    | cancelled => exact Or.inr (Or.inl (hasked nofun h.1))
    | abandoned => exact Or.inr (Or.inr ⟨h.1, rfl, h.2⟩)

end

end Race

end Credal
