import Credal.Number.Amount

/-!
# A race against a cancelled computation

A runner waits for work that it cannot force to stop. The work may finish, a token may be
cancelled, an acknowledgement may arrive and a period of grace may end, in any order and between
any two steps of the runner. After a cancellation the runner asks the work once to stop, waits for
the length of the grace, and then leaves the work behind. No wait can be as long as some graces
are; the runner gives up when it would have to wait for one of them.

* `Event`, `World`: what happens around the runner, and what it finds when it looks;
* `Phase`: how far the runner has come, one phase for each look and each call;
* `Race.step`: the next step of the runner, none while it waits and when the race is over;
* `Race.observe`: an event;
* `Race.settle`: steps until the runner waits or the race is over; `Race.step_rank_lt` is why this
  ends;
* `Race.run`: the race in which the runner settles after each event;
* `GraceFault`, `checkGrace`, `canWait`: a grace below zero is refused before a race starts, one
  that is too long when it is waited for.
-/

namespace Credal

open Credal.Number

variable {ρ σ : Type}

/-! ## 1. Around the runner -/

/-- What happens around the runner. -/
inductive Event (ρ : Type) where
  | finish (result : ρ)
  | cancel
  | acknowledge
  | elapse
  deriving DecidableEq, Repr

/-- The event with the result of the work mapped. -/
def Event.map (f : ρ → σ) : Event ρ → Event σ
  | .finish r => .finish (f r)
  | .cancel => .cancel
  | .acknowledge => .acknowledge
  | .elapse => .elapse

/-- What the runner finds when it looks. -/
structure World (ρ : Type) where
  /-- The result of the work, once it has finished. -/
  finished : Option ρ := none
  cancelled : Bool := false
  acknowledged : Bool := false
  /-- The grace has ended. -/
  elapsed : Bool := false
  deriving DecidableEq, Repr

/-- The world after an event. Work finishes once; the rest never comes undone. -/
def World.after (w : World ρ) : Event ρ → World ρ
  | .finish r => { w with finished := some (w.finished.getD r) }
  | .cancel => { w with cancelled := true }
  | .acknowledge => { w with acknowledged := true }
  | .elapse => { w with elapsed := true }

/-! ## 2. The runner -/

/-- How a race ends. -/
inductive Finish (ρ : Type) where
  /-- The work finished; `aborted` tells whether the token was cancelled by then. -/
  | completed (result : ρ) (aborted : Bool)
  /-- The work acknowledged that it stops. -/
  | cancelled
  /-- The work was left behind. -/
  | abandoned
  deriving DecidableEq, Repr

namespace Finish

/-- The word for an end. -/
def word : Finish ρ → String
  | .completed _ _ => "completed"
  | .cancelled => "cancelled"
  | .abandoned => "abandoned"

/-- Whether the token was cancelled before the race was decided. -/
def aborted : Finish ρ → Bool
  | .completed _ aborted => aborted
  | .cancelled | .abandoned => true

/-- The result of work that finished. -/
def result? : Finish ρ → Option ρ
  | .completed r _ => some r
  | .cancelled | .abandoned => none

end Finish

/-- How far the runner has come. -/
inductive Phase (ρ : Type) where
  /-- It waits for the work or the cancellation. -/
  | waiting
  /-- Its wait is over; it is about to look at the work. -/
  | deciding
  /-- It found the work finished; it is about to look at the token. -/
  | completing (result : ρ)
  /-- It found the work unfinished; it is about to ask it to stop. -/
  | stopping
  /-- It waits for the work, the acknowledgement or the end of the grace. -/
  | lingering
  /-- Its second wait is over; it is about to look at the work. -/
  | judging
  /-- It found the work unfinished again; it is about to look at the acknowledgement. -/
  | asking
  /-- It found no acknowledgement; it is about to leave the work behind. -/
  | abandoning
  | over (finish : Finish ρ)
  /-- It could not wait for the grace and gave up. -/
  | failed
  deriving DecidableEq, Repr

/-- What the runner calls. -/
inductive Call where
  | stop
  | abandon
  deriving DecidableEq, Repr

/-- The word for a call. -/
def Call.word : Call → String
  | .stop => "stop"
  | .abandon => "abandon"

/-- A race: the terms that it is held under, the world, the phase of the runner and its calls so
    far. -/
structure Race (ρ : Type) where
  /-- Whether a call to stop offers an acknowledgement. -/
  offers : Bool := false
  /-- What has happened by the time a call to stop returns. -/
  brings : List (Event ρ) := []
  /-- Whether the grace can be waited for. -/
  waits : Bool := true
  world : World ρ := {}
  phase : Phase ρ := .waiting
  calls : List Call := []
  deriving DecidableEq, Repr

namespace Race

/-- Whether an acknowledgement was offered and has arrived. -/
def answered (r : Race ρ) : Bool := r.offers && r.world.acknowledged

/-- An event around the runner. -/
def observe (r : Race ρ) (e : Event ρ) : Race ρ := { r with world := r.world.after e }

/-- The next step of the runner. The grace starts when the call to stop has returned. -/
def step (r : Race ρ) : Option (Race ρ) :=
  match r.phase with
  | .waiting =>
    if r.world.finished.isSome || r.world.cancelled then some { r with phase := .deciding }
    else none
  | .deciding =>
    match r.world.finished with
    | some result => some { r with phase := .completing result }
    | none => some { r with phase := .stopping }
  | .completing result =>
    some { r with phase := .over (.completed result r.world.cancelled) }
  | .stopping =>
    some { r with
      world := { r.brings.foldl World.after r.world with elapsed := false }, phase := .lingering,
      calls := r.calls ++ [.stop] }
  | .lingering =>
    if r.world.finished.isSome || r.answered || r.world.elapsed then
      some { r with phase := .judging }
    else if r.waits then none
    else some { r with phase := .failed }
  | .judging =>
    match r.world.finished with
    | some result => some { r with phase := .over (.completed result true) }
    | none => some { r with phase := .asking }
  | .asking =>
    if r.answered then some { r with phase := .over .cancelled }
    else some { r with phase := .abandoning }
  | .abandoning =>
    some { r with phase := .over .abandoned, calls := r.calls ++ [.abandon] }
  | .over _ | .failed => none

end Race

/-! ## 3. Whole races -/

/-- How many steps the runner has before it at most. -/
def Phase.rank : Phase ρ → Nat
  | .waiting => 7
  | .deciding => 6
  | .completing _ => 1
  | .stopping => 5
  | .lingering => 4
  | .judging => 3
  | .asking => 2
  | .abandoning => 1
  | .over _ | .failed => 0

namespace Race

/-- A step leaves fewer steps to come. -/
theorem step_rank_lt {r r' : Race ρ} (h : r.step = some r') : r'.phase.rank < r.phase.rank := by
  obtain ⟨offers, brings, waits, w, phase, calls⟩ := r
  cases phase <;> simp only [step] at h <;> (try split at h) <;> try split at h
  all_goals simp only [Option.some.injEq, reduceCtorEq] at h
  all_goals subst h; simp [Phase.rank]

/-- The race once the runner waits or the race is over. -/
def settle (r : Race ρ) : Race ρ :=
  match _h : r.step with
  | some r' => r'.settle
  | none => r
termination_by r.phase.rank
decreasing_by exact step_rank_lt _h

/-- The race whose runner starts after the events `before` and settles after each of the events
    `later`. -/
def run (r : Race ρ) (before later : List (Event ρ)) : Race ρ :=
  later.foldl (fun r e => (r.observe e).settle) (before.foldl observe r).settle

end Race

/-! ## 4. The grace -/

/-- What is wrong with a grace. -/
inductive GraceFault where
  | negative (given : Amount)
  /-- It is longer than any wait. -/
  | tooLong

/-- The message of a fault that tells what was given. -/
def GraceFault.message? : GraceFault → Option String
  | .negative given => some ("grace_seconds must be non-negative, got " ++ given.text)
  | .tooLong => none

/-- A grace in seconds that is not below zero. -/
def checkGrace (grace : Amount) : Except GraceFault Unit :=
  if grace.isNegative then .error (.negative grace) else .ok ()

/-- Whether a grace in seconds can be waited for: its nanoseconds fit into 63 bits. -/
def canWait : Amount → Bool
  | .whole i => decide (i * 1000000000 < twoTo 63)
  | .double x => !(0 < x) || x * 1000000000 < Float.ofNat (twoTo 63)

/-- How a race ended, if it is over. -/
def Race.result? (r : Race ρ) : Option (Except GraceFault (Finish ρ)) :=
  match r.phase with
  | .over f => some (.ok f)
  | .failed => some (.error .tooLong)
  | _ => none

end Credal
