import Credal.Race
import Credal.Solver.Solution

/-!
# Sessions

A solver works in a context that can be given up for a new one. A solve that may be cancelled is a
race: a cancellation interrupts the solver, which acknowledges nothing, and a solver that does not
answer within the grace is left behind with its context.

* `Reaction`, `Reaction.events`: what a solver does with a request, and the events of the race;
* `Session`, `Session.race`: the contexts, and a solve that may be cancelled;
* `Transcript`: a session with a solver whose reactions are given beforehand. It keeps the requests
  and the last solution.
-/

namespace Credal

open Credal.Number

/-! ## 1. Reactions -/

/-- What a solver does with a request. -/
structure Reaction where
  /-- The answer, or the message of a solver that failed. -/
  reply : Except String Answer
  /-- Whether it answers before the grace ends. -/
  answers : Bool := true
  /-- Whether the solve is cancelled while it works. -/
  interrupted : Bool := false

/-- A solver that knows no answer. -/
def Reaction.unknown : Reaction := { reply := .ok ⟨.unknown, "", fun _ => ""⟩ }

/-- What happens in the race of a solve, its result made from the reply. -/
def Reaction.events {ρ : Type} (a : Reaction) (result : Except String Answer → ρ) :
    List (Event ρ) :=
  (if a.interrupted then [.cancel] else [])
    ++ [if a.answers then .finish (result a.reply) else .elapse]

/-! ## 2. Contexts -/

/-- The result of a solve. -/
abbrev Solved := Except SolveFault Solution

/-- A solver in use. -/
structure Session where
  options : Options
  /-- How many contexts there have been; the last is in use. -/
  contexts : Nat := 1

/-- The session with a new context. -/
def Session.reset (s : Session) : Session := { s with contexts := s.contexts + 1 }

/-- The seconds of a grace in milliseconds, which is too long past the largest double. -/
def graceSeconds (milliseconds : Amount) : Except GraceFault Float := do
  match milliseconds.toDouble? with
  | none => .error .tooLong
  | some x =>
    checkGrace (.double (x / 1000))
    .ok (x / 1000)

/-- A solve that may be cancelled, also before it starts, and the session after it. -/
def Session.race (s : Session) (cancelled : Bool) (seconds : Amount) (later : List (Event Solved)) :
    Race Solved × Session :=
  let r := Race.run { waits := canWait seconds } (if cancelled then [.cancel] else []) later
  (r, if r.calls.contains .abandon then s.reset else s)

/-! ## 3. Transcripts -/

/-- A request as a solver gets it. -/
structure Request where
  context : Nat
  /-- The time limit in milliseconds, zero for none. -/
  timeLimit : Nat
  script : List SExpr

/-- A session with a solver whose reactions are given beforehand. -/
structure Transcript where
  session : Session
  pending : List Reaction
  /-- The requests, the last one first. -/
  requests : List Request := []
  /-- The last solution. -/
  last? : Option Solution := none

namespace Transcript

/-- The reaction to a request; a solver whose reactions are used up knows no answer. -/
def ask (t : Transcript) (p : Problem) : Reaction × Transcript :=
  let requests := ⟨t.session.contexts, t.session.options.timeLimit, p.script⟩ :: t.requests
  match t.pending with
  | [] => (.unknown, { t with requests })
  | a :: pending => (a, { t with pending, requests })

/-- The transcript that remembers a solution. -/
def keep (t : Transcript) : Solved → Transcript
  | .ok s => { t with last? := some s }
  | .error _ => t

/-- A solve. -/
def solve (host : Host) (t : Transcript) : Except EncodeFault Problem → Solved × Transcript
  | .error f => (.error (.encode f), t)
  | .ok p =>
    let (a, t) := t.ask p
    let r := p.conclude host t.session.options a.reply
    (r, t.keep r)

/-- The events of a solve that may be cancelled. -/
def course (host : Host) (t : Transcript) :
    Except EncodeFault Problem → List (Event Solved) × Transcript
  | .error f => ([.finish (.error (.encode f))], t)
  | .ok p =>
    let (a, t) := t.ask p
    (a.events (p.conclude host t.session.options), t)

/-- The transcript that remembers the solution of a race that was won. -/
def keepResult (t : Transcript) : Option (Except GraceFault (Finish Solved)) → Transcript
  | some (.ok (.completed x _)) => t.keep x
  | _ => t

/-- A solve that may be cancelled, with its grace in milliseconds; no end if neither an answer nor
    a cancellation comes. -/
def race (host : Host) (t : Transcript) (cancelled : Bool) (milliseconds : Amount)
    (p : Except EncodeFault Problem) : Option (Except GraceFault (Finish Solved)) × Transcript :=
  match graceSeconds milliseconds with
  | .error f => (some (.error f), t)
  | .ok seconds =>
    let (later, t) := t.course host p
    let (r, session) := t.session.race cancelled (.double seconds) later
    (r.result?, { t with session }.keepResult r.result?)

end Transcript

end Credal
