import Credal.Number.Amount
import Credal.Number.Numeral
import Credal.Text.Quoted

/-!
# Settings and solver options

Defaults come from environment variables, options from the caller of a solve. Times are natural
numbers of milliseconds, so that no setting and no option holds a negative one.

* `Settings`, `Settings.initial`: the defaults and their values without an environment;
* `Settings.reload`: the defaults read again, one after the other. The first unreadable variable
  ends the reading, and the settings read before it stay changed;
* `Options`, `Options.names`: the options of a solve;
* `Options.ofAmounts`: options from what is given, refused if they are negative or too large;
* `Settings.options`: options with the configured time limit where none is asked for.
-/

namespace Credal

open Credal.Number

/-! ## 1. Settings -/

/-- The defaults. -/
structure Settings where
  /-- The time limit of a solve in milliseconds, zero for none. -/
  timeLimit : Nat
  /-- How many milliseconds a cancelled solve has to stop. -/
  grace : Nat
  debug : Bool
  deriving DecidableEq, Repr

/-- The defaults that hold without an environment. -/
def Settings.initial : Settings := ⟨60000, 5000, false⟩

/-- The values of environment variables. -/
abbrev Environment := String → Option String

/-- Why a variable gives no setting. -/
inductive SettingFault where
  | notInteger (name raw : String)
  | negative (name : String) (value : Int)
  deriving DecidableEq, Repr

/-- The message of a fault. -/
def SettingFault.message : SettingFault → String
  | .notInteger name raw =>
    name ++ " must be an integer number of milliseconds, got " ++ Text.quoted raw
  | .negative name value => name ++ " must be non-negative, got " ++ intText value

/-- The milliseconds that a variable gives, the default if it is missing or empty. -/
def Environment.milliseconds (env : Environment) (name : String) (default : Nat) :
    Except SettingFault Nat :=
  match env name with
  | none => .ok default
  | some raw =>
    if raw = "" then .ok default
    else
      match readInteger raw with
      | .error _ => .error (.notInteger name raw)
      | .ok i => if i < 0 then .error (.negative name i) else .ok i.toNat

/-- Whether a variable is set to `true`, `1` or `yes` in any case. -/
def Environment.flag (env : Environment) (name : String) : Bool :=
  match env name with
  | none => false
  | some raw => ["true", "1", "yes"].contains (raw.map Char.toLower)

/-- The settings read again, and the fault that ended the reading. -/
def Settings.reload (s : Settings) (env : Environment) : Settings × Option SettingFault :=
  match env.milliseconds "PRSAT_TIMEOUT_MS" initial.timeLimit with
  | .error f => (s, some f)
  | .ok timeLimit =>
    let s := { s with timeLimit }
    match env.milliseconds "PRSAT_CANCEL_GRACE_MS" initial.grace with
    | .error f => (s, some f)
    | .ok grace => ({ s with grace, debug := env.flag "PRSAT_DEBUG" }, none)

/-- The settings as a report shows them. -/
def Settings.text (s : Settings) : String :=
  "GlobalConfig(timeout_ms=" ++ intText s.timeLimit ++ ", cancel_grace_ms=" ++ intText s.grace
    ++ ", debug=" ++ (if s.debug then "True" else "False") ++ ")"

/-! ## 2. Options -/

/-- The options of a solve. -/
structure Options where
  /-- Every state has a positive probability. -/
  regular : Bool := false
  /-- The time limit in milliseconds, zero for none. -/
  timeLimit : Nat := 30000
  /-- Models are checked in exact arithmetic. -/
  exact : Bool := true
  /-- The tolerance of checks in double arithmetic. -/
  tolerance : Float := 1e-14

/-- The names by which options are given. -/
def Options.names : List String :=
  ["regular", "timeout_ms", "exact_validation", "validation_tolerance"]

/-- What is wrong with an option. -/
inductive OptionFault where
  /-- The time limit is negative. -/
  | timeLimit (given : Amount)
  /-- The tolerance is negative. -/
  | tolerance (given : Amount)
  /-- The tolerance is past all doubles. -/
  | tooLarge

/-- The message of a fault that tells what was given. -/
def OptionFault.message? : OptionFault → Option String
  | .timeLimit given => some ("timeout_ms must be non-negative, got " ++ given.text)
  | .tolerance given => some ("validation_tolerance must be non-negative, got " ++ given.text)
  | .tooLarge => none

/-- Options with a time limit and a tolerance as given. The time limit is looked at first. -/
def Options.ofAmounts (regular exact : Bool) (timeLimit : Int) (tolerance : Amount) :
    Except OptionFault Options :=
  if timeLimit < 0 then .error (.timeLimit (.whole timeLimit))
  else if tolerance.isNegative then .error (.tolerance tolerance)
  else
    match tolerance.toDouble? with
    | some x => .ok ⟨regular, timeLimit.toNat, exact, x⟩
    | none => .error .tooLarge

/-- Options with the configured time limit where none is asked for. -/
def Settings.options (s : Settings) (regular : Bool) (timeLimit : Option Int) :
    Except OptionFault Options :=
  let standard : Options := {}
  Options.ofAmounts regular standard.exact (timeLimit.getD s.timeLimit)
    (.double standard.tolerance)

end Credal
