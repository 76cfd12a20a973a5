import Credal.Settings

/-!
# Settings that are read again

A reading of the defaults either succeeds or is refused. One that succeeds replaces all settings by
what the environment gives, whatever they were before. One that is refused keeps the grace and the
debug flag; the time limit is kept if it is what could not be read, and replaced if only the grace
could not.

* `TimeGiven`, `TimeRefused`: what the value of a variable gives, or why it gives nothing;
* `Environment.GivesLimit`, `RefusesLimit`, `GivesGrace`, `RefusesGrace`: the two times;
* `Environment.Sets`, `settings?`: the settings that an environment gives, all or none;
* `Settings.reload_eq_ok_iff`, `reload_eq_refused_iff`: how one reading may end, and what it leaves;
* `Settings.reloads`, `reloads_eq`: readings one after the other. They leave the settings of the
  last environment that was accepted, with the time limit of the last one that gave any;
* `reloads_replace_all_or_limit`: both together.
-/

namespace Credal

open Credal.Number

/-! ## 1. Times -/

/-- The value of a variable gives a time: the default if there is none or an empty one, otherwise
    the integer that it holds. -/
inductive TimeGiven (default : Nat) : Option String → Nat → Prop where
  | missing : TimeGiven default none default
  | empty : TimeGiven default (some "") default
  | held {raw : String} {n : Nat} (hraw : raw ≠ "") (hread : readInteger raw = .ok n) :
    TimeGiven default (some raw) n

/-- The value of a variable gives no time: it holds no integer, or a negative one. -/
inductive TimeRefused (name : String) : Option String → SettingFault → Prop where
  | notInteger {raw : String} {e : IntegerFault} (hraw : raw ≠ "")
    (hread : readInteger raw = .error e) : TimeRefused name (some raw) (.notInteger name raw)
  | negative {raw : String} {i : Int} (hraw : raw ≠ "") (hread : readInteger raw = .ok i)
    (hi : i < 0) : TimeRefused name (some raw) (.negative name i)

namespace Environment

variable {env : Environment} {name : String} {default n : Nat} {f : SettingFault}

theorem milliseconds_of_given (h : TimeGiven default (env name) n) :
    env.milliseconds name default = .ok n := by
  unfold milliseconds
  cases hname : env name with
  | none =>
    rw [hname] at h
    cases h
    rfl
  | some raw =>
    rw [hname] at h
    cases h with
    | empty => rfl
    | held hraw hread =>
      simp only [if_neg hraw, hread]
      rw [if_neg (Int.not_lt.2 (Int.natCast_nonneg n)), Int.toNat_natCast]

theorem milliseconds_of_refused (h : TimeRefused name (env name) f) :
    env.milliseconds name default = .error f := by
  unfold milliseconds
  cases hname : env name with
  | none =>
    rw [hname] at h
    cases h
  | some raw =>
    rw [hname] at h
    cases h with
    | notInteger hraw hread => simp only [if_neg hraw, hread]
    | negative hraw hread hi => simp only [if_neg hraw, hread, if_pos hi]

/-- **A variable gives a time or is refused.** -/
theorem given_or_refused (name : String) (default : Nat) (raw? : Option String) :
    (∃ n, TimeGiven default raw? n) ∨ ∃ f, TimeRefused name raw? f := by
  cases raw? with
  | none => exact .inl ⟨default, .missing⟩
  | some raw =>
    by_cases hraw : raw = ""
    · subst hraw
      exact .inl ⟨default, .empty⟩
    · cases hread : readInteger raw with
      | error e => exact .inr ⟨_, .notInteger hraw hread⟩
      | ok i =>
        rcases Int.lt_or_le i 0 with hi | hi
        · exact .inr ⟨_, .negative hraw hread hi⟩
        · obtain ⟨n, rfl⟩ := Int.eq_ofNat_of_zero_le hi
          exact .inl ⟨n, .held hraw hread⟩

theorem toOption_milliseconds_eq_some_iff :
    (env.milliseconds name default).toOption = some n ↔ TimeGiven default (env name) n := by
  constructor
  · intro h
    rcases given_or_refused name default (env name) with ⟨m, hm⟩ | ⟨f, hf⟩
    · rw [milliseconds_of_given hm] at h
      exact Option.some.inj h ▸ hm
    · rw [milliseconds_of_refused hf] at h
      cases h
  · intro h
    rw [milliseconds_of_given h]
    rfl

/-! ## 2. Environments -/

/-- The environment gives a time limit. -/
def GivesLimit (env : Environment) (n : Nat) : Prop :=
  TimeGiven 60000 (env "PRSAT_TIMEOUT_MS") n

/-- The time limit of the environment is refused. -/
def RefusesLimit (env : Environment) (f : SettingFault) : Prop :=
  TimeRefused "PRSAT_TIMEOUT_MS" (env "PRSAT_TIMEOUT_MS") f

/-- The environment gives a grace. -/
def GivesGrace (env : Environment) (n : Nat) : Prop :=
  TimeGiven 5000 (env "PRSAT_CANCEL_GRACE_MS") n

/-- The grace of the environment is refused. -/
def RefusesGrace (env : Environment) (f : SettingFault) : Prop :=
  TimeRefused "PRSAT_CANCEL_GRACE_MS" (env "PRSAT_CANCEL_GRACE_MS") f

/-- The environment gives settings: each is what its variable gives. -/
structure Sets (env : Environment) (s : Settings) : Prop where
  timeLimit : env.GivesLimit s.timeLimit
  grace : env.GivesGrace s.grace
  debug : s.debug = env.flag "PRSAT_DEBUG"

/-- The time limit that an environment gives. -/
def timeLimit? (env : Environment) : Option Nat :=
  (env.milliseconds "PRSAT_TIMEOUT_MS" 60000).toOption

/-- The settings that an environment gives, none unless it gives all of them. -/
def settings? (env : Environment) : Option Settings := do
  let timeLimit ← env.timeLimit?
  let grace ← (env.milliseconds "PRSAT_CANCEL_GRACE_MS" 5000).toOption
  some ⟨timeLimit, grace, env.flag "PRSAT_DEBUG"⟩

variable {s : Settings}

theorem timeLimit?_eq_some_iff : env.timeLimit? = some n ↔ env.GivesLimit n :=
  toOption_milliseconds_eq_some_iff

/-- **The settings that an environment gives** are what its variables give. -/
theorem settings?_eq_some_iff : env.settings? = some s ↔ env.Sets s := by
  constructor
  · intro h
    obtain ⟨n, hn, h⟩ := Option.bind_eq_some_iff.1 h
    obtain ⟨m, hm, h⟩ := Option.bind_eq_some_iff.1 h
    cases h
    exact ⟨timeLimit?_eq_some_iff.1 hn, toOption_milliseconds_eq_some_iff.1 hm, rfl⟩
  · intro h
    rw [settings?, timeLimit?_eq_some_iff.2 h.timeLimit,
      toOption_milliseconds_eq_some_iff.2 h.grace, ← h.debug]
    rfl

theorem timeLimit?_of_refused (h : env.RefusesLimit f) : env.timeLimit? = none := by
  rw [timeLimit?, milliseconds_of_refused h]
  rfl

theorem settings?_of_limit_refused (h : env.RefusesLimit f) : env.settings? = none := by
  rw [settings?, timeLimit?_of_refused h]
  rfl

theorem settings?_of_grace_refused (h : env.RefusesGrace f) : env.settings? = none := by
  rw [settings?, milliseconds_of_refused h]
  cases env.timeLimit? with
  | none => rfl
  | some n => rfl

/-- **An environment gives settings, or its time limit is refused, or its grace is.** -/
theorem sets_or_refused (env : Environment) :
    (∃ s, env.Sets s) ∨ (∃ f, env.RefusesLimit f) ∨
      ∃ n f, env.GivesLimit n ∧ env.RefusesGrace f := by
  rcases given_or_refused "PRSAT_TIMEOUT_MS" 60000 (env "PRSAT_TIMEOUT_MS") with ⟨n, hn⟩ | ⟨f, hf⟩
  · rcases given_or_refused "PRSAT_CANCEL_GRACE_MS" 5000 (env "PRSAT_CANCEL_GRACE_MS") with
      ⟨m, hm⟩ | ⟨f, hf⟩
    · exact .inl ⟨⟨n, m, env.flag "PRSAT_DEBUG"⟩, hn, hm, rfl⟩
    · exact .inr (.inr ⟨n, f, hn, hf⟩)
  · exact .inr (.inl ⟨f, hf⟩)

end Environment

/-! ## 3. One reading -/

namespace Settings

variable {env : Environment} {n : Nat} {f : SettingFault} {t : Settings}

/-- **A reading that is accepted replaces all settings.** -/
theorem reload_of_sets (h : env.Sets t) (s : Settings) : s.reload env = (t, none) := by
  rw [reload, show initial.timeLimit = 60000 from rfl, show initial.grace = 5000 from rfl,
    Environment.milliseconds_of_given h.timeLimit]
  simp only [Environment.milliseconds_of_given h.grace, ← h.debug]

/-- **A reading that is refused for its time limit changes nothing.** -/
theorem reload_of_limit_refused (h : env.RefusesLimit f) (s : Settings) :
    s.reload env = (s, some f) := by
  rw [reload, Environment.milliseconds_of_refused h]

/-- **A reading that is refused for its grace changes the time limit** and nothing else. -/
theorem reload_of_grace_refused (hn : env.GivesLimit n) (h : env.RefusesGrace f) (s : Settings) :
    s.reload env = ({ s with timeLimit := n }, some f) := by
  rw [reload, show initial.timeLimit = 60000 from rfl, Environment.milliseconds_of_given hn]
  simp only [Environment.milliseconds_of_refused h]

/-- **A reading succeeds exactly if the environment gives settings**, and leaves these. -/
theorem reload_eq_ok_iff {s : Settings} : s.reload env = (t, none) ↔ env.Sets t := by
  constructor
  · intro h
    rcases env.sets_or_refused with ⟨u, hu⟩ | ⟨f, hf⟩ | ⟨n, f, hn, hf⟩
    · rw [reload_of_sets hu] at h
      exact (Prod.mk.inj h).1 ▸ hu
    · rw [reload_of_limit_refused hf] at h
      cases h
    · rw [reload_of_grace_refused hn hf] at h
      cases h
  · intro h
    exact reload_of_sets h s

/-- **A reading is refused for its time limit or for its grace**, and leaves the settings as they
    were, or with the time limit alone replaced. -/
theorem reload_eq_refused_iff {s : Settings} : s.reload env = (t, some f) ↔
    (env.RefusesLimit f ∧ t = s) ∨
    ∃ n, env.GivesLimit n ∧ env.RefusesGrace f ∧ t = { s with timeLimit := n } := by
  constructor
  · intro h
    rcases env.sets_or_refused with ⟨u, hu⟩ | ⟨g, hg⟩ | ⟨n, g, hn, hg⟩
    · rw [reload_of_sets hu] at h
      cases h
    · rw [reload_of_limit_refused hg] at h
      cases h
      exact .inl ⟨hg, rfl⟩
    · rw [reload_of_grace_refused hn hg] at h
      cases h
      exact .inr ⟨n, hn, hg, rfl⟩
  · rintro (⟨hf, rfl⟩ | ⟨n, hn, hf, rfl⟩)
    · exact reload_of_limit_refused hf t
    · exact reload_of_grace_refused hn hf s

/-! ## 4. Readings one after the other -/

/-- The settings after some readings. -/
def reloads (s : Settings) (envs : List Environment) : Settings :=
  envs.foldl (fun s env => (s.reload env).1) s

/-- **What some readings leave**: the settings of the last environment that was accepted, with the
    time limit of the last one that gave any. -/
theorem reloads_eq (s : Settings) (envs : List Environment) : s.reloads envs =
    { (envs.filterMap Environment.settings?).getLast?.getD s with
      timeLimit := (envs.filterMap Environment.timeLimit?).getLast?.getD s.timeLimit } := by
  induction envs generalizing s with
  | nil => rfl
  | cons env envs ih =>
    show (s.reload env).1.reloads envs = _
    rw [ih]
    rcases env.sets_or_refused with ⟨t, ht⟩ | ⟨f, hf⟩ | ⟨n, f, hn, hf⟩
    · rw [reload_of_sets ht, List.filterMap_cons_some (Environment.settings?_eq_some_iff.2 ht),
        List.filterMap_cons_some (Environment.timeLimit?_eq_some_iff.2 ht.timeLimit),
        List.getLast?_cons, List.getLast?_cons]
      rfl
    · rw [reload_of_limit_refused hf,
        List.filterMap_cons_none (Environment.settings?_of_limit_refused hf),
        List.filterMap_cons_none (Environment.timeLimit?_of_refused hf)]
    · rw [reload_of_grace_refused hn hf,
        List.filterMap_cons_none (Environment.settings?_of_grace_refused hf),
        List.filterMap_cons_some (Environment.timeLimit?_eq_some_iff.2 hn), List.getLast?_cons]
      -- the time limit of the settings before the rest is not seen, only the rest of them
      cases (envs.filterMap Environment.settings?).getLast? with
      | none => rfl
      | some t => rfl

/-- **A reading replaces all settings, or the time limit alone, or nothing.** However many came
    before, it succeeds exactly if the environment gives all settings, and then these are the
    settings; if its time limit is refused, nothing changes; if only its grace is refused, the time
    limit is replaced all the same and nothing else changes. -/
theorem reloads_replace_all_or_limit (s : Settings) (envs : List Environment) :
    s.reloads envs = { (envs.filterMap Environment.settings?).getLast?.getD s with
      timeLimit := (envs.filterMap Environment.timeLimit?).getLast?.getD s.timeLimit } ∧
    ∀ env : Environment,
      (∀ t, (s.reloads envs).reload env = (t, none) ↔ env.Sets t) ∧
      (∀ t f, (s.reloads envs).reload env = (t, some f) ↔
        (env.RefusesLimit f ∧ t = s.reloads envs) ∨
        ∃ n, env.GivesLimit n ∧ env.RefusesGrace f ∧
          t = { s.reloads envs with timeLimit := n }) := by
  refine ⟨reloads_eq s envs, fun env => ⟨fun t => ?_, fun t f => ?_⟩⟩
  · exact reload_eq_ok_iff
  · exact reload_eq_refused_iff

/-- A time limit that can be read before a grace that cannot. -/
theorem refused_reload_changes_limit :
    let env : Environment := fun name =>
      if name = "PRSAT_TIMEOUT_MS" then some "1500"
      else if name = "PRSAT_CANCEL_GRACE_MS" then some "-1" else none
    initial = ⟨60000, 5000, false⟩ ∧ initial.reload env =
      (⟨1500, 5000, false⟩, some (.negative "PRSAT_CANCEL_GRACE_MS" (-1))) := by
  decide +kernel

end Settings

end Credal
