import Credal.Number.Numeral
import Credal.Text.Quoted

/-!
# Command line arguments

The words of a command line are first sorted, each by itself, into values and flags, and then
consumed from left to right. A flag may be cut short as long as it is unambiguous, and its value
may follow an equals sign or stand in the next word. After a word `--` all words are values.

The value `--` after an equals sign is dropped, so that the flag has been given and has no value.
This is noticed only where the value is used, and a later value replaces it.

* `Flag`, `flagNames`: the flags and their spellings;
* `Word`, `sortWords`: the sorted words;
* `Given`: the value of a flag, or that it was dropped;
* `Arguments`, `parseArguments`: what a command line asks for;
* `UsageFault`, `Refusal`: why it asks for nothing.
-/

namespace Credal

open Credal.Number

/-! ## 1. Flags -/

/-- A flag. -/
inductive Flag where
  | help
  | regular
  | timeLimit
  | requestOnly
  | evaluate
  | logLevel
  deriving DecidableEq, Repr

/-- The spellings of the flags, in the order in which they are listed. -/
def flagNames : List (String × Flag) :=
  [("-h", .help), ("--help", .help), ("--regular", .regular), ("--timeout", .timeLimit),
    ("--emit-smtlib", .requestOnly), ("--eval", .evaluate), ("--log-level", .logLevel)]

namespace Flag

/-- The name of a flag in messages. -/
def label (f : Flag) : String :=
  "/".intercalate ((flagNames.filter fun entry => entry.2 = f).map (·.1))

/-- Whether a flag has a value. -/
def takesValue : Flag → Bool
  | .help | .regular | .requestOnly => false
  | .timeLimit | .evaluate | .logLevel => true

end Flag

/-- The log levels. -/
def logLevels : List String := ["DEBUG", "INFO", "WARNING", "ERROR"]

/-- Why a command line cannot be followed. -/
inductive UsageFault where
  | ambiguous (word : String) (candidates : List String)
  | valueMissing (f : Flag)
  | valueUnused (f : Flag) (value : String)
  | notInteger (f : Flag) (value : String)
  | notChoice (f : Flag) (value : String) (choices : List String)
  | fileMissing
  | unrecognized (words : List String)
  deriving DecidableEq, Repr

/-- The message of a fault. -/
def UsageFault.message : UsageFault → String
  | .ambiguous word candidates =>
    "ambiguous option: " ++ word ++ " could match " ++ ", ".intercalate candidates
  | .valueMissing f => "argument " ++ f.label ++ ": expected one argument"
  | .valueUnused f value =>
    "argument " ++ f.label ++ ": ignored explicit argument " ++ Text.quoted value
  | .notInteger f value => "argument " ++ f.label ++ ": invalid int value: " ++ Text.quoted value
  | .notChoice f value choices =>
    "argument " ++ f.label ++ ": invalid choice: " ++ Text.quoted value ++ " (choose from "
      ++ ", ".intercalate (choices.map Text.quoted) ++ ")"
  | .fileMissing => "the following arguments are required: file"
  | .unrecognized words => "unrecognized arguments: " ++ " ".intercalate words

/-! ## 2. Words -/

/-- What is attached to a flag in its word. -/
inductive Attached where
  | nothing
  /-- A value after an equals sign. -/
  | equals (value : String)
  /-- What goes on right after the letter of a flag with a single hyphen. -/
  | joined (text : String)
  deriving DecidableEq, Repr

/-- A sorted word. -/
inductive Word where
  | value (text : String)
  /-- The word `--` after which all words are values. -/
  | separator
  | flag (f : Flag) (attached : Attached)
  /-- A word that looks like a flag and is none. -/
  | unknown (text : String)
  deriving DecidableEq, Repr

/-- A text up to its first equals sign and what follows it. -/
def splitEquals : List Char → List Char × Option (List Char)
  | [] => ([], none)
  | '=' :: cs => ([], some cs)
  | c :: cs =>
    let (front, back) := splitEquals cs
    (c :: front, back)

/-- What follows an equals sign after a spelling, as attached to the flag. With a single hyphen it
    is as if it were joined. -/
def Attached.ofEquals (spelling : List Char) : Option (List Char) → Attached
  | none => .nothing
  | some value =>
    if spelling.take 2 = ['-', '-'] then .equals (String.ofList value)
    else .joined (String.ofList value)

/-- The spellings that a word may be short for, with what is attached in the word. -/
def candidates (cs : List Char) : List (String × Word) :=
  match cs with
  | '-' :: '-' :: _ =>
    let (front, back) := splitEquals cs
    (flagNames.filter fun entry => front.isPrefixOf entry.1.toList).map fun (name, f) =>
      (name, .flag f (.ofEquals front back))
  | _ =>
    (flagNames.filter fun entry => entry.1.toList = cs.take 2).map fun (name, f) =>
      (name, .flag f (.joined (String.ofList (cs.drop 2))))

/-- Whether a word is a hyphen before digits, or before digits with a point in front of the
    last of them. -/
def looksNegative : List Char → Bool
  | '-' :: cs =>
    let cs := if cs.getLast? = some '\n' then cs.dropLast else cs
    let (whole, rest) := (cs.takeWhile Text.isDigit, cs.dropWhile Text.isDigit)
    match rest with
    | [] => !whole.isEmpty
    | '.' :: places => !places.isEmpty && places.all Text.isDigit
    | _ => false
  | _ => false

/-- A word before the separator. -/
def sortWord (text : String) : Except UsageFault Word :=
  let cs := text.toList
  let (front, back) := splitEquals cs
  let exact := fun (cs : List Char) => flagNames.lookup (String.ofList cs)
  if cs.head? != some '-' || cs.length = 1 then .ok (.value text)
  else
    match exact cs, exact front with
    | some f, _ => .ok (.flag f .nothing)
    | none, some f => .ok (.flag f (.ofEquals front back))
    | none, none =>
      match candidates cs with
      | [(_, word)] => .ok word
      | [] =>
        if looksNegative cs || cs.contains ' ' then .ok (.value text) else .ok (.unknown text)
      | several => .error (.ambiguous text (several.map (·.1)))

/-- The sorted words of a command line. -/
def sortWords : List String → Except UsageFault (List Word)
  | [] => .ok []
  | text :: rest =>
    if text = "--" then .ok (.separator :: rest.map .value)
    else do
      let word ← sortWord text
      .ok (word :: (← sortWords rest))

/-! ## 3. Arguments -/

/-- The value of a flag. -/
inductive Given (α : Type) where
  | value (a : α)
  /-- The value was dropped. -/
  | dropped
  deriving DecidableEq, Repr

/-- The value of a flag, if it was not dropped. -/
def Given.value? {α : Type} : Given α → Option α
  | .value a => some a
  | .dropped => none

/-- What a command line asks for. -/
structure Arguments where
  file : String
  regular : Bool
  timeLimit : Option (Given Int)
  requestOnly : Bool
  /-- The files of what is evaluated. -/
  evaluate : List (Given String)
  logLevel : Given String
  deriving DecidableEq, Repr

/-- What has been consumed of a command line. -/
structure Consumed where
  file : Option String := none
  regular : Bool := false
  timeLimit : Option (Given Int) := none
  requestOnly : Bool := false
  evaluate : List (Given String) := []
  logLevel : Given String := .value "WARNING"
  /-- The words that nothing asks for. -/
  unused : List String := []
  deriving DecidableEq, Repr

/-- Why a command line is not followed: it is at fault, or it asks for help. -/
inductive Refusal where
  | usage (f : UsageFault)
  | help
  deriving DecidableEq, Repr

namespace Consumed

/-- A value that is no value of a flag: the file, if there is none yet. -/
def addValue (s : Consumed) (text : String) : Consumed :=
  match s.file with
  | none => { s with file := some text }
  | some _ => { s with unused := s.unused ++ [text] }

/-- A flag with its value. -/
def setValue (s : Consumed) (f : Flag) (value : String) : Except Refusal Consumed :=
  match f with
  | .timeLimit =>
    match readInteger value with
    | .ok i => .ok { s with timeLimit := some (.value i) }
    | .error _ => .error (.usage (.notInteger f value))
  | .logLevel =>
    if logLevels.contains value then .ok { s with logLevel := .value value }
    else .error (.usage (.notChoice f value logLevels))
  | .evaluate => .ok { s with evaluate := s.evaluate ++ [.value value] }
  | .help | .regular | .requestOnly => .error (.usage (.valueUnused f value))

/-- A flag whose value was dropped. -/
def setDropped (s : Consumed) : Flag → Consumed
  | .timeLimit => { s with timeLimit := some .dropped }
  | .logLevel => { s with logLevel := .dropped }
  | .evaluate => { s with evaluate := s.evaluate ++ [.dropped] }
  | .help | .regular | .requestOnly => s

/-- A flag without a value. -/
def set (s : Consumed) : Flag → Except Refusal Consumed
  | .help => .error .help
  | .regular => .ok { s with regular := true }
  | .requestOnly => .ok { s with requestOnly := true }
  | f => .error (.usage (.valueMissing f))

/-- A flag without a value, and what is attached to it. The letter of the flag for help may be
    repeated; what is left of the joined text is not used. -/
def setAttached (s : Consumed) (f : Flag) : Attached → Except Refusal Consumed
  | .nothing => s.set f
  | .equals value => .error (.usage (.valueUnused f value))
  | .joined text =>
    let rest := text.toList.dropWhile (· = 'h')
    if rest.isEmpty && text != "" then s.set f
    else .error (.usage (.valueUnused f (String.ofList rest)))

/-- The words consumed from left to right. A separator next to the file belongs to it. -/
def consume (s : Consumed) : List Word → Except Refusal Consumed
  | [] => .ok s
  | .value text :: .separator :: rest =>
    if s.file.isNone then (s.addValue text).consume rest
    else { s with unused := s.unused ++ [text, "--"] }.consume rest
  | .value text :: rest => (s.addValue text).consume rest
  | .separator :: .value text :: rest =>
    if s.file.isNone then (s.addValue text).consume rest
    else { s with unused := s.unused ++ ["--", text] }.consume rest
  | .separator :: rest => { s with unused := s.unused ++ ["--"] }.consume rest
  | .unknown text :: rest => { s with unused := s.unused ++ [text] }.consume rest
  | .flag f attached :: rest =>
    if f.takesValue then
      match attached, rest with
      | .equals value, rest | .joined value, rest => do
        let s ← if value = "--" then pure (s.setDropped f) else s.setValue f value
        s.consume rest
      | .nothing, .value text :: rest => do
        let s ← s.setValue f text
        s.consume rest
      | .nothing, _ => .error (.usage (.valueMissing f))
    else do
      let s ← s.setAttached f attached
      s.consume rest

/-- The arguments, if there is a file and every word is used. -/
def arguments (s : Consumed) : Except Refusal Arguments :=
  match s.file, s.unused with
  | none, _ => .error (.usage .fileMissing)
  | some file, [] =>
    .ok ⟨file, s.regular, s.timeLimit, s.requestOnly, s.evaluate, s.logLevel⟩
  | some _, unused => .error (.usage (.unrecognized unused))

end Consumed

/-- What a command line asks for. -/
def parseArguments (words : List String) : Except Refusal Arguments :=
  match sortWords words with
  | .error f => .error (.usage f)
  | .ok words => do
    let s ← ({} : Consumed).consume words
    s.arguments

end Credal
