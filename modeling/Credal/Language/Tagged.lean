import Credal.Json.Display
import Credal.Json.Reader
import Credal.Json.Writer
import Credal.Language.Constraint
import Credal.Number.Numeral

/-!
# Trees as tagged JSON

The interchange format of trees. A node is an object whose field `tag` names its shape and whose
other fields hold its children. Sentences and constraints share the tags of the connectives; the
kind that is asked for decides what a tag means.

Reading is lenient about the leaves: a truth value is anything, by whether it is empty or zero; a
name is anything, as it is shown; an index is anything that has an integer value; a literal is
anything that has a double value that is not negative. Children are read in the order of their
fields, so of two faults the one on the left is reported.

* `toJson`: writing, for each kind of tree;
* `TreeFault`: why a value is no tree;
* `Sentence.ofJson`, `RealExpr.ofJson`, `Constraint.ofJson`, `Node.ofJson`: reading;
* `loadConstraints`, `dumpConstraints`: documents.
-/

namespace Credal

open Credal.Number

/-! ## 1. Tags -/

/-- The tag of a connective. -/
def Connective.tag : Connective → String
  | .conjunction => "conjunction"
  | .disjunction => "disjunction"
  | .conditional => "conditional"
  | .biconditional => "biconditional"

/-- The connective of a tag. -/
def Connective.ofTag? (tag : String) : Option Connective :=
  [Connective.conjunction, .disjunction, .conditional, .biconditional].find? (·.tag = tag)

/-- The tag of an arithmetic operator. -/
def ArithOp.tag : ArithOp → String
  | .plus => "plus"
  | .minus => "minus"
  | .times => "multiply"

/-- The operator of a tag. -/
def ArithOp.ofTag? (tag : String) : Option ArithOp :=
  [ArithOp.plus, .minus, .times].find? (·.tag = tag)

/-- The tag of a comparison. -/
def Relation.tag : Relation → String
  | .equal => "equal"
  | .notEqual => "not_equal"
  | .less => "less_than"
  | .lessEqual => "less_than_or_equal"
  | .greater => "greater_than"
  | .greaterEqual => "greater_than_or_equal"

/-- The comparison of a tag. -/
def Relation.ofTag? (tag : String) : Option Relation :=
  [Relation.equal, .notEqual, .less, .lessEqual, .greater, .greaterEqual].find? (·.tag = tag)

/-! ## 2. Writing -/

/-- The object with a tag and children. -/
def tagged (tag : String) (fields : List (String × Json)) : Json :=
  .object (("tag", .string tag) :: fields)

/-- The tagged form of a sentence. -/
def Sentence.toJson : Sentence → Json
  | .value b => tagged "value" [("value", .bool b)]
  | .letter l => tagged "letter" [("id", .string l.id), ("index", .int l.index)]
  | .negation s => tagged "negation" [("sentence", s.toJson)]
  | .binary k s t => tagged k.tag [("left", s.toJson), ("right", t.toJson)]

/-- The tagged form of an expression. -/
def RealExpr.toJson : RealExpr → Json
  | .literal x => tagged "literal" [("value", .float x)]
  | .var name => tagged "variable" [("id", .string name)]
  | .stateSum is => tagged "state_variable_sum" [("indices", .array (is.map .int))]
  | .probability s => tagged "probability" [("arg", s.toJson)]
  | .given s t => tagged "given_probability" [("arg", s.toJson), ("given", t.toJson)]
  | .negative e => tagged "negative" [("expr", e.toJson)]
  | .arith op a b => tagged op.tag [("left", a.toJson), ("right", b.toJson)]
  | .divide a b => tagged "divide" [("numerator", a.toJson), ("denominator", b.toJson)]
  | .power a b => tagged "power" [("base", a.toJson), ("exponent", b.toJson)]

/-- The tagged form of a constraint. -/
def Constraint.toJson : Constraint → Json
  | .compare r a b => tagged r.tag [("left", a.toJson), ("right", b.toJson)]
  | .negation c => tagged "negation" [("constraint", c.toJson)]
  | .binary k c d => tagged k.tag [("left", c.toJson), ("right", d.toJson)]

/-- The tagged form of a node. -/
def Node.toJson : Node → Json
  | .constraint c => c.toJson
  | .real e => e.toJson

/-! ## 3. Faults -/

/-- The three kinds of tree. -/
inductive TreeKind where
  | sentence
  | real
  | constraint
  deriving DecidableEq, Repr

/-- How a message names a kind. -/
def TreeKind.text : TreeKind → String
  | .sentence => "sentence"
  | .real => "real expression"
  | .constraint => "constraint"

/-- Why a value is no tree. -/
inductive TreeFault where
  /-- No tag of the kind asked for. -/
  | unknownTag (kind : TreeKind) (tag : Json)
  /-- A field of the node with the given tag is not there. -/
  | missing (tag : Json) (key : String)
  /-- A literal is a text that is no numeral; it is quoted as a message shows it. -/
  | notNumeral (shown : String)
  /-- A literal is below zero. -/
  | negativeLiteral (value : Float)
  /-- The text is no document. -/
  | invalidJson
  /-- The document is no list. -/
  | notList
  /-- A tag, an index, a list of indices or a literal is a value of a wrong type. -/
  | wrongType
  /-- An index is a text that is no integer, or an integer of the document is too long. -/
  | notInteger (f : IntegerFault)
  /-- An index is a double that is not a number. -/
  | notANumber
  /-- An index is infinite, or a literal is an integer past every double. -/
  | tooLarge

/-- The message of a fault that describes the input; the others have none. -/
def TreeFault.message? : TreeFault → Option String
  | .unknownTag kind tag => some ("unknown " ++ kind.text ++ " tag: " ++ tag.shown)
  | .missing tag key => some ("'" ++ tag.bare ++ "' node is missing '" ++ key ++ "'")
  | .notNumeral shown => some ("could not convert string to float: " ++ shown)
  | .negativeLiteral x =>
    some ("RealExpr literal initialized with a negative value '" ++ Double.text x ++ "'")
  | .invalidJson => some "invalid JSON"
  | .notList => some "expected a list of constraints"
  | .notInteger f => some f.message
  | .notANumber => some "cannot convert float NaN to integer"
  | .wrongType | .tooLarge => none

/-! ## 4. Leaves -/

namespace Json

/-- Whether a value counts as true: it is neither empty nor zero. -/
def truth : Json → Bool
  | .null => false
  | .bool b => b
  | .int i => i ≠ 0
  | .float x => x != 0
  | .string s => s ≠ ""
  | .unpaired _ => true
  | .array items => !items.isEmpty
  | .object fields => !fields.isEmpty

/-- The integer value of an index. -/
def toIndex : Json → Except TreeFault Int
  | .bool b => .ok (if b then 1 else 0)
  | .int i => .ok i
  | .float x =>
    match Double.truncate? x with
    | some i => .ok i
    | none => .error (if x.isNaN then .notANumber else .tooLarge)
  | .string s =>
    match readInteger s with
    | .ok i => .ok i
    | .error f => .error (.notInteger f)
  | .unpaired ps => .error (.notInteger (.malformed (Text.quotedPoints ps)))
  | .null | .array _ | .object _ => .error .wrongType

/-- The items of a list of indices: those of an array, the characters of a text, the keys of an
    object. -/
def toItems : Json → Except TreeFault (List Json)
  | .array items => .ok items
  | .string s => .ok (s.toList.map fun c => .string (String.singleton c))
  | .unpaired ps => .ok (ps.map fun p => .ofPoints [p])
  | .object fields => .ok (fields.map fun f => .string f.1)
  | .null | .bool _ | .int _ | .float _ => .error .wrongType

/-- The double value of a literal. -/
def toDouble : Json → Except TreeFault Float
  | .bool b => .ok (if b then 1 else 0)
  | .int i =>
    match Double.ofInt? i with
    | some x => .ok x
    | none => .error .tooLarge
  | .float x => .ok x
  | .string s =>
    match readDouble? s with
    | some x => .ok x
    | none => .error (.notNumeral (Text.quoted s))
  | .unpaired ps => .error (.notNumeral (Text.quotedPoints ps))
  | .null | .array _ | .object _ => .error .wrongType

/-- The tag of a value, null if it has none. -/
def tagOf (j : Json) : Json := (j.field? "tag").getD .null

/-- The text of a tag: none for a tag of another type, which no kind of tree knows. Lists and
    objects are not even looked up. -/
def tagText? : Json → Except TreeFault (Option String)
  | .string s => .ok (some s)
  | .array _ | .object _ => .error .wrongType
  | _ => .ok none

/-- The value under a key of a node. -/
def require (key : String) (j : Json) : Except TreeFault Json :=
  match j.field? key with
  | some value => .ok value
  | none => .error (.missing j.tagOf key)

end Json

/-! ## 5. Shapes

A tag is read as a shape first; the shape says which fields are asked for. -/

/-- The shapes of sentences. -/
inductive SentenceShape where
  | value
  | letter
  | negation
  | binary (k : Connective)

/-- The shape of a tag. -/
def SentenceShape.ofTag? (tag : String) : Option SentenceShape :=
  if tag = "value" then some .value
  else if tag = "letter" then some .letter
  else if tag = "negation" then some .negation
  else (Connective.ofTag? tag).map .binary

/-- The shapes of real expressions. -/
inductive RealShape where
  | literal
  | var
  | stateSum
  | probability
  | given
  | negative
  | arith (op : ArithOp)
  | divide
  | power

/-- The shape of a tag. -/
def RealShape.ofTag? (tag : String) : Option RealShape :=
  if tag = "literal" then some .literal
  else if tag = "variable" then some .var
  else if tag = "state_variable_sum" then some .stateSum
  else if tag = "probability" then some .probability
  else if tag = "given_probability" then some .given
  else if tag = "negative" then some .negative
  else if tag = "divide" then some .divide
  else if tag = "power" then some .power
  else (ArithOp.ofTag? tag).map .arith

/-- The shapes of constraints. -/
inductive ConstraintShape where
  | compare (r : Relation)
  | negation
  | binary (k : Connective)

/-- The shape of a tag. -/
def ConstraintShape.ofTag? (tag : String) : Option ConstraintShape :=
  if tag = "negation" then some .negation
  else (Connective.ofTag? tag).map .binary |>.or ((Relation.ofTag? tag).map .compare)

/-- The shape that the tag of a node names. -/
def shapeOf? {σ : Type} (ofTag? : String → Option σ) (j : Json) :
    Except TreeFault (Option σ) :=
  j.tagOf.tagText?.map (·.bind ofTag?)

/-- The shape that the tag of a node names, of the kind asked for. -/
def shapeOf {σ : Type} (kind : TreeKind) (ofTag? : String → Option σ) (j : Json) :
    Except TreeFault σ := do
  match ← shapeOf? ofTag? j with
  | some shape => .ok shape
  | none => .error (.unknownTag kind j.tagOf)

/-! ## 6. Reading -/

/-- A looked-up value is smaller than the list of fields that holds it. -/
theorem Json.sizeOf_lookup_lt {key : String} {value : Json} :
    ∀ {fields : List (String × Json)}, fields.lookup key = some value →
      sizeOf value < sizeOf fields
  | (k, v) :: fields, h => by
    rw [List.lookup_cons] at h
    split at h
    · injection h with h
      subst h
      simp only [List.cons.sizeOf_spec, Prod.mk.sizeOf_spec]
      omega
    · have := sizeOf_lookup_lt h
      simp only [List.cons.sizeOf_spec]
      omega

/-- A required child is smaller than its node. -/
theorem Json.sizeOf_require_lt {key : String} {j value : Json}
    (h : j.require key = .ok value) : sizeOf value < sizeOf j := by
  unfold Json.require at h
  split at h
  · rename_i v hv
    injection h with h
    subst h
    unfold Json.field? at hv
    split at hv
    · have := sizeOf_lookup_lt hv
      simp only [Json.object.sizeOf_spec]
      omega
    · simp at hv
  · simp at h

/-- A required child, with the proof that it is smaller. -/
def Json.child (key : String) (j : Json) :
    Except TreeFault { value : Json // sizeOf value < sizeOf j } :=
  match h : j.require key with
  | .ok value => .ok ⟨value, Json.sizeOf_require_lt h⟩
  | .error fault => .error fault

/-- The sentence that a tagged value is. -/
def Sentence.ofJson (j : Json) : Except TreeFault Sentence := do
  match ← shapeOf .sentence SentenceShape.ofTag? j with
  | .value => .value <$> Json.truth <$> j.require "value"
  | .letter => do
    let id ← j.require "id"
    let index ← ((j.field? "index").getD (.int 0)).toIndex
    .ok (.letter ⟨id.bare, index⟩)
  | .negation => do
    let s ← j.child "sentence"
    .negation <$> Sentence.ofJson s.1
  | .binary k => do
    let left ← j.child "left"
    let left' ← Sentence.ofJson left.1
    let right ← j.child "right"
    let right' ← Sentence.ofJson right.1
    .ok (.binary k left' right')
  termination_by sizeOf j
  decreasing_by
    all_goals first | exact s.2 | exact left.2 | exact right.2

/-- The literal of a double. -/
def RealExpr.ofDouble (x : Float) : Except TreeFault RealExpr :=
  match RealExpr.literal? x with
  | some e => .ok e
  | none => .error (.negativeLiteral x)

/-- The real expression that a tagged value is. -/
def RealExpr.ofJson (j : Json) : Except TreeFault RealExpr := do
  match ← shapeOf .real RealShape.ofTag? j with
  | .literal => do
    let value ← j.require "value"
    RealExpr.ofDouble (← value.toDouble)
  | .var => do
    let id ← j.require "id"
    .ok (.var id.bare)
  | .stateSum => do
    let indices ← j.require "indices"
    .stateSum <$> (← indices.toItems).mapM Json.toIndex
  | .probability => do
    let arg ← j.require "arg"
    .probability <$> Sentence.ofJson arg
  | .given => do
    let arg ← j.require "arg"
    let arg' ← Sentence.ofJson arg
    let condition ← j.require "given"
    .given arg' <$> Sentence.ofJson condition
  | .negative => do
    let e ← j.child "expr"
    .negative <$> RealExpr.ofJson e.1
  | .arith op => do
    let left ← j.child "left"
    let left' ← RealExpr.ofJson left.1
    let right ← j.child "right"
    let right' ← RealExpr.ofJson right.1
    .ok (.arith op left' right')
  | .divide => do
    let left ← j.child "numerator"
    let left' ← RealExpr.ofJson left.1
    let right ← j.child "denominator"
    let right' ← RealExpr.ofJson right.1
    .ok (.divide left' right')
  | .power => do
    let left ← j.child "base"
    let left' ← RealExpr.ofJson left.1
    let right ← j.child "exponent"
    let right' ← RealExpr.ofJson right.1
    .ok (.power left' right')
  termination_by sizeOf j
  decreasing_by
    all_goals first | exact e.2 | exact left.2 | exact right.2

/-- The constraint that a tagged value is. -/
def Constraint.ofJson (j : Json) : Except TreeFault Constraint := do
  match ← shapeOf .constraint ConstraintShape.ofTag? j with
  | .compare r => do
    let left ← j.require "left"
    let left' ← RealExpr.ofJson left
    let right ← j.require "right"
    let right' ← RealExpr.ofJson right
    .ok (.compare r left' right')
  | .negation => do
    let c ← j.child "constraint"
    .negation <$> Constraint.ofJson c.1
  | .binary k => do
    let left ← j.child "left"
    let left' ← Constraint.ofJson left.1
    let right ← j.child "right"
    let right' ← Constraint.ofJson right.1
    .ok (.binary k left' right')
  termination_by sizeOf j
  decreasing_by
    all_goals first | exact c.2 | exact left.2 | exact right.2

/-- The node that a tagged value is: a constraint if its tag is one of constraints. -/
def Node.ofJson (j : Json) : Except TreeFault Node := do
  match ← shapeOf? ConstraintShape.ofTag? j with
  | some _ => .constraint <$> Constraint.ofJson j
  | none => .real <$> RealExpr.ofJson j

/-! ## 7. Documents -/

/-- The constraints of a document: a list, or an object that holds it under `constraints`. -/
def constraintsOfJson (j : Json) : Except TreeFault (List Constraint) := do
  let list ← match j with
    | .object _ => j.require "constraints"
    | j => .ok j
  match list with
  | .array items => items.mapM Constraint.ofJson
  | _ => .error .notList

/-- The constraints of the text of a document. -/
def loadConstraints (text : String) : Except TreeFault (List Constraint) :=
  match Json.read text with
  | .ok j => constraintsOfJson j
  | .error .malformed => .error .invalidJson
  | .error (.tooLong digits) => .error (.notInteger (.tooLong digits))

/-- The text of the document of constraints. -/
def dumpConstraints (style : Json.Style) (cs : List Constraint) : String :=
  (Json.array (cs.map Constraint.toJson)).text style

end Credal
