import Credal.Generate.Shape
import Credal.Language.Constraint

/-!
# Random sentences, expressions and constraints

The shapes of the three kinds of tree. Sentences inside a probability and expressions inside a
comparison are grown to a fixed depth.

* `randomLetters`: the first letters of the alphabet with random truth values;
* `sentenceShapes`, `realShapes`, `constraintShapes`: the shapes;
* `randomSentence`, `randomReal`, `randomConstraint`: trees over given letters.
-/

namespace Credal

variable {σ : Type}

/-- The capital letters. -/
def capitals : List Char := "ABCDEFGHIJKLMNOPQRSTUVWXYZ".toList

/-- The first `count` letters of the alphabet and a truth value for each. -/
def randomLetters (R : Source σ) (count : Int) : Gen σ (List (Letter × Bool)) :=
  if 0 < count ∧ count ≤ 26 then
    (capitals.take count.toNat).mapM fun c => do
      let b ← Gen.coin R
      pure (⟨String.singleton c, 0⟩, b)
  else throw (.letterCount count)

/-- The depth of the sentences in a probability and of the expressions in a comparison. -/
def leafDepth : Int := 5

/-! ## 1. Sentences -/

/-- The shape of a connective. -/
def connectiveShape (name : String) (k : Connective) : Shape σ Sentence :=
  ⟨name, 2, fun kids => pure (.binary k kids[0] kids[1])⟩

/-- The shapes of sentences over letters. -/
def sentenceShapes (R : Source σ) (letters : List Letter) (h : letters ≠ []) :
    List (Shape σ Sentence) :=
  [⟨"value", 0, fun _ => .value <$> Gen.coin R⟩,
    ⟨"letter", 0, fun _ => .letter <$> Gen.pick R letters h⟩,
    ⟨"negation", 1, fun kids => pure (.negation kids[0])⟩,
    connectiveShape "disjunction" .disjunction,
    connectiveShape "conjunction" .conjunction,
    connectiveShape "conditional" .conditional,
    connectiveShape "biconditional" .biconditional]

/-- A random sentence over letters, of which there must be one. -/
def randomSentence (R : Source σ) (letters : List Letter) (depth : Int) : Gen σ Sentence :=
  if h : letters = [] then throw .noLetters
  else growFrom R (sentenceShapes R letters h) {} depth

/-! ## 2. Real expressions -/

/-- A name of one to three capital letters. -/
def randomName (R : Source σ) : Gen σ String := do
  let length ← Gen.below R 3 (by decide)
  let cs ← (List.range (length.val + 1)).mapM fun _ => Gen.pick R capitals (by decide)
  pure (String.ofList cs)

/-- The shape of an operator. -/
def arithShape (name : String) (op : ArithOp) : Shape σ RealExpr :=
  ⟨name, 2, fun kids => pure (.arith op kids[0] kids[1])⟩

/-- The shapes of real expressions over letters. An exponent is a literal from zero to four. -/
def realShapes (R : Source σ) (letters : List Letter) : List (Shape σ RealExpr) :=
  let sentence := randomSentence R letters leafDepth
  [⟨"variable", 0, fun _ => .var <$> randomName R⟩,
    ⟨"state_variable_sum", 0, fun _ => pure (.stateSum [])⟩,
    ⟨"literal", 0, fun _ => .literal <$> Gen.uniform R 100⟩,
    ⟨"probability", 0, fun _ => .probability <$> sentence⟩,
    ⟨"given_probability", 0, fun _ => do
      let arg ← sentence
      let condition ← sentence
      pure (.given arg condition)⟩,
    ⟨"negative", 1, fun kids => pure (.negative kids[0])⟩,
    arithShape "plus" .plus,
    arithShape "minus" .minus,
    arithShape "multiply" .times,
    ⟨"divide", 2, fun kids => pure (.divide kids[0] kids[1])⟩,
    ⟨"power", 1, fun kids => do
      let k ← Gen.below R 5 (by decide)
      pure (.power kids[0] (.literal (Float.ofNat k.val)))⟩]

/-- A random real expression over letters. -/
def randomReal (R : Source σ) (letters : List Letter) (sel : Selection) (depth : Int) :
    Gen σ RealExpr :=
  growFrom R (realShapes R letters) sel depth

/-! ## 3. Constraints -/

/-- The shape of a comparison of two random expressions. -/
def relationShape (expression : Gen σ RealExpr) (name : String) (r : Relation) :
    Shape σ Constraint :=
  ⟨name, 0, fun _ => do
    let left ← expression
    let right ← expression
    pure (.compare r left right)⟩

/-- The shape of a connective. -/
def constraintConnectiveShape (name : String) (k : Connective) : Shape σ Constraint :=
  ⟨name, 2, fun kids => pure (.binary k kids[0] kids[1])⟩

/-- The shapes of constraints over random expressions. -/
def constraintShapes (expression : Gen σ RealExpr) : List (Shape σ Constraint) :=
  [relationShape expression "equal" .equal,
    relationShape expression "not_equal" .notEqual,
    relationShape expression "less_than" .less,
    relationShape expression "less_than_or_equal" .lessEqual,
    relationShape expression "greater_than" .greater,
    relationShape expression "greater_than_or_equal" .greaterEqual,
    ⟨"negation", 1, fun kids => pure (.negation kids[0])⟩,
    constraintConnectiveShape "disjunction" .disjunction,
    constraintConnectiveShape "conjunction" .conjunction,
    constraintConnectiveShape "conditional" .conditional,
    constraintConnectiveShape "biconditional" .biconditional]

/-- A random constraint over letters; `sel` says which expressions it may hold. -/
def randomConstraint (R : Source σ) (letters : List Letter) (sel : Selection) (depth : Int) :
    Gen σ Constraint :=
  growFrom R (constraintShapes (randomReal R letters sel leafDepth)) {} depth

end Credal
