import Credal.Language.Constraint
import Credal.Language.Infix
import Credal.Number.Shortest
import Credal.SExpr.Basic
import Credal.Text.Quoted

/-!
# Solver terms

How translated expressions and constraints are written for a solver of real arithmetic. A literal
that is an integer is a numeral and another one the quotient of its shortest decimal. An operator
takes all the operands of a chain at once: sums, products, conjunctions and disjunctions take in
such operands on both sides, differences and quotients on the left, conditionals on the right.

* `EncodeFault`: why there is no term;
* `RealExpr.encode`, `Constraint.encode`, `Node.encode`.
-/

namespace Credal

open Credal.Number

/-- Why a node has no term. -/
inductive EncodeFault where
  /-- It holds a probability, which has to be translated first. -/
  | probability
  /-- It holds a literal that is no finite number. -/
  | notFinite (literal : String)
  deriving DecidableEq, Repr

/-- The message of a fault. -/
def EncodeFault.message : EncodeFault → String
  | .probability =>
    "Unable to convert a probability to an SMT-LIB term; translate the expression first"
  | .notFinite literal => "Invalid literal for Fraction: " ++ Text.quoted literal

/-- The numeral or quotient of a literal. -/
def literalTerm (x : Float) : Except EncodeFault SExpr :=
  match Double.integer? x with
  | some i => .ok (.atom (intText i))
  | none =>
    match Double.shortest? x with
    | some q => .ok (.app "/" [.atom (intText q.num), .atom (intText q.den)])
    | none => .error (.notFinite (Double.text x))

/-- The operands that an operand brings into a chain: its own if it is a link of the chain. -/
def chainOperands (isLink : Bool) (s : SExpr) : List SExpr :=
  match isLink, s with
  | true, .list (_ :: operands) => operands
  | _, s => [s]

namespace RealExpr

/-- Whether an expression is a chain of the given operator. -/
def isArith (op : ArithOp) : RealExpr → Bool
  | .arith op' _ _ => op = op'
  | _ => false

/-- Whether an expression is a quotient. -/
def isDivide : RealExpr → Bool
  | .divide _ _ => true
  | _ => false

/-- The name of a state variable as a term. -/
def stateTerm (i : Int) : SExpr := .atom (stateName i)

/-- The term of a translated expression. -/
def encode : RealExpr → Except EncodeFault SExpr
  | .literal x => literalTerm x
  | .var name => .ok (.atom name)
  | .stateSum [] => .ok (.atom "0")
  | .stateSum [i] => .ok (stateTerm i)
  | .stateSum is => .ok (.app "+" (is.map stateTerm))
  | .probability _ => .error .probability
  | .given _ _ => .error .probability
  | .negative e => do .ok (.app "-" [← e.encode])
  | .arith op a b => do
    let a' ← a.encode
    let b' ← b.encode
    let left := chainOperands (a.isArith op) a'
    let right := if op = .minus then [b'] else chainOperands (b.isArith op) b'
    .ok (.app op.symbol (left ++ right))
  | .divide a b => do
    let a' ← a.encode
    let b' ← b.encode
    .ok (.app "/" (chainOperands a.isDivide a' ++ [b']))
  | .power a b => do
    let a' ← a.encode
    let b' ← b.encode
    .ok (.app "^" [a', b'])

end RealExpr

/-- The operator of a comparison; that of an inequality is negated. -/
def Relation.operator : Relation → String
  | .equal => "="
  | .notEqual => "="
  | .less => "<"
  | .lessEqual => "<="
  | .greater => ">"
  | .greaterEqual => ">="

/-- The operator of a connective. -/
def Connective.operator : Connective → String
  | .conjunction => "and"
  | .disjunction => "or"
  | .conditional => "=>"
  | .biconditional => "="

namespace Constraint

/-- Whether a constraint is a chain of the given connective. -/
def isBinary (k : Connective) : Constraint → Bool
  | .binary k' _ _ => k = k'
  | _ => false

/-- The operands that a connective takes from its sides. -/
def operandsOf (k : Connective) (leftIsLink rightIsLink : Bool) (left right : SExpr) :
    List SExpr :=
  match k with
  | .conjunction | .disjunction => chainOperands leftIsLink left ++ chainOperands rightIsLink right
  | .conditional => left :: chainOperands rightIsLink right
  | .biconditional => [left, right]

/-- The term of a translated constraint. -/
def encode : Constraint → Except EncodeFault SExpr
  | .compare r a b => do
    let a' ← a.encode
    let b' ← b.encode
    let term := SExpr.app r.operator [a', b']
    .ok (if r = .notEqual then .app "not" [term] else term)
  | .negation c => do .ok (.app "not" [← c.encode])
  | .binary k c d => do
    let c' ← c.encode
    let d' ← d.encode
    .ok (.app k.operator (operandsOf k (c.isBinary k) (d.isBinary k) c' d'))

end Constraint

/-- The term of a translated node. -/
def Node.encode : Node → Except EncodeFault SExpr
  | .constraint c => c.encode
  | .real e => e.encode

end Credal
