import Credal.Language.Constraint
import Credal.Language.Infix

/-!
# Trees of any kind

A tree is a sentence, a constraint or a real expression. Trees are put together on a stack, as in
postfix notation: an operation takes its operands off the top, the right one first, and puts the
compound in their place.

* `Tree`, `Tree.text`, `Tree.sameNumbers`: the tree, its text and equality;
* `Operation.apply`: an operation on a stack.
-/

namespace Credal

/-- A tree of any kind. -/
inductive Tree where
  | sentence (s : Sentence)
  | node (n : Node)

namespace Tree

/-- The text of a tree. -/
def text : Tree → String
  | .sentence s => s.text
  | .node n => n.text

/-- Whether two trees are the same, their literals compared as numbers. -/
def sameNumbers : Tree → Tree → Bool
  | .sentence s, .sentence t => s = t
  | .node (.constraint c), .node (.constraint d) => c.sameNumbers d
  | .node (.real a), .node (.real b) => a.sameNumbers b
  | _, _ => false

end Tree

/-- What makes a compound of one or two trees. Negation and the connectives are those of sentences
    or those of constraints. -/
inductive Operation where
  | negation
  | constraintNegation
  | negative
  | probability
  | connective (k : Connective)
  | constraintConnective (k : Connective)
  | given
  | arith (op : ArithOp)
  | divide
  | power
  | compare (r : Relation)
  deriving DecidableEq, Repr

/-- Why an operation does not apply. -/
inductive OperationFault where
  | tooFewOperands
  | wrongKind
  deriving DecidableEq, Repr

namespace Operation

/-- Whether an operation takes a single operand. -/
def isUnary : Operation → Bool
  | .negation | .constraintNegation | .negative | .probability => true
  | _ => false

/-- The compound of one operand. -/
def unary? : Operation → Tree → Option Tree
  | .negation, .sentence s => some (.sentence (.negation s))
  | .constraintNegation, .node (.constraint c) => some (.node (.constraint (.negation c)))
  | .negative, .node (.real e) => some (.node (.real (.negative e)))
  | .probability, .sentence s => some (.node (.real (.probability s)))
  | _, _ => none

/-- The compound of two operands. -/
def binary? : Operation → Tree → Tree → Option Tree
  | .connective k, .sentence s, .sentence t => some (.sentence (.binary k s t))
  | .constraintConnective k, .node (.constraint c), .node (.constraint d) =>
    some (.node (.constraint (.binary k c d)))
  | .given, .sentence s, .sentence t => some (.node (.real (.given s t)))
  | .arith op, .node (.real a), .node (.real b) => some (.node (.real (.arith op a b)))
  | .divide, .node (.real a), .node (.real b) => some (.node (.real (.divide a b)))
  | .power, .node (.real a), .node (.real b) => some (.node (.real (.power a b)))
  | .compare r, .node (.real a), .node (.real b) => some (.node (.constraint (.compare r a b)))
  | _, _, _ => none

/-- The compound on a stack in the place of its operands. -/
def onto (rest : List Tree) : Option Tree → Except OperationFault (List Tree)
  | some t => .ok (t :: rest)
  | none => .error .wrongKind

/-- The stack after an operation. -/
def apply (o : Operation) (stack : List Tree) : Except OperationFault (List Tree) :=
  match o.isUnary, stack with
  | true, t :: rest => onto rest (o.unary? t)
  | false, right :: left :: rest => onto rest (o.binary? left right)
  | _, _ => .error .tooFewOperands

end Operation

end Credal
