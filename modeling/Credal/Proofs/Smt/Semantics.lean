import Credal.Proofs.Number.Digits
import Credal.Proofs.Translation.Reading
import Credal.SExpr.Basic

/-!
# What solver terms mean

Terms are read by the rules of the solver's language, without regard to how they were written. An
atom is a numeral or a constant. Sums, products, differences, quotients, conjunctions and
disjunctions of two or more operands are taken together from the left, conditionals from the right;
a difference of one operand is its negative. Operands of the wrong kind have no meaning.

* `TermValue`: numbers and truth values;
* `leftFold`, `rightFold`: operands taken together;
* `Operator`, `Operator.ofSymbol?`, `Operator.apply`: the operators;
* `Symbols`: what constants, quotients by zero and powers mean;
* `SExpr.meaning`: the value of a term;
* `Operands`: terms whose values come to a given value when they are taken together.
-/

namespace Credal

open Credal.Number

/-- The value of a term. -/
inductive TermValue (K : Type*) where
  | number (a : K)
  | truth (b : Bool)

namespace TermValue

variable {K : Type*}

def number? : TermValue K → Option K
  | .number a => some a
  | .truth _ => none

def truth? : TermValue K → Option Bool
  | .number _ => none
  | .truth b => some b

@[simp] theorem number?_number (a : K) : (number a).number? = some a := rfl

@[simp] theorem truth?_truth (b : Bool) : (truth b : TermValue K).truth? = some b := rfl

end TermValue

/-! ## 1. Operators -/

section

variable {α : Type*}

/-- Values taken together from the left. -/
def leftFold (f : α → α → α) : List α → Option α
  | [] => none
  | a :: rest => some (rest.foldl f a)

/-- Values taken together from the right. -/
def rightFold (f : α → α → α) : List α → Option α
  | [] => none
  | [a] => some a
  | a :: b :: rest => (rightFold f (b :: rest)).map (f a)

/-- The value of two or more operands of the same kind. -/
def chained {β : Type*} (kind? : β → Option α) (fold : List α → Option α) (args : List β) :
    Option α :=
  if 2 ≤ args.length then (args.mapM kind?).bind fold else none

end

section

variable {α β : Type*} {f : α → α → α} {a b : α} {as bs : List α}

theorem leftFold_concat (h : leftFold f as = some a) : leftFold f (as ++ [b]) = some (f a b) := by
  cases as with
  | nil => exact nomatch h
  | cons x rest =>
    obtain rfl := Option.some.inj h
    rw [List.cons_append, leftFold, List.foldl_append, List.foldl_cons, List.foldl_nil]

/-- Two runs of operands of an associative operator. -/
theorem leftFold_append (hf : Std.Associative f) (ha : leftFold f as = some a)
    (hb : leftFold f bs = some b) : leftFold f (as ++ bs) = some (f a b) := by
  cases as with
  | nil => exact nomatch ha
  | cons x xs =>
    cases bs with
    | nil => exact nomatch hb
    | cons y ys =>
      obtain rfl := Option.some.inj ha
      obtain rfl := Option.some.inj hb
      rw [List.cons_append, leftFold, List.foldl_append, List.foldl_cons, List.foldl_assoc]

theorem rightFold_cons (h : rightFold f bs = some b) : rightFold f (a :: bs) = some (f a b) := by
  cases bs with
  | nil => exact nomatch h
  | cons y ys => rw [rightFold, h, Option.map_some]

theorem chained_map {kind : α → β} {kind? : β → Option α} (hkind : ∀ a, kind? (kind a) = some a)
    {fold : List α → Option α} (hlen : 2 ≤ as.length) (h : fold as = some a) :
    chained kind? fold (as.map kind) = some a := by
  have hmap : (as.map kind).mapM kind? = some as := by
    clear hlen h
    induction as with
    | nil => rfl
    | cons x xs ih => rw [List.map_cons, List.mapM_cons, hkind, ih]; rfl
  rw [chained, List.length_map, if_pos hlen, hmap, Option.bind_some, h]

theorem exists_cons_cons (h : 2 ≤ as.length) : ∃ x y rest, as = x :: y :: rest := by
  rcases as with - | ⟨x, - | ⟨y, rest⟩⟩
  · exact absurd h (Nat.not_succ_le_zero 1)
  · exact absurd h (Nat.lt_irrefl 1)
  · exact ⟨x, y, rest, rfl⟩

end

/-- Truth values taken together, those of conditionals from the right. -/
def Connective.fold : Connective → List Bool → Option Bool
  | .conditional => rightFold (holds .conditional)
  | k => leftFold k.holds

/-- The operators of the solver's language. The sign of equality is that of numbers and that of
    truth values. -/
inductive Operator where
  | arith (op : ArithOp)
  | divide
  | power
  | compare (r : Relation)
  | negation
  | connective (k : Connective)

/-- The operator with a sign. -/
def Operator.ofSymbol? : String → Option Operator
  | "+" => some (.arith .plus)
  | "-" => some (.arith .minus)
  | "*" => some (.arith .times)
  | "/" => some .divide
  | "^" => some .power
  | "=" => some (.compare .equal)
  | "<" => some (.compare .less)
  | "<=" => some (.compare .lessEqual)
  | ">" => some (.compare .greater)
  | ">=" => some (.compare .greaterEqual)
  | "not" => some .negation
  | "and" => some (.connective .conjunction)
  | "or" => some (.connective .disjunction)
  | "=>" => some (.connective .conditional)
  | _ => none

/-- What is free in a term. -/
structure Symbols (K : Type*) where
  constant : String → K
  /-- The quotient of a number by zero. -/
  overZero : K → K
  power : K → K → K

variable {K : Type*} [Field K] [LinearOrder K]

/-- The quotient of two numbers. -/
def Symbols.quotient (I : Symbols K) (a b : K) : K := if b = 0 then I.overZero a else a / b

/-- The value of an operator at its operands. -/
def Operator.apply (I : Symbols K) : Operator → List (TermValue K) → Option (TermValue K)
  | .arith .minus, [.number a] => some (.number (-a))
  | .arith op, args => (chained TermValue.number? (leftFold op.on) args).map .number
  | .divide, args => (chained TermValue.number? (leftFold I.quotient) args).map .number
  | .power, [.number a, .number b] => some (.number (I.power a b))
  | .compare r, [.number a, .number b] => some (.truth (r.holdsFor a b))
  | .compare .equal, [.truth a, .truth b] => some (.truth (a == b))
  | .negation, [.truth a] => some (.truth (!a))
  | .connective k, args => (chained TermValue.truth? k.fold args).map .truth
  | _, _ => none

namespace Operator

variable {I : Symbols K}

/-- Two or more numbers; only the difference has another meaning for fewer. -/
theorem apply_arith (op : ArithOp) {ns : List K} {n : K} (hlen : 2 ≤ ns.length)
    (h : leftFold op.on ns = some n) :
    apply I (.arith op) (ns.map .number) = some (.number n) := by
  have hc := chained_map TermValue.number?_number hlen h
  obtain ⟨x, y, rest, rfl⟩ := exists_cons_cons hlen
  cases op <;> exact congrArg (Option.map TermValue.number) hc

theorem apply_divide {ns : List K} {n : K} (hlen : 2 ≤ ns.length)
    (h : leftFold I.quotient ns = some n) :
    apply I .divide (ns.map .number) = some (.number n) :=
  congrArg (Option.map TermValue.number) (chained_map TermValue.number?_number hlen h)

theorem apply_connective (k : Connective) {bs : List Bool} {b : Bool} (hlen : 2 ≤ bs.length)
    (h : k.fold bs = some b) :
    apply I (.connective k) (bs.map .truth) = some (.truth b) :=
  congrArg (Option.map TermValue.truth) (chained_map TermValue.truth?_truth hlen h)

end Operator

/-! ## 2. Terms -/

namespace SExpr

mutual

/-- The value of a term. -/
def meaning (I : Symbols K) : SExpr → Option (TermValue K)
  | .atom t => some (.number (match natural? t with
    | some n => n
    | none => I.constant t))
  | .list (.atom op :: operands) =>
    match Operator.ofSymbol? op with
    | some o => (meanings I operands).bind (o.apply I)
    | none => none
  | .list _ => none

/-- The values of terms. -/
def meanings (I : Symbols K) : List SExpr → Option (List (TermValue K))
  | [] => some []
  | s :: rest => do
    let a ← meaning I s
    let as ← meanings I rest
    some (a :: as)

end

variable {I : Symbols K}

theorem meanings_append {xs ys : List SExpr} {as bs : List (TermValue K)}
    (hx : meanings I xs = some as) (hy : meanings I ys = some bs) :
    meanings I (xs ++ ys) = some (as ++ bs) := by
  induction xs generalizing as with
  | nil =>
    obtain rfl := Option.some.inj hx
    exact hy
  | cons s rest ih =>
    rw [meanings] at hx
    obtain ⟨a, ha, hx⟩ := Option.bind_eq_some_iff.1 hx
    obtain ⟨as', has, hx⟩ := Option.bind_eq_some_iff.1 hx
    obtain rfl := Option.some.inj hx
    rw [List.cons_append, meanings, ha, ih has]
    rfl

theorem meanings_single {s : SExpr} {a : TermValue K}
    (h : s.meaning I = some a) : meanings I [s] = some [a] := by
  rw [meanings, h]
  rfl

theorem meanings_pair {s t : SExpr} {a b : TermValue K}
    (hs : s.meaning I = some a) (ht : t.meaning I = some b) :
    meanings I [s, t] = some [a, b] := by
  rw [meanings, hs, meanings_single ht]
  rfl

theorem length_of_meanings {xs : List SExpr} {as : List (TermValue K)}
    (h : meanings I xs = some as) : as.length = xs.length := by
  induction xs generalizing as with
  | nil =>
    obtain rfl := Option.some.inj h
    rfl
  | cons s rest ih =>
    rw [meanings] at h
    obtain ⟨a, -, h⟩ := Option.bind_eq_some_iff.1 h
    obtain ⟨as', has, h⟩ := Option.bind_eq_some_iff.1 h
    obtain rfl := Option.some.inj h
    rw [List.length_cons, List.length_cons, ih has]

theorem meaning_app {op : String} {o : Operator} (ho : Operator.ofSymbol? op = some o)
    {operands : List SExpr} {args : List (TermValue K)} (h : meanings I operands = some args) :
    meaning I (app op operands) = o.apply I args := by
  rw [app, meaning, ho, h]
  rfl

end SExpr

/-! ## 3. Operands -/

/-- Terms of one kind whose values, taken together, come to a given value. -/
def Operands {α : Type*} (I : Symbols K) (kind : α → TermValue K) (fold : List α → Option α)
    (terms : List SExpr) (a : α) : Prop :=
  ∃ as : List α, SExpr.meanings I terms = some (as.map kind) ∧ fold as = some a

namespace Operands

variable {α : Type*} {I : Symbols K} {kind : α → TermValue K} {fold : List α → Option α}
  {f : α → α → α} {xs ys : List SExpr} {s : SExpr} {a b : α}

theorem single (hs : s.meaning I = some (kind a)) (hfold : ∀ a, fold [a] = some a) :
    Operands I kind fold [s] a :=
  ⟨[a], SExpr.meanings_single hs, hfold a⟩

/-- One more operand on the right. -/
theorem concat (hx : Operands I kind (leftFold f) xs a) (hs : s.meaning I = some (kind b)) :
    Operands I kind (leftFold f) (xs ++ [s]) (f a b) := by
  obtain ⟨as, has, ha⟩ := hx
  refine ⟨as ++ [b], ?_, leftFold_concat ha⟩
  rw [SExpr.meanings_append has (SExpr.meanings_single hs), List.map_append, List.map_singleton]

/-- The operands of two sides. -/
theorem append (hf : Std.Associative f) (hx : Operands I kind (leftFold f) xs a)
    (hy : Operands I kind (leftFold f) ys b) :
    Operands I kind (leftFold f) (xs ++ ys) (f a b) := by
  obtain ⟨as, has, ha⟩ := hx
  obtain ⟨bs, hbs, hb⟩ := hy
  refine ⟨as ++ bs, ?_, leftFold_append hf ha hb⟩
  rw [SExpr.meanings_append has hbs, List.map_append]

/-- One more operand on the left. -/
theorem cons (hs : s.meaning I = some (kind a)) (hy : Operands I kind (rightFold f) ys b) :
    Operands I kind (rightFold f) (s :: ys) (f a b) := by
  obtain ⟨bs, hbs, hb⟩ := hy
  refine ⟨a :: bs, ?_, rightFold_cons hb⟩
  rw [SExpr.meanings, hs, hbs]
  rfl

theorem length_pos (h : Operands I kind fold xs a) (hfold : fold [] = none) : 0 < xs.length := by
  obtain ⟨as, has, ha⟩ := h
  cases xs with
  | nil =>
    obtain rfl : as = [] := List.map_eq_nil_iff.1 (Option.some.inj has).symm
    exact nomatch hfold.symm.trans ha
  | cons s rest => exact Nat.succ_pos _

/-! ## 4. Operators at their operands -/

theorem meaning_arith {op : ArithOp} {n : K}
    (h : Operands I .number (leftFold op.on) xs n) (hlen : 2 ≤ xs.length) :
    (SExpr.app op.symbol xs).meaning I = some (.number n) := by
  obtain ⟨as, has, ha⟩ := h
  have ho : Operator.ofSymbol? op.symbol = some (.arith op) := by cases op <;> rfl
  rw [← SExpr.length_of_meanings has, List.length_map] at hlen
  rw [SExpr.meaning_app ho has]
  exact Operator.apply_arith op hlen ha

theorem meaning_divide {n : K} (h : Operands I .number (leftFold I.quotient) xs n)
    (hlen : 2 ≤ xs.length) : (SExpr.app "/" xs).meaning I = some (.number n) := by
  obtain ⟨as, has, ha⟩ := h
  have ho : Operator.ofSymbol? "/" = some .divide := rfl
  rw [← SExpr.length_of_meanings has, List.length_map] at hlen
  rw [SExpr.meaning_app ho has]
  exact Operator.apply_divide hlen ha

theorem meaning_connective {op : String} {k : Connective} {b : Bool}
    (ho : Operator.ofSymbol? op = some (.connective k)) (h : Operands I .truth k.fold xs b)
    (hlen : 2 ≤ xs.length) : (SExpr.app op xs).meaning I = some (.truth b) := by
  obtain ⟨as, has, ha⟩ := h
  rw [← SExpr.length_of_meanings has, List.length_map] at hlen
  rw [SExpr.meaning_app ho has]
  exact Operator.apply_connective k hlen ha

end Operands

end Credal
