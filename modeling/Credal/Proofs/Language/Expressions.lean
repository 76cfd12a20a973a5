import Credal.Proofs.Language.Places
import Credal.Proofs.Language.Sentences

/-!
# Expressions are read off their texts

The closed expressions are told apart by their first characters, except that a variable and a
probability both begin with a letter: a parenthesis follows the letters of the probability only.
Compounds are alike, whatever joins their operands; an operand that is a sign with what it negates
stands in parentheses in a power and without them elsewhere. Behind an expression stands nothing, a
parenthesis or the sign of a comparison.

* `Node.OwnLegible`, `Node.Legible`: the names and the literals that are asked for;
* `Joint`: what joins two expressions;
* `expressions`, `expression_unique`: **an expression is told from the others** by its text;
* `RealExpr.writtenAlike_of_sameNumbers`: expressions with the same numbers are written alike.
-/

namespace Credal

open Credal.Number

/-! ## 1. Compounds -/

/-- What is asked of a part of a tree itself. No literal is negative (`RealExpr.literal?`). -/
def Node.OwnLegible : Node → Prop
  | .real (.literal x) => x.isFinite = true ∧ ¬ x < 0
  | .real (.var name) => IsName name
  | .real (.stateSum _) => False
  | .real (.probability s) => s.Legible
  | .real (.given s t) => s.Legible ∧ t.Legible
  | _ => True

/-- All names and literals of an expression or a constraint are legible. -/
def Node.Legible (n : Node) : Prop := n.Everywhere OwnLegible

/-- What joins two expressions. -/
inductive Joint where
  | arith (op : ArithOp)
  | divide
  | power

namespace Joint

/-- A compound of two expressions. -/
def join : Joint → RealExpr → RealExpr → RealExpr
  | arith op => .arith op
  | divide => .divide
  | power => .power

/-- Whether the text of an expression needs no parentheses in a compound. -/
def bare : Joint → RealExpr → Bool
  | power => RealExpr.isClosedInPower
  | _ => RealExpr.isClosed

/-- The symbol between two expressions. -/
def symbol : Joint → String
  | arith op => op.symbol
  | divide => "/"
  | power => "^"

/-- The symbol, between blanks unless it is that of a power. -/
def separator : Joint → List Char
  | power => ['^']
  | j => spaced j.symbol

theorem eq_of_signOf_eq {j j' : Joint} (h : signOf j.symbol = signOf j'.symbol) : j = j' := by
  rcases j with (_ | _ | _) | _ | _ <;> rcases j' with (_ | _ | _) | _ | _ <;>
    first | rfl | exact absurd h (by decide)

theorem separator_eq (j : Joint) : j = power ∧ j.separator = ['^'] ∨
    j ≠ power ∧ j.separator = spaced j.symbol := by
  cases j with
  | power => exact .inl ⟨rfl, rfl⟩
  | _ => exact .inr ⟨nofun, rfl⟩

theorem separator_append_inj {j j' : Joint} {rest rest' : List Char}
    (h : j.separator ++ rest = j'.separator ++ rest') : j = j' ∧ rest = rest' := by
  rcases j.separator_eq with ⟨rfl, hj⟩ | ⟨-, hj⟩
  · rcases j'.separator_eq with ⟨rfl, hj'⟩ | ⟨-, hj'⟩
    · exact ⟨rfl, (List.cons.inj h).2⟩
    · rw [hj, hj'] at h
      exact absurd (List.cons.inj h).1 (by decide)
  · rcases j'.separator_eq with ⟨rfl, hj'⟩ | ⟨-, hj'⟩
    · rw [hj, hj'] at h
      exact absurd (List.cons.inj h).1 (by decide)
    · rw [hj, hj'] at h
      exact ⟨eq_of_signOf_eq (spaced_append_inj h).1, (spaced_append_inj h).2⟩

theorem join_inj {j j' : Joint} {a a' b b' : RealExpr} (h : j.join a b = j'.join a' b') :
    j = j' ∧ a = a' ∧ b = b' := by
  cases j <;> cases j' <;> cases h <;> exact ⟨rfl, rfl, rfl⟩

theorem isClosed_join (j : Joint) (a b : RealExpr) : (j.join a b).isClosed = false := by
  cases j <;> rfl

theorem isClosed_of_bare {j : Joint} {e : RealExpr} (h : j.bare e = true) : e.isClosed = true := by
  cases j with
  | power =>
    cases e with
    | negative => exact nomatch h
    | _ => exact h
  | _ => exact h

theorem legible_iff {j : Joint} {a b : RealExpr} : (Node.real (j.join a b)).Legible ↔
    (Node.real a).Legible ∧ (Node.real b).Legible := by
  cases j with
  | _ => exact (Node.everywhere_pair rfl).trans (and_iff_right trivial)

theorem sameNumbers_join {j : Joint} {a a' b b' : RealExpr} (ha : a.sameNumbers a' = true)
    (hb : b.sameNumbers b' = true) : (j.join a b).sameNumbers (j.join a' b') = true := by
  cases j with
  | arith op =>
    show (decide (op = op) && a.sameNumbers a' && b.sameNumbers b') = true
    rw [ha, hb, decide_eq_true rfl]
    rfl
  | _ =>
    show (a.sameNumbers a' && b.sameNumbers b') = true
    rw [ha, hb]
    rfl

end Joint

/-! ## 2. Texts -/

namespace RealExpr

variable {e e' : RealExpr}

/-- The kind of the first character of an operand. -/
def kind : RealExpr → Char
  | .literal _ => '0'
  | .var _ | .probability _ | .given .. => 'a'
  | .negative _ => '-'
  | _ => '('

theorem toList_text_probability (s : Sentence) :
    (probability s).text.toList = 'P' :: 'r' :: '(' :: (s.text.toList ++ [')']) := by
  show ("Pr(" ++ s.text ++ ")").toList = _
  rw [String.toList_append, String.toList_append]
  rfl

theorem toList_text_given (s t : Sentence) : (given s t).text.toList =
    'P' :: 'r' :: '(' :: (s.text.toList ++ ' ' :: '|' :: ' ' :: (t.text.toList ++ [')'])) := by
  show ("Pr(" ++ s.text ++ " | " ++ t.text ++ ")").toList = _
  simp only [String.toList_append, List.append_assoc]
  rfl

theorem toList_text_negative (e : RealExpr) :
    (negative e).text.toList = '-' :: wrap e.isClosed e.text.toList := by
  show ("-" ++ operandText e.isClosed e.text).toList = _
  rw [String.toList_append, toList_operandText]
  rfl

theorem toList_text_join (j : Joint) (a b : RealExpr) : (j.join a b).text.toList =
    wrap (j.bare a) a.text.toList ++ (j.separator ++ wrap (j.bare b) b.text.toList) := by
  cases j with
  | arith op =>
    show (operandText a.isClosed a.text ++ " " ++ op.symbol ++ " " ++
      operandText b.isClosed b.text).toList = _
    have hop : op.symbol.toList = [signOf op.symbol] := by cases op <;> rfl
    simp only [String.toList_append, toList_operandText, hop, List.append_assoc]
    rfl
  | divide =>
    show (operandText a.isClosed a.text ++ " / " ++ operandText b.isClosed b.text).toList = _
    simp only [String.toList_append, toList_operandText, List.append_assoc]
    rfl
  | power =>
    show (operandText a.isClosedInPower a.text ++ "^" ++
      operandText b.isClosedInPower b.text).toList = _
    simp only [String.toList_append, toList_operandText, List.append_assoc]
    rfl

theorem text_join_append (j : Joint) (a b : RealExpr) (rest : List Char) :
    (j.join a b).text.toList ++ rest = wrap (j.bare a) a.text.toList ++
      (j.separator ++ (wrap (j.bare b) b.text.toList ++ rest)) := by
  rw [toList_text_join, List.append_assoc, List.append_assoc]

/-- A closed text begins with a character of its kind. -/
theorem leads_kind (he : (Node.real e).Legible) (hc : e.isClosed = true) :
    Leads e.kind e.text.toList := by
  have hown := (Node.everywhere_iff.1 he).1
  cases e with
  | literal x => exact leads_literal hown
  | var name => exact leads_of_isAlpha hown.1 hown.2
  | stateSum is => exact hown.elim
  | probability s =>
    rw [toList_text_probability]
    exact leads_cons
  | given s t =>
    rw [toList_text_given]
    exact leads_cons
  | negative e =>
    rw [toList_text_negative]
    exact leads_cons
  | arith op a b => exact nomatch hc
  | divide a b => exact nomatch hc
  | power a b => exact nomatch hc

theorem kind_ne (he : (Node.real e).Legible) (hc : e.isClosed = true) :
    e.kind ≠ '(' ∧ e.kind ≠ '~' := by
  cases e with
  | stateSum is => exact (Node.everywhere_iff.1 he).1.elim
  | arith op a b => exact nomatch hc
  | divide a b => exact nomatch hc
  | power a b => exact nomatch hc
  | _ => simp [kind]

/-- A legible expression is closed or a compound. -/
theorem isClosed_or_exists_join (he : (Node.real e).Legible) :
    e.isClosed = true ∨ ∃ (j : Joint) (a b : RealExpr), e = j.join a b := by
  cases e with
  | stateSum is => exact (Node.everywhere_iff.1 he).1.elim
  | arith op a b => exact .inr ⟨.arith op, a, b, rfl⟩
  | divide a b => exact .inr ⟨.divide, a, b, rfl⟩
  | power a b => exact .inr ⟨.power, a, b, rfl⟩
  | _ => exact .inl rfl

end RealExpr

/-- Expressions in infix notation; the sign of a comparison may stand behind one. -/
def expressions : Infix RealExpr Joint where
  text e := e.text.toList
  closed := RealExpr.isClosed
  bare := Joint.bare
  join := Joint.join
  separator := Joint.separator
  Legible e := (Node.real e).Legible
  Same a b := a.sameNumbers b = true
  Follows c := ∃ r : Relation, c = signOf r.symbol
  text_join := RealExpr.toList_text_join
  closed_of_bare _ _ h := Joint.isClosed_of_bare h
  leads e he hc := ⟨e.kind, RealExpr.leads_kind he hc, (RealExpr.kind_ne he hc).1⟩
  separator_append_inj _ _ _ _ h := Joint.separator_append_inj h
  stops_separator j _ := by
    cases j with
    | power => exact stops_cons_iff.2 (.inr (.inr rfl))
    | _ => exact stops_blank _
  not_ends_separator j rest h := by
    rcases j.separator_eq with ⟨-, hj⟩ | ⟨-, hj⟩
    · rw [hj] at h
      exact nomatch h
    · rw [hj] at h
      cases h with
      | sign c cs hc =>
        obtain ⟨r, hr⟩ := hc
        rcases j with (_ | _ | _) | _ | _
        all_goals cases r <;> exact absurd hr (by decide)
  legible_of_join _ _ _ h := Joint.legible_iff.1 h
  same_join _ _ _ _ _ h h' := Joint.sameNumbers_join h h'

/-! ## 3. Uniqueness -/

/-- A name does not go on with a parenthesis. -/
theorem name_append_ne {name : String} (hname : IsName name) {rest cs : List Char}
    (hrest : Stops IsBreak rest) : name.toList ++ rest ≠ 'P' :: 'r' :: '(' :: cs := by
  intro h
  have hstops : Stops (fun c => ¬ c.isAlpha = true) rest := fun c hc halpha =>
    not_isBreak_of_isAlpha halpha (hrest c hc)
  have hletters : ∀ c ∈ ['P', 'r'], ¬ ¬ c.isAlpha = true :=
    List.forall_mem_cons.2 ⟨by decide, List.forall_mem_singleton.2 (by decide)⟩
  have hparenthesis : Stops (fun c => ¬ c.isAlpha = true) ('(' :: cs) :=
    stops_cons_iff.2 (by decide)
  obtain ⟨-, rfl⟩ := append_eq_append_of_stops (fun c hc => not_not.2 (hname.2 c hc)) hletters
    hstops hparenthesis h
  exact absurd (stops_cons_iff.1 hrest) (by decide)

theorem probability_append (s : Sentence) (rest : List Char) :
    (RealExpr.probability s).text.toList ++ rest =
      'P' :: 'r' :: '(' :: (s.text.toList ++ ')' :: rest) := by
  rw [RealExpr.toList_text_probability]
  simp only [List.cons_append, List.append_assoc, List.nil_append]

theorem given_append (s t : Sentence) (rest : List Char) :
    (RealExpr.given s t).text.toList ++ rest = 'P' :: 'r' :: '(' ::
      (s.text.toList ++ ' ' :: '|' :: ' ' :: (t.text.toList ++ ')' :: rest)) := by
  rw [RealExpr.toList_text_given]
  simp only [List.cons_append, List.append_assoc, List.nil_append]

section

variable {s s' t t' : Sentence} {rest rest' : List Char}

/-- **The sentence of a probability is told from the others**, whatever follows it. -/
theorem argument_unique (hs : s.Legible) (hs' : s'.Legible) (hrest : Ends (· = '|') rest)
    (hrest' : Ends (· = '|') rest') (h : 'P' :: 'r' :: '(' :: (s.text.toList ++ rest) =
      'P' :: 'r' :: '(' :: (s'.text.toList ++ rest')) : s = s' ∧ rest = rest' := by
  have htail := (List.cons.inj (List.cons.inj (List.cons.inj h).2).2).2
  exact (sentence_unique hs).2 s' rest rest' hs' hrest hrest' htail

theorem probability_unique (hs : s.Legible) (hs' : s'.Legible)
    (h : (RealExpr.probability s).text.toList ++ rest =
      (RealExpr.probability s').text.toList ++ rest') : s = s' ∧ rest = rest' := by
  rw [probability_append, probability_append] at h
  obtain ⟨hsame, hrests⟩ := argument_unique hs hs' (.parenthesis _) (.parenthesis _) h
  exact ⟨hsame, (List.cons.inj hrests).2⟩

/-- A parenthesis is no bar. -/
theorem probability_ne_given (hs : s.Legible) (hs' : s'.Legible) :
    (RealExpr.probability s).text.toList ++ rest ≠ (RealExpr.given s' t').text.toList ++ rest' := by
  intro h
  rw [probability_append, given_append] at h
  obtain ⟨-, hrests⟩ := argument_unique hs hs' (.parenthesis _) (.sign _ _ rfl) h
  exact absurd (List.cons.inj hrests).1 (by decide)

theorem given_unique (hs : s.Legible) (hs' : s'.Legible) (ht : t.Legible) (ht' : t'.Legible)
    (h : (RealExpr.given s t).text.toList ++ rest = (RealExpr.given s' t').text.toList ++ rest') :
    s = s' ∧ t = t' ∧ rest = rest' := by
  rw [given_append, given_append] at h
  obtain ⟨hargument, hrests⟩ := argument_unique hs hs' (.sign _ _ rfl) (.sign _ _ rfl) h
  have htail := (List.cons.inj (List.cons.inj (List.cons.inj hrests).2).2).2
  obtain ⟨hcondition, hrests'⟩ := (sentence_unique ht).2 t' _ _ ht' (.parenthesis _)
    (.parenthesis _) htail
  exact ⟨hargument, hcondition, (List.cons.inj hrests').2⟩

end

/-- The closed expressions are told apart by their first characters, and those that begin with
    a letter by what follows. -/
theorem expression_closedUnique {e : RealExpr} (he : (Node.real e).Legible)
    (hparts : ∀ a, e = .negative a → expressions.OperandUnique a) :
    expressions.ClosedUnique e := by
  intro hc e' rest rest' he' hc' hrest hrest' h
  have hkind : e.kind = e'.kind :=
    ((RealExpr.leads_kind he hc).append rest).unique
      (h ▸ (RealExpr.leads_kind he' hc').append rest')
  change e.text.toList ++ rest = e'.text.toList ++ rest' at h
  show e.sameNumbers e' = true ∧ rest = rest'
  have hown := (Node.everywhere_iff.1 he).1
  have hown' := (Node.everywhere_iff.1 he').1
  cases e with
  | literal x =>
    cases e' with
    | literal y => exact literal_unique hown hown' hrest hrest' h
    | _ => simp [RealExpr.kind] at hkind
  | var name =>
    cases e' with
    | var name' =>
      obtain ⟨hname, hrests⟩ := append_eq_append_of_stops
        (fun c hc => not_isBreak_of_isAlpha (hown.2 c hc))
        (fun c hc => not_isBreak_of_isAlpha (hown'.2 c hc)) hrest hrest' h
      exact ⟨decide_eq_true (String.toList_inj.1 hname), hrests⟩
    | probability s' =>
      rw [probability_append] at h
      exact absurd h (name_append_ne hown hrest)
    | given s' t' =>
      rw [given_append] at h
      exact absurd h (name_append_ne hown hrest)
    | _ => simp [RealExpr.kind] at hkind
  | stateSum is => exact hown.elim
  | probability s =>
    cases e' with
    | var name' =>
      rw [probability_append] at h
      exact absurd h.symm (name_append_ne hown' hrest')
    | probability s' =>
      obtain ⟨rfl, hrests⟩ := probability_unique hown hown' h
      exact ⟨decide_eq_true rfl, hrests⟩
    | given s' t' => exact absurd h (probability_ne_given hown hown'.1)
    | _ => simp [RealExpr.kind] at hkind
  | given s t =>
    cases e' with
    | var name' =>
      rw [given_append] at h
      exact absurd h.symm (name_append_ne hown' hrest')
    | probability s' => exact absurd h.symm (probability_ne_given hown' hown.1)
    | given s' t' =>
      obtain ⟨rfl, rfl, hrests⟩ := given_unique hown.1 hown'.1 hown.2 hown'.2 h
      refine ⟨?_, hrests⟩
      show (decide (s = s) && decide (t = t)) = true
      rw [decide_eq_true rfl, decide_eq_true rfl]
      rfl
    | _ => simp [RealExpr.kind] at hkind
  | negative a =>
    cases e' with
    | negative a' =>
      rw [RealExpr.toList_text_negative, RealExpr.toList_text_negative] at h
      have hlegible := ((Node.everywhere_single rfl).1 he').2
      exact hparts a rfl _ _ a' rest rest' id id hlegible hrest hrest' (List.cons.inj h).2
    | _ => simp [RealExpr.kind] at hkind
  | arith op a b => exact nomatch hc
  | divide a b => exact nomatch hc
  | power a b => exact nomatch hc

theorem plain_expression {e : RealExpr} (he : (Node.real e).Legible) : expressions.Plain e :=
  e.isClosed_or_exists_join he

/-- A compound is told from the other expressions, if its operands are. -/
theorem join_unique {j : Joint} {a b : RealExpr} (he : (Node.real (j.join a b)).Legible)
    (ha : (Node.real a).Legible → expressions.OperandUnique a ∧ expressions.WholeUnique a)
    (hb : (Node.real b).Legible → expressions.OperandUnique b ∧ expressions.WholeUnique b) :
    expressions.OperandUnique (j.join a b) ∧ expressions.WholeUnique (j.join a b) := by
  obtain ⟨hleft, hright⟩ := Joint.legible_iff.1 he
  refine Infix.unique (fun _ => plain_expression) he (fun hc => ?_) fun j' a' b' heq => ?_
  · exact absurd ((j.isClosed_join a b).symm.trans hc) (by decide)
  · obtain ⟨-, rfl, rfl⟩ := Joint.join_inj heq
    exact ⟨(ha hleft).1, (hb hright).1⟩

/-- A closed expression is told from the other expressions, if what it negates is. -/
theorem closed_unique {e : RealExpr} (he : (Node.real e).Legible) (hc : e.isClosed = true)
    (hparts : ∀ a, e = .negative a → expressions.OperandUnique a) :
    expressions.OperandUnique e ∧ expressions.WholeUnique e := by
  refine Infix.unique (fun _ => plain_expression) he (expression_closedUnique he hparts) ?_
  intro j a b heq
  rw [heq] at hc
  exact absurd ((j.isClosed_join a b).symm.trans hc) (by decide)

/-- **An expression is told from the others** by its text. -/
theorem expression_unique {e : RealExpr} (he : (Node.real e).Legible) :
    expressions.OperandUnique e ∧ expressions.WholeUnique e := by
  induction e with
  | literal x => exact closed_unique he rfl nofun
  | var name => exact closed_unique he rfl nofun
  | stateSum is => exact (Node.everywhere_iff.1 he).1.elim
  | probability s => exact closed_unique he rfl nofun
  | given s t => exact closed_unique he rfl nofun
  | negative a ih =>
    refine closed_unique he rfl fun a' ha' => ?_
    cases ha'
    exact (ih ((Node.everywhere_single rfl).1 he).2).1
  | arith op a b iha ihb => exact join_unique (j := .arith op) he iha ihb
  | divide a b iha ihb => exact join_unique (j := .divide) he iha ihb
  | power a b iha ihb => exact join_unique (j := .power) he iha ihb

/-! ## 4. Same numbers -/

/-- Two expressions are written alike, wherever they stand. -/
structure RealExpr.WrittenAlike (e e' : RealExpr) : Prop where
  closed : e.isClosed = e'.isClosed
  closedInPower : e.isClosedInPower = e'.isClosedInPower
  text : e.text = e'.text

namespace Joint

variable {j : Joint} {a a' b b' e' : RealExpr}

theorem exists_of_sameNumbers (h : (j.join a b).sameNumbers e' = true) :
    ∃ a' b', e' = j.join a' b' ∧ a.sameNumbers a' = true ∧ b.sameNumbers b' = true := by
  cases j with
  | arith op =>
    cases e' with
    | arith op' a' b' =>
      rw [join, RealExpr.sameNumbers, Bool.and_eq_true, Bool.and_eq_true, decide_eq_true_eq] at h
      obtain ⟨⟨rfl, ha⟩, hb⟩ := h
      exact ⟨a', b', rfl, ha, hb⟩
    | _ => exact absurd h Bool.false_ne_true
  | divide =>
    cases e' with
    | divide a' b' => exact ⟨a', b', rfl, Bool.and_eq_true_iff.1 h⟩
    | _ => exact absurd h Bool.false_ne_true
  | power =>
    cases e' with
    | power a' b' => exact ⟨a', b', rfl, Bool.and_eq_true_iff.1 h⟩
    | _ => exact absurd h Bool.false_ne_true

theorem writtenAlike_join (ha : a.WrittenAlike a') (hb : b.WrittenAlike b') :
    (j.join a b).WrittenAlike (j.join a' b') := by
  cases j with
  | arith op =>
    refine ⟨rfl, rfl, ?_⟩
    rw [join, RealExpr.text, RealExpr.text, ha.closed, ha.text, hb.closed, hb.text]
  | divide =>
    refine ⟨rfl, rfl, ?_⟩
    rw [join, RealExpr.text, RealExpr.text, ha.closed, ha.text, hb.closed, hb.text]
  | power =>
    refine ⟨rfl, rfl, ?_⟩
    rw [join, RealExpr.text, RealExpr.text, ha.closedInPower, ha.text, hb.closedInPower, hb.text]

/-- What is said of the operands is said of the compound. -/
theorem writtenAlike_of_sameNumbers (he : (Node.real (j.join a b)).Legible)
    (he' : (Node.real e').Legible) (h : (j.join a b).sameNumbers e' = true)
    (ha : ∀ {a'}, (Node.real a).Legible → (Node.real a').Legible → a.sameNumbers a' = true →
      a.WrittenAlike a')
    (hb : ∀ {b'}, (Node.real b).Legible → (Node.real b').Legible → b.sameNumbers b' = true →
      b.WrittenAlike b') : (j.join a b).WrittenAlike e' := by
  obtain ⟨a', b', rfl, hleft, hright⟩ := exists_of_sameNumbers h
  obtain ⟨hla, hlb⟩ := legible_iff.1 he
  obtain ⟨hla', hlb'⟩ := legible_iff.1 he'
  exact writtenAlike_join (ha hla hla' hleft) (hb hlb hlb' hright)

end Joint

/-- **Expressions with the same numbers are written alike.** -/
theorem RealExpr.writtenAlike_of_sameNumbers {e e' : RealExpr} (he : (Node.real e).Legible)
    (he' : (Node.real e').Legible) (h : e.sameNumbers e' = true) : e.WrittenAlike e' := by
  induction e generalizing e' with
  | literal x =>
    cases e' with
    | literal y =>
      have hx := (Node.everywhere_iff.1 he).1
      have hy := (Node.everywhere_iff.1 he').1
      exact ⟨rfl, rfl, Double.plain_eq_of_beq hx.1 hx.2 hy.1 hy.2 h⟩
    | _ => exact absurd h Bool.false_ne_true
  | var name =>
    cases e' with
    | var name' =>
      obtain rfl := of_decide_eq_true h
      exact ⟨rfl, rfl, rfl⟩
    | _ => exact absurd h Bool.false_ne_true
  | stateSum is => exact (Node.everywhere_iff.1 he).1.elim
  | probability s =>
    cases e' with
    | probability s' =>
      obtain rfl := of_decide_eq_true h
      exact ⟨rfl, rfl, rfl⟩
    | _ => exact absurd h Bool.false_ne_true
  | given s t =>
    cases e' with
    | given s' t' =>
      rw [sameNumbers, Bool.and_eq_true, decide_eq_true_eq, decide_eq_true_eq] at h
      obtain ⟨rfl, rfl⟩ := h
      exact ⟨rfl, rfl, rfl⟩
    | _ => exact absurd h Bool.false_ne_true
  | negative a ih =>
    cases e' with
    | negative a' =>
      have halike := ih ((Node.everywhere_single rfl).1 he).2
        ((Node.everywhere_single rfl).1 he').2 h
      refine ⟨rfl, rfl, ?_⟩
      rw [RealExpr.text, RealExpr.text, halike.closed, halike.text]
    | _ => exact absurd h Bool.false_ne_true
  | arith op a b iha ihb =>
    exact Joint.writtenAlike_of_sameNumbers (j := .arith op) he he' h iha ihb
  | divide a b iha ihb => exact Joint.writtenAlike_of_sameNumbers (j := .divide) he he' h iha ihb
  | power a b iha ihb => exact Joint.writtenAlike_of_sameNumbers (j := .power) he he' h iha ihb

end Credal
