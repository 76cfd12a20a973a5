import Credal.Proofs.Language.Expressions

/-!
# Texts are unambiguous

A tree can be read off its text, as long as its names are made of letters of the alphabet, its
literals are finite and it has no sum of state variables. For constraints it is to be shown that a
comparison, which begins with an expression, is no compound: behind as many parentheses as the first
operand of a compound has, there stands a negation, with which no expression begins, or a
comparison, which does not end where an expression in parentheses does.

* `operand_ne_expression`: no operand of a constraint is the front of an expression;
* `constraints`, `constraint_unique`: a constraint is told from the others by its text;
* `texts_are_unambiguous`: **trees of one kind have the same text exactly if they are the same**.
-/

namespace Credal

/-! ## 1. Constraints -/

namespace Constraint

theorem toList_text_compare (r : Relation) (a b : RealExpr) : (compare r a b).text.toList =
    a.text.toList ++ (spaced r.symbol ++ b.text.toList) := by
  show (a.text ++ " " ++ r.symbol ++ " " ++ b.text).toList = _
  simp only [String.toList_append, r.toList_symbol, List.append_assoc]
  rfl

theorem text_compare_append (r : Relation) (a b : RealExpr) (rest : List Char) :
    (compare r a b).text.toList ++ rest =
      a.text.toList ++ (spaced r.symbol ++ (b.text.toList ++ rest)) := by
  rw [toList_text_compare, List.append_assoc, List.append_assoc]

theorem toList_text_negation (c : Constraint) :
    (negation c).text.toList = '~' :: wrap c.isClosed c.text.toList := by
  show ("~" ++ operandText c.isClosed c.text).toList = _
  rw [String.toList_append, toList_operandText]
  rfl

theorem toList_text_binary (k : Connective) (c d : Constraint) : (binary k c d).text.toList =
    wrap c.isClosed c.text.toList ++ (spaced k.symbol ++ wrap d.isClosed d.text.toList) := by
  show (operandText c.isClosed c.text ++ " " ++ k.symbol ++ " " ++
    operandText d.isClosed d.text).toList = _
  simp only [String.toList_append, toList_operandText, k.toList_symbol, List.append_assoc]
  rfl

theorem text_binary_append (k : Connective) (c d : Constraint) (rest : List Char) :
    (binary k c d).text.toList ++ rest = wrap c.isClosed c.text.toList ++
      (spaced k.symbol ++ (wrap d.isClosed d.text.toList ++ rest)) := by
  rw [toList_text_binary, List.append_assoc, List.append_assoc]

end Constraint

/-- Constraints in infix notation; nothing but a parenthesis stands behind one. -/
def constraints : Infix Constraint Connective where
  text c := c.text.toList
  closed := Constraint.isClosed
  bare _ := Constraint.isClosed
  join := Constraint.binary
  separator k := spaced k.symbol
  Legible c := (Node.constraint c).Legible
  Same c d := c.sameNumbers d = true
  Follows _ := False
  text_join := Constraint.toList_text_binary
  closed_of_bare _ _ h := h
  leads c _ hc := by
    cases c with
    | negation c =>
      rw [Constraint.toList_text_negation]
      exact ⟨_, leads_cons, by decide⟩
    | _ => exact absurd hc Bool.false_ne_true
  separator_append_inj := Connective.spaced_append_inj
  stops_separator := Connective.stops_spaced
  not_ends_separator k rest h := by
    cases h with
    | sign c cs hc => exact hc
  legible_of_join _ _ _ h := ((Node.everywhere_pair rfl).1 h).2
  same_join k c c' d d' h h' := by
    show (decide (k = k) && c.sameNumbers c' && d.sameNumbers d') = true
    rw [h, h', decide_eq_true rfl]
    rfl

/-- An expression begins with the first character of a closed one, or with a parenthesis and
    an expression. -/
theorem RealExpr.front {e : RealExpr} (he : (Node.real e).Legible) (rest : List Char) :
    (∃ k, Leads k (e.text.toList ++ rest) ∧ k ≠ '(' ∧ k ≠ '~') ∨
      ∃ a rest', (Node.real a).Legible ∧
        e.text.toList ++ rest = '(' :: (a.text.toList ++ ')' :: rest') := by
  rcases isClosed_or_exists_join he with hc | ⟨j, a, b, rfl⟩
  · exact .inl ⟨e.kind, (leads_kind he hc).append rest, kind_ne he hc⟩
  · have ha := (Joint.legible_iff.1 he).1
    rw [text_join_append]
    cases hbare : j.bare a with
    | true =>
      have hc := Joint.isClosed_of_bare hbare
      exact .inl ⟨a.kind, (leads_kind ha hc).append _, kind_ne ha hc⟩
    | false =>
      rw [wrap_false_append]
      exact .inr ⟨a, _, ha, rfl⟩

/-- An expression does not begin with the sign of a negation. -/
theorem expression_ne_negation {e : RealExpr} (he : (Node.real e).Legible) (cs rest : List Char) :
    e.text.toList ++ rest ≠ '~' :: cs := by
  intro h
  rcases e.front he rest with ⟨k, hlead, -, hne⟩ | ⟨a, rest', -, hfront⟩
  · rw [h] at hlead
    exact hne (hlead.unique leads_cons)
  · exact absurd (List.cons.inj (hfront.symm.trans h)).1 (by decide)

/-- Behind the parenthesis with which an expression begins stands an expression. -/
theorem exists_expression_of_parenthesis {e : RealExpr} (he : (Node.real e).Legible)
    {cs rest : List Char} (h : e.text.toList ++ rest = '(' :: cs) :
    ∃ a rest', (Node.real a).Legible ∧ cs = a.text.toList ++ ')' :: rest' := by
  rcases e.front he rest with ⟨k, hlead, hne, -⟩ | ⟨a, rest', ha, hfront⟩
  · rw [h] at hlead
    exact absurd (hlead.unique leads_cons) hne
  · exact ⟨a, rest', ha, (List.cons.inj (h.symm.trans hfront)).2⟩

/-- **No operand of a constraint is the front of an expression.** -/
theorem operand_ne_expression {c : Constraint} (hc : (Node.constraint c).Legible) {e : RealExpr}
    (he : (Node.real e).Legible) (rest rest' : List Char) :
    wrap c.isClosed c.text.toList ++ rest ≠ e.text.toList ++ rest' := by
  intro h
  induction c generalizing e rest rest' with
  | compare r a b =>
    obtain ⟨-, ha, -⟩ := (Node.everywhere_pair rfl).1 hc
    change wrap false _ ++ rest = _ at h
    rw [wrap_false_append] at h
    obtain ⟨a', rest'', ha', h⟩ := exists_expression_of_parenthesis he h.symm
    rw [Constraint.text_compare_append] at h
    obtain ⟨-, hrests⟩ := (expression_unique ha).2 a' _ _ ha' (.sign _ _ ⟨r, rfl⟩)
      (.parenthesis _) h
    exact absurd (List.cons.inj hrests).1 (by decide)
  | negation c =>
    change (Constraint.negation c).text.toList ++ rest = _ at h
    rw [Constraint.toList_text_negation] at h
    exact expression_ne_negation he _ _ h.symm
  | binary k c d ihc ihd =>
    obtain ⟨-, hc, -⟩ := (Node.everywhere_pair rfl).1 hc
    change wrap false _ ++ rest = _ at h
    rw [wrap_false_append] at h
    obtain ⟨a', rest'', ha', h⟩ := exists_expression_of_parenthesis he h.symm
    rw [Constraint.text_binary_append] at h
    exact ihc hc ha' _ _ h

/-- No comparison begins like a negation or a compound. -/
theorem compare_ne_plain {r : Relation} {a b : RealExpr} {c : Constraint}
    (ha : (Node.constraint (.compare r a b)).Legible) (hc : (Node.constraint c).Legible)
    (hplain : constraints.Plain c) (rest rest' : List Char) :
    (Constraint.compare r a b).text.toList ++ rest ≠ c.text.toList ++ rest' := by
  intro h
  have hleft := ((Node.everywhere_pair rfl).1 ha).2.1
  rw [Constraint.text_compare_append] at h
  rcases hplain with hclosed | ⟨k, d, d', rfl⟩
  · cases c with
    | negation d =>
      rw [Constraint.toList_text_negation] at h
      exact expression_ne_negation hleft _ _ h
    | _ => exact nomatch hclosed
  · have hd := ((Node.everywhere_pair rfl).1 hc).2.1
    change _ = (Constraint.binary k d d').text.toList ++ rest' at h
    rw [Constraint.text_binary_append] at h
    exact operand_ne_expression hd hleft _ _ h.symm

theorem Constraint.isCompare_or_plain (c : Constraint) :
    (∃ r a b, c = .compare r a b) ∨ constraints.Plain c := by
  cases c with
  | compare r a b => exact .inl ⟨r, a, b, rfl⟩
  | negation c => exact .inr (.inl rfl)
  | binary k c d => exact .inr (.inr ⟨k, c, d, rfl⟩)

/-- **A comparison is told from the other constraints** by its text. -/
theorem compare_wholeUnique {r : Relation} {a b : RealExpr}
    (hc : (Node.constraint (.compare r a b)).Legible) :
    constraints.WholeUnique (.compare r a b) := by
  intro c' rest rest' hc' hrest hrest' h
  obtain ⟨-, ha, hb⟩ := (Node.everywhere_pair rfl).1 hc
  rcases c'.isCompare_or_plain with ⟨r', a', b', rfl⟩ | hplain
  · obtain ⟨-, ha', hb'⟩ := (Node.everywhere_pair rfl).1 hc'
    change (Constraint.compare r a b).text.toList ++ rest =
      (Constraint.compare r' a' b').text.toList ++ rest' at h
    rw [Constraint.text_compare_append, Constraint.text_compare_append] at h
    obtain ⟨hsame, h⟩ := (expression_unique ha).2 a' _ _ ha' (.sign _ _ ⟨r, rfl⟩)
      (.sign _ _ ⟨r', rfl⟩) h
    obtain ⟨hsign, htail⟩ := spaced_append_inj h
    obtain rfl := Relation.eq_of_signOf_eq hsign
    obtain ⟨hsame', hrests⟩ := (expression_unique hb).2 b' _ _ hb'
      (hrest.mono fun _ => False.elim) (hrest'.mono fun _ => False.elim) htail
    refine ⟨?_, hrests⟩
    show (decide (r = r) && a.sameNumbers a' && b.sameNumbers b') = true
    rw [decide_eq_true rfl, show a.sameNumbers a' = true from hsame,
      show b.sameNumbers b' = true from hsame']
    rfl
  · exact absurd h (compare_ne_plain hc hc' hplain _ _)

/-- **A negation or a compound is told from the other constraints**, if its parts are. -/
theorem plain_unique {c : Constraint} (hc : (Node.constraint c).Legible)
    (hplain : constraints.Plain c) (hclosed : constraints.ClosedUnique c)
    (hparts : ∀ k d d', c = .binary k d d' →
      constraints.OperandUnique d ∧ constraints.OperandUnique d') :
    constraints.OperandUnique c ∧ constraints.WholeUnique c := by
  have hwhole : constraints.WholeUnique c := by
    intro c' rest rest' hc' hrest hrest' h
    rcases c'.isCompare_or_plain with ⟨r, a, b, rfl⟩ | hplain'
    · exact absurd h.symm (compare_ne_plain hc' hc hplain _ _)
    · exact Infix.whole hc hplain hclosed hparts hc' hplain' hrest hrest' h
  exact ⟨Infix.operand hc hclosed hwhole, hwhole⟩

/-- **A constraint is told from the others** by its text. -/
theorem constraint_unique {c : Constraint} (hc : (Node.constraint c).Legible) :
    constraints.OperandUnique c ∧ constraints.WholeUnique c := by
  induction c with
  | compare r a b =>
    have hwhole := compare_wholeUnique hc
    exact ⟨Infix.operand hc (fun hclosed => nomatch hclosed) hwhole, hwhole⟩
  | negation d ih =>
    have hoperand := (ih ((Node.everywhere_single rfl).1 hc).2).1
    refine plain_unique hc (.inl rfl) ?_ nofun
    intro _ c' rest rest' hc' hclosed' hrest hrest' h
    cases c' with
    | negation d' =>
      change (Constraint.negation d).text.toList ++ rest =
        (Constraint.negation d').text.toList ++ rest' at h
      rw [Constraint.toList_text_negation, Constraint.toList_text_negation] at h
      exact hoperand _ _ d' rest rest' id id ((Node.everywhere_single rfl).1 hc').2 hrest hrest'
        (List.cons.inj h).2
    | _ => exact nomatch hclosed'
  | binary k d d' ih ih' =>
    obtain ⟨-, hd, hd'⟩ := (Node.everywhere_pair rfl).1 hc
    refine plain_unique hc (.inr ⟨k, d, d', rfl⟩) (fun hclosed => nomatch hclosed) ?_
    intro k' a b heq
    cases heq
    exact ⟨(ih hd).1, (ih' hd').1⟩

/-- **Constraints with the same numbers have one text**, and need parentheses in the same places. -/
theorem Constraint.text_eq_of_sameNumbers {c d : Constraint} (hc : (Node.constraint c).Legible)
    (hd : (Node.constraint d).Legible) (h : c.sameNumbers d = true) :
    c.isClosed = d.isClosed ∧ c.text = d.text := by
  induction c generalizing d with
  | compare r a b =>
    cases d with
    | compare r' a' b' =>
      obtain ⟨-, ha, hb⟩ := (Node.everywhere_pair rfl).1 hc
      obtain ⟨-, ha', hb'⟩ := (Node.everywhere_pair rfl).1 hd
      rw [sameNumbers, Bool.and_eq_true, Bool.and_eq_true, decide_eq_true_eq] at h
      obtain ⟨⟨rfl, hleft⟩, hright⟩ := h
      refine ⟨rfl, ?_⟩
      rw [text, text, (RealExpr.writtenAlike_of_sameNumbers ha ha' hleft).text,
        (RealExpr.writtenAlike_of_sameNumbers hb hb' hright).text]
    | _ => exact absurd h Bool.false_ne_true
  | negation c ih =>
    cases d with
    | negation d =>
      obtain ⟨hclosed, htext⟩ := ih ((Node.everywhere_single rfl).1 hc).2
        ((Node.everywhere_single rfl).1 hd).2 h
      refine ⟨rfl, ?_⟩
      rw [text, text, hclosed, htext]
    | _ => exact absurd h Bool.false_ne_true
  | binary k c c' ih ih' =>
    cases d with
    | binary k' d d' =>
      obtain ⟨-, hleft, hright⟩ := (Node.everywhere_pair rfl).1 hc
      obtain ⟨-, hleft', hright'⟩ := (Node.everywhere_pair rfl).1 hd
      rw [sameNumbers, Bool.and_eq_true, Bool.and_eq_true, decide_eq_true_eq] at h
      obtain ⟨⟨rfl, hsame⟩, hsame'⟩ := h
      obtain ⟨hclosed, htext⟩ := ih hleft hleft' hsame
      obtain ⟨hclosed', htext'⟩ := ih' hright hright' hsame'
      refine ⟨rfl, ?_⟩
      rw [text, text, hclosed, htext, hclosed', htext']
    | _ => exact absurd h Bool.false_ne_true

/-! ## 2. Trees -/

/-- **Texts are unambiguous.** Two sentences, two expressions or two constraints have the same text
    exactly if they are the same, their literals compared as numbers. -/
theorem texts_are_unambiguous :
    (∀ s t : Sentence, s.Legible → t.Legible → (s.text = t.text ↔ s = t)) ∧
      (∀ a b : RealExpr, (Node.real a).Legible → (Node.real b).Legible →
        (a.text = b.text ↔ a.sameNumbers b = true)) ∧
      ∀ c d : Constraint, (Node.constraint c).Legible → (Node.constraint d).Legible →
        (c.text = d.text ↔ c.sameNumbers d = true) := by
  have hchars : ∀ {t t' : String}, t = t' → t.toList ++ [] = t'.toList ++ [] := fun h => h ▸ rfl
  refine ⟨fun s t hs ht => ⟨fun h => ?_, congrArg _⟩, fun a b ha hb => ⟨fun h => ?_, fun h => ?_⟩,
    fun c d hc hd => ⟨fun h => ?_, fun h => ?_⟩⟩
  · exact ((sentence_unique hs).2 t [] [] ht .nil .nil (hchars h)).1
  · exact ((expression_unique ha).2 b [] [] hb .nil .nil (hchars h)).1
  · exact (RealExpr.writtenAlike_of_sameNumbers ha hb h).text
  · exact ((constraint_unique hc).2 d [] [] hd .nil .nil (hchars h)).1
  · exact (Constraint.text_eq_of_sameNumbers hc hd h).2

/-- The two zeros have one text. -/
theorem texts_are_unambiguous_of_zeros :
    let s : Sentence := .binary .conditional (.negation (.letter ⟨"A", 1⟩)) (.value true)
    let a : Float → RealExpr := fun x => .power (.negative (.var "x")) (.literal x)
    let c : Float → Constraint := fun x => .compare .lessEqual (a x) (.probability s)
    (s.text = "~A1 → ⊤" ∧ s = s) ∧
      ((a 0).text = "(-x)^0" ∧ (a (-0)).text = "(-x)^0" ∧ (a 0).sameNumbers (a (-0)) = true) ∧
        (c 0).text = "(-x)^0 ≤ Pr(~A1 → ⊤)" ∧ (c 0).sameNumbers (c (-0)) = true := by
  intro s a c
  have hs : s.Legible := by
    intro l hl
    obtain rfl := List.mem_singleton.1 hl
    exact ⟨⟨List.cons_ne_nil 'A' [], List.forall_mem_singleton.2 (by decide)⟩, by decide⟩
  have hname : IsName "x" := ⟨List.cons_ne_nil 'x' [], List.forall_mem_singleton.2 (by decide)⟩
  have hvar : (Node.real (.var "x")).Legible := (Node.everywhere_leaf rfl).2 hname
  have hnegative : (Node.real (.negative (.var "x"))).Legible :=
    (Node.everywhere_single rfl).2 ⟨trivial, hvar⟩
  have ha : ∀ x : Float, x.isFinite = true ∧ ¬ x < 0 → (Node.real (a x)).Legible := by
    intro x hx
    have hliteral : (Node.real (.literal x)).Legible := (Node.everywhere_leaf rfl).2 hx
    exact (Node.everywhere_pair rfl).2 ⟨trivial, hnegative, hliteral⟩
  have hc : ∀ x : Float, x.isFinite = true ∧ ¬ x < 0 → (Node.constraint (c x)).Legible := by
    intro x hx
    have hprobability : (Node.real (.probability s)).Legible := (Node.everywhere_leaf rfl).2 hs
    exact (Node.everywhere_pair rfl).2 ⟨trivial, ha x hx, hprobability⟩
  have hzero : (0 : Float).isFinite = true ∧ ¬ (0 : Float) < 0 := by decide +kernel
  have hzero' : (-0 : Float).isFinite = true ∧ ¬ (-0 : Float) < 0 := by decide +kernel
  have htext : (a 0).text = "(-x)^0" ∧ (a (-0)).text = "(-x)^0" := by decide +kernel
  have hconstraint : (c 0).text = (c (-0)).text := by decide +kernel
  obtain ⟨hsentences, hexpressions, hconstraints⟩ := texts_are_unambiguous
  have hsame := (hexpressions _ _ (ha 0 hzero) (ha (-0) hzero')).1 (htext.1.trans htext.2.symm)
  have hsame' := (hconstraints _ _ (hc 0 hzero) (hc (-0) hzero')).1 hconstraint
  exact ⟨⟨by decide +kernel, (hsentences s s hs hs).1 rfl⟩, ⟨htext.1, htext.2, hsame⟩,
    by decide +kernel, hsame'⟩

end Credal
