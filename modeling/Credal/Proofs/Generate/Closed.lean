import Credal.Generate.Trees
import Credal.Proofs.Evaluation.Answered
import Credal.Proofs.Generate.Depth
import Credal.Proofs.Number.Units

/-!
# Random trees are closed

Whatever is drawn, a random tree has only the letters that it was asked for, and its literals,
exponents, variables and sums of states stay within narrow bounds. So there is nothing undeclared in
it over the table of those letters, and no state that the table has not.

* `Source.IsUnit`: the doubles of a source are from zero up to one;
* `ends_growFrom`: what every shape hands on from its children holds of random trees;
* `Node.Modest`, `Node.ClosedOver`: the bounds of a node, and of all parts of a tree;
* `ends_randomSentence`, `ends_randomReal`, `ends_randomConstraint`: the three kinds of tree, one
  case for each shape;
* `generated_trees_are_closed`: the trees and their evaluation.
-/

namespace Credal

variable {σ τ : Type} {R : Source σ} {letters : List Letter}

/-- Every double of the source is from zero up to one. -/
def Source.IsUnit (R : Source σ) : Prop := ∀ s, 0 ≤ (R.unit s).1 ∧ (R.unit s).1 < 1

theorem congruential_isUnit : congruential.IsUnit := fun s =>
  Number.Double.ofNat_div_unit (congruentialStep s).1.isLt

/-! ## 1. Growing -/

/-- **What holds of random trees**: whatever each shape hands on from its children to the node that
    it builds, if some leaf may be used. -/
theorem ends_growFrom {shapes : List (Shape σ τ)} {sel : Selection} {Q : τ → Prop} {depth : Int}
    (hleaf : ∃ s ∈ usable shapes sel, s.arity = 0) (hdepth : 0 ≤ depth)
    (hbuild : ∀ s ∈ shapes, ∀ vs : Vector τ s.arity.toNat,
      (∀ i : Fin s.arity.toNat, Q vs[i]) → (s.build vs).Ends Q Gen.Never) :
    (growFrom R shapes sel depth).Ends Q Gen.Never := by
  unfold growFrom
  cases hS : shapesOf shapes sel with
  | error f =>
    obtain ⟨s, hs, harity⟩ := hleaf
    exact absurd harity (shapesOf_error_iff.1 ⟨f, hS⟩ s hs)
  | ok S =>
    obtain ⟨hterminals, hfunctions⟩ := of_shapesOf hS
    show (S.growTo R depth).Ends Q Gen.Never
    rw [Shapes.growTo, if_neg (not_lt.2 hdepth)]
    refine Shapes.ends_grow (Q := fun _ => Q) (fun s hs vs => ?_) (fun s hs d vs hkids _ => ?_) _
    · rw [hterminals, List.mem_filter, decide_eq_true_eq] at hs
      obtain ⟨hs, harity⟩ := hs
      refine hbuild s (List.mem_filter.1 hs).1 vs fun i => ?_
      have hi := i.isLt
      omega
    · rw [hfunctions, List.mem_filter] at hs
      refine hbuild s (List.mem_filter.1 hs.1).1 vs fun i => ?_
      obtain ⟨k, -, hQ⟩ := hkids i
      exact hQ

/-! ## 2. Sentences -/

/-- **A random sentence has only the given letters.** -/
theorem ends_randomSentence (hletters : letters ≠ []) {depth : Int} (hdepth : 0 ≤ depth) :
    (randomSentence R letters depth).Ends (fun S => S.letters ⊆ letters) Gen.Never := by
  rw [randomSentence, dif_neg hletters]
  refine ends_growFrom ⟨⟨"value", 0, _⟩, List.mem_cons_self, rfl⟩ hdepth fun s hs vs hkids => ?_
  have hconnective : ∀ name k (vs : Vector Sentence 2), (∀ i : Fin 2, vs[i].letters ⊆ letters) →
      ((connectiveShape name k : Shape σ Sentence).build vs).Ends
        (fun S => S.letters ⊆ letters) Gen.Never := fun name k vs hkids =>
    Gen.ends_pure (List.append_subset.2 ⟨hkids 0, hkids 1⟩)
  simp only [sentenceShapes, List.mem_cons, List.not_mem_nil, or_false] at hs
  rcases hs with rfl | rfl | rfl | rfl | rfl | rfl | rfl
  · exact (Gen.ends_coin R).map fun b _ => List.nil_subset _
  · exact (Gen.ends_pick R hletters).map fun l hl => List.cons_subset.2 ⟨hl, List.nil_subset _⟩
  · exact Gen.ends_pure (hkids (0 : Fin 1))
  · exact hconnective _ _ vs hkids
  · exact hconnective _ _ vs hkids
  · exact hconnective _ _ vs hkids
  · exact hconnective _ _ vs hkids

/-! ## 3. Expressions and constraints -/

namespace Node

/-- The bounds of a node: a literal is from zero to a hundred, a variable has one to three capital
    letters, a sum of states is empty and an exponent is one of the numbers from zero to four. -/
def Modest : Node → Prop
  | .real (.literal x) => 0 ≤ x ∧ x ≤ 100
  | .real (.var name) => 1 ≤ name.length ∧ name.length ≤ 3 ∧ ∀ c ∈ name.toList, c.isUpper = true
  | .real (.stateSum is) => is = []
  | .real (.power _ b) => ∃ k ≤ 4, b = .literal (Float.ofNat k)
  | _ => True

/-- A tree has only the given letters, and all its parts are within their bounds. -/
structure ClosedOver (letters : List Letter) (n : Node) : Prop where
  letters : n.letters ⊆ letters
  modest : n.Everywhere Modest

variable {n m m' : Node}

theorem closedOver_leaf (h : n.children = []) (hletters : n.letters ⊆ letters) (hn : n.Modest) :
    n.ClosedOver letters :=
  ⟨hletters, (everywhere_leaf h).2 hn⟩

theorem ClosedOver.single (h : n.children = [m]) (hletters : n.letters = m.letters)
    (hn : n.Modest) (hm : m.ClosedOver letters) : n.ClosedOver letters :=
  ⟨hletters ▸ hm.letters, (everywhere_single h).2 ⟨hn, hm.modest⟩⟩

theorem ClosedOver.pair (h : n.children = [m, m']) (hletters : n.letters = m.letters ++ m'.letters)
    (hn : n.Modest) (hm : m.ClosedOver letters) (hm' : m'.ClosedOver letters) :
    n.ClosedOver letters :=
  ⟨hletters ▸ List.append_subset.2 ⟨hm.letters, hm'.letters⟩,
    (everywhere_pair h).2 ⟨hn, hm.modest, hm'.modest⟩⟩

end Node

theorem ends_randomName :
    (randomName R).Ends (fun name => (Node.real (.var name)).Modest) Gen.Never := by
  refine (Gen.ends_below R _).bind fun length _ => ?_
  refine (Gen.ends_mapM fun _ _ => Gen.ends_pick R _).bind fun cs hcs => Gen.ends_pure ?_
  obtain ⟨hlength, hmem⟩ := hcs
  rw [List.length_range] at hlength
  have hi := length.isLt
  refine ⟨?_, ?_, fun c hc => ?_⟩
  · rw [String.length_ofList]
    omega
  · rw [String.length_ofList]
    omega
  · rw [String.toList_ofList] at hc
    have hupper : capitals.all (·.isUpper) = true := rfl
    exact List.all_eq_true.1 hupper c (hmem c hc)

/-- The exponents are literals within their bounds themselves. -/
theorem modest_exponent (k : Fin 5) : (Node.real (.literal (Float.ofNat k.val))).Modest := by
  show 0 ≤ Float.ofNat k.val ∧ Float.ofNat k.val ≤ 100
  revert k
  decide +kernel

/-- **A random expression is closed.** -/
theorem ends_randomReal (hR : R.IsUnit) (hletters : letters ≠ []) {sel : Selection}
    (hleaf : ∃ s ∈ usable (realShapes R letters) sel, s.arity = 0) {depth : Int}
    (hdepth : 0 ≤ depth) :
    (randomReal R letters sel depth).Ends (fun e => (Node.real e).ClosedOver letters)
      Gen.Never := by
  refine ends_growFrom hleaf hdepth fun s hs vs hkids => ?_
  have hsentence : (randomSentence R letters leafDepth).Ends (fun S => S.letters ⊆ letters)
      Gen.Never := ends_randomSentence hletters (by decide)
  have harith : ∀ name op (vs : Vector RealExpr 2),
      (∀ i : Fin 2, (Node.real vs[i]).ClosedOver letters) →
      ((arithShape name op : Shape σ RealExpr).build vs).Ends
        (fun e => (Node.real e).ClosedOver letters) Gen.Never := fun name op vs hkids =>
    Gen.ends_pure (.pair rfl rfl trivial (hkids 0) (hkids 1))
  simp only [realShapes, List.mem_cons, List.not_mem_nil, or_false] at hs
  rcases hs with rfl | rfl | rfl | rfl | rfl | rfl | rfl | rfl | rfl | rfl | rfl
  · exact ends_randomName.map fun name hname =>
      Node.closedOver_leaf rfl (List.nil_subset _) hname
  · exact Gen.ends_pure (Node.closedOver_leaf rfl (List.nil_subset _) rfl)
  · have hhundred : Number.Double.toRat? 100 = some 100 := by decide +kernel
    have hdraw : (Gen.uniform R 100).Ends (fun x => (Node.real (.literal x)).Modest) Gen.Never :=
      Gen.Ends.bind (Gen.ends_unit (P := fun x => 0 ≤ x ∧ x < 1) hR) fun x hx =>
        Gen.ends_pure (Number.Double.mul_unit_le hhundred (by norm_num) hx.1 hx.2)
    exact hdraw.map fun x hx => Node.closedOver_leaf rfl (List.nil_subset _) hx
  · exact hsentence.map fun S hS => Node.closedOver_leaf rfl hS trivial
  · refine hsentence.bind fun S hS => hsentence.bind fun T hT => Gen.ends_pure ?_
    exact Node.closedOver_leaf rfl (List.append_subset.2 ⟨hS, hT⟩) trivial
  · exact Gen.ends_pure (.single rfl rfl trivial (hkids (0 : Fin 1)))
  · exact harith _ _ vs hkids
  · exact harith _ _ vs hkids
  · exact harith _ _ vs hkids
  · exact Gen.ends_pure (.pair rfl rfl trivial (hkids (0 : Fin 2)) (hkids (1 : Fin 2)))
  · refine (Gen.ends_below R _).bind fun k _ => Gen.ends_pure ?_
    have hexponent : (Node.real (.literal (Float.ofNat k.val))).ClosedOver letters :=
      Node.closedOver_leaf rfl (List.nil_subset _) (modest_exponent k)
    exact .pair rfl rfl ⟨k.val, Nat.lt_succ_iff.1 k.isLt, rfl⟩ (hkids (0 : Fin 1)) hexponent

/-- **A random constraint is closed.** -/
theorem ends_randomConstraint (hR : R.IsUnit) (hletters : letters ≠ []) {sel : Selection}
    (hleaf : ∃ s ∈ usable (realShapes R letters) sel, s.arity = 0) {depth : Int}
    (hdepth : 0 ≤ depth) :
    (randomConstraint R letters sel depth).Ends (fun c => (Node.constraint c).ClosedOver letters)
      Gen.Never := by
  refine ends_growFrom ⟨relationShape _ "equal" .equal, List.mem_cons_self, rfl⟩ hdepth
    fun s hs vs hkids => ?_
  have hreal := ends_randomReal hR hletters hleaf (by decide : 0 ≤ leafDepth)
  have hrelation : ∀ name r (vs : Vector Constraint 0),
      ((relationShape (randomReal R letters sel leafDepth) name r).build vs).Ends
        (fun c => (Node.constraint c).ClosedOver letters) Gen.Never := fun name r vs =>
    hreal.bind fun a ha => hreal.bind fun b hb => Gen.ends_pure (.pair rfl rfl trivial ha hb)
  have hconnective : ∀ name k (vs : Vector Constraint 2),
      (∀ i : Fin 2, (Node.constraint vs[i]).ClosedOver letters) →
      ((constraintConnectiveShape name k : Shape σ Constraint).build vs).Ends
        (fun c => (Node.constraint c).ClosedOver letters) Gen.Never := fun name k vs hkids =>
    Gen.ends_pure (.pair rfl rfl trivial (hkids 0) (hkids 1))
  simp only [constraintShapes, List.mem_cons, List.not_mem_nil, or_false] at hs
  rcases hs with rfl | rfl | rfl | rfl | rfl | rfl | rfl | rfl | rfl | rfl | rfl
  · exact hrelation _ _ vs
  · exact hrelation _ _ vs
  · exact hrelation _ _ vs
  · exact hrelation _ _ vs
  · exact hrelation _ _ vs
  · exact hrelation _ _ vs
  · exact Gen.ends_pure (.single rfl rfl trivial (hkids (0 : Fin 1)))
  · exact hconnective _ _ vs hkids
  · exact hconnective _ _ vs hkids
  · exact hconnective _ _ vs hkids
  · exact hconnective _ _ vs hkids

/-! ## 4. Evaluation -/

theorem subset_letters_ofLetters (o : LetterOrder) (letters : List Letter) :
    letters ⊆ (TruthTable.ofLetters o letters).letters := fun _ hl =>
  (LetterOrder.sort_perm _ _).mem_iff.2 (mem_distinct.2 hl)

/-- The sums of states of a closed tree are empty. -/
theorem Node.ClosedOver.stateSum_eq_nil {n : Node} (h : n.ClosedOver letters) (p : List Nat)
    (is : List Int) (hp : n.part? p = some (.real (.stateSum is))) : is = [] :=
  h.modest p _ hp

/-- **Random trees are closed.** From every state of every source of doubles from zero up to one,
    for every list of letters that is not empty, for every selection that keeps a leaf and for every
    depth that is not negative: a sentence, an expression and a constraint are generated, with only
    those letters and with all parts within their bounds. Over the table of the letters, in any
    order, and with values for its states and for the variables of the tree, each of them is
    answered in every number system: nothing is undeclared, and no state is missing. -/
theorem generated_trees_are_closed (hR : R.IsUnit) (hletters : letters ≠ []) {sel : Selection}
    (hleaf : ∃ s ∈ usable (realShapes R letters) sel, s.arity = 0) {depth : Int}
    (hdepth : 0 ≤ depth) (st : σ) :
    (∃ S st', (randomSentence R letters depth).run st = (.ok S, st') ∧ S.letters ⊆ letters ∧
      ∀ {α : Type} (A : Arithmetic α) o (v : Assignment α), v.Supplies (.ofLetters o letters) [] →
        Answered v ((RealExpr.probability S).outcome A (.ofLetters o letters) v)) ∧
    (∃ e st', (randomReal R letters sel depth).run st = (.ok e, st') ∧
      (Node.real e).ClosedOver letters ∧
      ∀ {α : Type} (A : Arithmetic α) o (v : Assignment α),
        v.Supplies (.ofLetters o letters) e.reals →
          Answered v (e.outcome A (.ofLetters o letters) v)) ∧
    ∃ c st', (randomConstraint R letters sel depth).run st = (.ok c, st') ∧
      (Node.constraint c).ClosedOver letters ∧
      ∀ {α : Type} (A : Arithmetic α) o (v : Assignment α),
        v.Supplies (.ofLetters o letters) c.reals →
          Answered v (c.outcome A (.ofLetters o letters) v) := by
  refine ⟨?_, ?_, ?_⟩
  · obtain ⟨S, st', hrun, hS⟩ := (ends_randomSentence (R := R) hletters hdepth).exists_ok st
    refine ⟨S, st', hrun, hS, fun A o v hv => ?_⟩
    have hclosed : (Node.real (.probability S)).ClosedOver letters :=
      Node.closedOver_leaf rfl hS trivial
    exact RealExpr.answered_outcome (List.Subset.trans hS (subset_letters_ofLetters o letters))
      hclosed.stateSum_eq_nil hv
  · obtain ⟨e, st', hrun, he⟩ := (ends_randomReal hR hletters hleaf hdepth).exists_ok st
    refine ⟨e, st', hrun, he, fun A o v hv => ?_⟩
    have hletters := List.Subset.trans he.letters (subset_letters_ofLetters o letters)
    exact RealExpr.answered_outcome hletters he.stateSum_eq_nil hv
  · obtain ⟨c, st', hrun, hc⟩ := (ends_randomConstraint hR hletters hleaf hdepth).exists_ok st
    refine ⟨c, st', hrun, hc, fun A o v hv => ?_⟩
    have hletters := List.Subset.trans hc.letters (subset_letters_ofLetters o letters)
    exact Constraint.answered_outcome hletters hc.stateSum_eq_nil hv

/-- A constraint over two letters without sums of states, evaluated where all values are a
    quarter. -/
theorem generated_trees_are_closed_of_two_letters :
    let letters : List Letter := [⟨"A", 0⟩, ⟨"B", 0⟩]
    let sel : Selection := ⟨none, ["state_variable_sum"]⟩
    let v : Assignment Float := ⟨fun _ => some (.number 0.25), fun _ => some (.number 0.25)⟩
    congruential.IsUnit ∧ letters ≠ [] ∧
      (∃ s ∈ usable (realShapes congruential letters) sel, s.arity = 0) ∧
      ∃ c st', (randomConstraint congruential letters sel 3).run 7 = (.ok c, st') ∧
        (Node.constraint c).ClosedOver letters ∧
        Answered v (c.outcome (.double 0) (.ofLetters .byName letters) v) := by
  intro letters sel v
  have hletters : letters ≠ [] := List.cons_ne_nil _ _
  have hleaf : ∃ s ∈ usable (realShapes congruential letters) sel, s.arity = 0 :=
    ⟨⟨"variable", 0, _⟩, List.mem_cons_self, rfl⟩
  obtain ⟨-, -, c, st', hrun, hc, houtcome⟩ :=
    generated_trees_are_closed congruential_isUnit hletters hleaf (by decide : (0 : Int) ≤ 3) 7
  refine ⟨congruential_isUnit, hletters, hleaf, c, st', hrun, hc, ?_⟩
  exact houtcome (.double 0) .byName v ⟨fun _ _ => rfl, fun _ _ => rfl⟩

end Credal
