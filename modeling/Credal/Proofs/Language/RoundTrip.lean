import Credal.Language.Tagged
import Credal.Proofs.Steps
import Credal.Proofs.Translation.Form

/-!
# Tagged trees are read back

A node is written as an object with its tag first and its children behind it, and it is read by its
tag, which says what children to ask for. The tags of sentences and of constraints overlap; a
constraint is told from a real expression by its tag, and the tags of these two kinds are apart.

* `require_tagged`, `child_of_require`: a child of an object with a tag is found;
* `Sentence.shapeOf_toJson` and the same for the other kinds: a tree is written under the tag of its
  shape;
* `Sentence.ofJson_toJson`, `RealExpr.ofJson_toJson`, `Constraint.ofJson_toJson`: every tree is read
  back by the reader of its kind;
* `Node.ofJson_toJson`: constraints and real expressions are told apart;
* `constraintsOfJson_bareDocument`, `constraintsOfJson_object`: documents of constraints;
* `trees_are_read_back`: all of it, with the texts of documents.
-/

namespace Credal

/-! ## 1. Objects with a tag -/

section

variable {tag key : String} {fields : List (String × Json)} {value j : Json}

theorem Json.tagOf_tagged : (tagged tag fields).tagOf = .string tag := by
  have h : (("tag", Json.string tag) :: fields).lookup "tag" = some (.string tag) :=
    List.lookup_cons_self
  rw [Json.tagOf, tagged, Json.field?, h]
  rfl

/-- **A field behind the tag is found.** -/
theorem Json.require_tagged (hkey : (key == "tag") = false) (h : fields.lookup key = some value) :
    (tagged tag fields).require key = .ok value := by
  have hfield : (tagged tag fields).field? key = some value := by
    show List.lookup key (("tag", Json.string tag) :: fields) = some value
    rw [List.lookup_cons, hkey]
    exact h
  rw [Json.require, hfield]

theorem Json.require_first (hkey : (key == "tag") = false) :
    (tagged tag ((key, value) :: fields)).require key = .ok value :=
  Json.require_tagged hkey List.lookup_cons_self

theorem Json.require_second {other : String} {v : Json} (hkey : (key == "tag") = false)
    (hother : (key == other) = false) :
    (tagged tag ((other, v) :: (key, value) :: fields)).require key = .ok value := by
  refine Json.require_tagged hkey ?_
  rw [List.lookup_cons, hother]
  exact List.lookup_cons_self

/-- A required child is handed on with its bound. -/
theorem Json.child_of_require (h : j.require key = .ok value) :
    j.child key = .ok ⟨value, Json.sizeOf_require_lt h⟩ := by
  unfold Json.child
  split
  · rename_i v hv
    obtain rfl : v = value := Except.ok.inj (hv.symm.trans h)
    rfl
  · rename_i f hf
    rw [h] at hf
    cases hf

variable {σ : Type} {kind : TreeKind} {ofTag? : String → Option σ}

theorem shapeOf?_tagged : shapeOf? ofTag? (tagged tag fields) = .ok (ofTag? tag) := by
  rw [shapeOf?, Json.tagOf_tagged]
  rfl

/-- **The tag of an object names its shape.** -/
theorem shapeOf_tagged {shape : σ} (h : ofTag? tag = some shape) :
    shapeOf kind ofTag? (tagged tag fields) = .ok shape := by
  rw [shapeOf, shapeOf?_tagged, h]
  rfl

end

/-! ## 2. Shapes -/

/-- The shape of a sentence. -/
def Sentence.shape : Sentence → SentenceShape
  | .value _ => .value
  | .letter _ => .letter
  | .negation _ => .negation
  | .binary k _ _ => .binary k

/-- The shape of an expression. -/
def RealExpr.shape : RealExpr → RealShape
  | .literal _ => .literal
  | .var _ => .var
  | .stateSum _ => .stateSum
  | .probability _ => .probability
  | .given _ _ => .given
  | .negative _ => .negative
  | .arith op _ _ => .arith op
  | .divide _ _ => .divide
  | .power _ _ => .power

/-- The shape of a constraint. -/
def Constraint.shape : Constraint → ConstraintShape
  | .compare r _ _ => .compare r
  | .negation _ => .negation
  | .binary k _ _ => .binary k

/-- **A sentence is written under the tag of its shape.** -/
theorem Sentence.shapeOf_toJson (s : Sentence) :
    shapeOf .sentence SentenceShape.ofTag? s.toJson = .ok s.shape := by
  cases s with
  | value | letter | negation => exact shapeOf_tagged rfl
  | binary k => cases k <;> exact shapeOf_tagged rfl

/-- **An expression is written under the tag of its shape.** -/
theorem RealExpr.shapeOf_toJson (e : RealExpr) :
    shapeOf .real RealShape.ofTag? e.toJson = .ok e.shape := by
  cases e with
  | arith op => cases op <;> exact shapeOf_tagged rfl
  | literal | var | stateSum | probability | given | negative | divide | power =>
    exact shapeOf_tagged rfl

/-- **A constraint is written under the tag of its shape**, whatever kind is named in the fault. -/
theorem Constraint.shapeOf?_toJson (c : Constraint) :
    shapeOf? ConstraintShape.ofTag? c.toJson = .ok (some c.shape) := by
  cases c with
  | compare r => cases r <;> exact shapeOf?_tagged
  | negation => exact shapeOf?_tagged
  | binary k => cases k <;> exact shapeOf?_tagged

theorem Constraint.shapeOf_toJson (c : Constraint) :
    shapeOf .constraint ConstraintShape.ofTag? c.toJson = .ok c.shape := by
  rw [shapeOf, c.shapeOf?_toJson]
  rfl

/-- **No tag of an expression is a tag of constraints.** -/
theorem RealExpr.constraintShapeOf?_toJson (e : RealExpr) :
    shapeOf? ConstraintShape.ofTag? e.toJson = .ok none := by
  cases e with
  | arith op => cases op <;> exact shapeOf?_tagged
  | literal | var | stateSum | probability | given | negative | divide | power =>
    exact shapeOf?_tagged

/-! ## 3. Trees -/

/-- **Sentences are read back.** -/
theorem Sentence.ofJson_toJson (s : Sentence) : Sentence.ofJson s.toJson = .ok s := by
  induction s with
  | value b =>
    rw [Sentence.ofJson, Sentence.shapeOf_toJson]
    rfl
  | letter l =>
    rw [Sentence.ofJson, Sentence.shapeOf_toJson]
    rfl
  | negation s ih =>
    have hchild : s.negation.toJson.require "sentence" = .ok s.toJson := Json.require_first rfl
    rw [Sentence.ofJson, Sentence.shapeOf_toJson]
    simp only [Sentence.shape, Json.child_of_require hchild, ih, bind, Except.bind]
    rfl
  | binary k s t ihs iht =>
    have hleft : (Sentence.binary k s t).toJson.require "left" = .ok s.toJson :=
      Json.require_first rfl
    have hright : (Sentence.binary k s t).toJson.require "right" = .ok t.toJson :=
      Json.require_second rfl rfl
    rw [Sentence.ofJson, Sentence.shapeOf_toJson]
    simp only [Sentence.shape, Json.child_of_require hleft, Json.child_of_require hright, ihs, iht,
      bind, Except.bind]

theorem toItems_mapM_toIndex (is : List Int) : (is.map Json.int).mapM Json.toIndex = .ok is := by
  rw [mapM_eq_ok_iff, List.forall₂_map_left_iff]
  exact List.forall₂_same.2 fun i _ => rfl

/-- A double that is not negative is a literal. -/
theorem RealExpr.ofDouble_eq {x : Float} (h : ¬ x < 0) :
    RealExpr.ofDouble x = .ok (.literal x) := by
  rw [RealExpr.ofDouble, RealExpr.literal?, if_neg h]

/-- **Real expressions are read back** if no literal is negative. -/
theorem RealExpr.ofJson_toJson {e : RealExpr} (hx : ∀ x ∈ e.literals, ¬ x < 0) :
    RealExpr.ofJson e.toJson = .ok e := by
  induction e with
  | literal x =>
    have hvalue : (RealExpr.literal x).toJson.require "value" = .ok (.float x) :=
      Json.require_first rfl
    rw [RealExpr.ofJson, RealExpr.shapeOf_toJson]
    simp only [RealExpr.shape, hvalue, Json.toDouble, bind, Except.bind]
    exact RealExpr.ofDouble_eq (hx x (List.mem_singleton_self x))
  | var name =>
    rw [RealExpr.ofJson, RealExpr.shapeOf_toJson]
    rfl
  | stateSum is =>
    have hindices : (RealExpr.stateSum is).toJson.require "indices" = .ok (.array (is.map .int)) :=
      Json.require_first rfl
    rw [RealExpr.ofJson, RealExpr.shapeOf_toJson]
    simp only [RealExpr.shape, hindices, Json.toItems, toItems_mapM_toIndex, bind, Except.bind]
    rfl
  | probability s =>
    have harg : (RealExpr.probability s).toJson.require "arg" = .ok s.toJson :=
      Json.require_first rfl
    rw [RealExpr.ofJson, RealExpr.shapeOf_toJson]
    simp only [RealExpr.shape, harg, s.ofJson_toJson, bind, Except.bind]
    rfl
  | given s t =>
    have harg : (RealExpr.given s t).toJson.require "arg" = .ok s.toJson := Json.require_first rfl
    have hgiven : (RealExpr.given s t).toJson.require "given" = .ok t.toJson :=
      Json.require_second rfl rfl
    rw [RealExpr.ofJson, RealExpr.shapeOf_toJson]
    simp only [RealExpr.shape, harg, hgiven, s.ofJson_toJson, t.ofJson_toJson, bind, Except.bind]
    rfl
  | negative e ih =>
    have hchild : e.negative.toJson.require "expr" = .ok e.toJson := Json.require_first rfl
    rw [RealExpr.ofJson, RealExpr.shapeOf_toJson]
    simp only [RealExpr.shape, Json.child_of_require hchild, ih hx, bind, Except.bind]
    rfl
  | arith op a b iha ihb =>
    obtain ⟨ha, hb⟩ := List.forall_mem_append.1 hx
    have hleft : (RealExpr.arith op a b).toJson.require "left" = .ok a.toJson :=
      Json.require_first rfl
    have hright : (RealExpr.arith op a b).toJson.require "right" = .ok b.toJson :=
      Json.require_second rfl rfl
    rw [RealExpr.ofJson, RealExpr.shapeOf_toJson]
    simp only [RealExpr.shape, Json.child_of_require hleft, Json.child_of_require hright, iha ha,
      ihb hb, bind, Except.bind]
  | divide a b iha ihb =>
    obtain ⟨ha, hb⟩ := List.forall_mem_append.1 hx
    have hleft : (RealExpr.divide a b).toJson.require "numerator" = .ok a.toJson :=
      Json.require_first rfl
    have hright : (RealExpr.divide a b).toJson.require "denominator" = .ok b.toJson :=
      Json.require_second rfl rfl
    rw [RealExpr.ofJson, RealExpr.shapeOf_toJson]
    simp only [RealExpr.shape, Json.child_of_require hleft, Json.child_of_require hright, iha ha,
      ihb hb, bind, Except.bind]
  | power a b iha ihb =>
    obtain ⟨ha, hb⟩ := List.forall_mem_append.1 hx
    have hleft : (RealExpr.power a b).toJson.require "base" = .ok a.toJson :=
      Json.require_first rfl
    have hright : (RealExpr.power a b).toJson.require "exponent" = .ok b.toJson :=
      Json.require_second rfl rfl
    rw [RealExpr.ofJson, RealExpr.shapeOf_toJson]
    simp only [RealExpr.shape, Json.child_of_require hleft, Json.child_of_require hright, iha ha,
      ihb hb, bind, Except.bind]

/-- **Constraints are read back** if no literal is negative. -/
theorem Constraint.ofJson_toJson {c : Constraint} (hx : ∀ x ∈ c.literals, ¬ x < 0) :
    Constraint.ofJson c.toJson = .ok c := by
  induction c with
  | compare r a b =>
    obtain ⟨ha, hb⟩ := List.forall_mem_append.1 hx
    have hleft : (Constraint.compare r a b).toJson.require "left" = .ok a.toJson :=
      Json.require_first rfl
    have hright : (Constraint.compare r a b).toJson.require "right" = .ok b.toJson :=
      Json.require_second rfl rfl
    rw [Constraint.ofJson, Constraint.shapeOf_toJson]
    simp only [Constraint.shape, hleft, hright, RealExpr.ofJson_toJson ha,
      RealExpr.ofJson_toJson hb, bind, Except.bind]
  | negation c ih =>
    have hchild : c.negation.toJson.require "constraint" = .ok c.toJson := Json.require_first rfl
    rw [Constraint.ofJson, Constraint.shapeOf_toJson]
    simp only [Constraint.shape, Json.child_of_require hchild, ih hx, bind, Except.bind]
    rfl
  | binary k c d ihc ihd =>
    obtain ⟨hc, hd⟩ := List.forall_mem_append.1 hx
    have hleft : (Constraint.binary k c d).toJson.require "left" = .ok c.toJson :=
      Json.require_first rfl
    have hright : (Constraint.binary k c d).toJson.require "right" = .ok d.toJson :=
      Json.require_second rfl rfl
    rw [Constraint.ofJson, Constraint.shapeOf_toJson]
    simp only [Constraint.shape, Json.child_of_require hleft, Json.child_of_require hright, ihc hc,
      ihd hd, bind, Except.bind]

/-- **Constraints and real expressions are told apart** and read back. -/
theorem Node.ofJson_toJson {n : Node} (hx : ∀ x ∈ n.literals, ¬ x < 0) :
    Node.ofJson n.toJson = .ok n := by
  cases n with
  | constraint c =>
    rw [Node.ofJson, Node.toJson, c.shapeOf?_toJson]
    simp only [Constraint.ofJson_toJson hx, bind, Except.bind]
    rfl
  | real e =>
    rw [Node.ofJson, Node.toJson, e.constraintShapeOf?_toJson]
    simp only [RealExpr.ofJson_toJson hx, bind, Except.bind]
    rfl

/-! ## 4. Documents -/

/-- The document of the list of constraints. -/
def bareDocument (cs : List Constraint) : Json := .array (cs.map Constraint.toJson)

/-- The text of a value, in a style, is read as the value. -/
def Json.IsReadBack (style : Json.Style) (j : Json) : Prop := Json.read (j.text style) = .ok j

section

variable {cs : List Constraint} (hx : ∀ c ∈ cs, ∀ x ∈ c.literals, ¬ x < 0)

include hx

/-- **The list of constraints is read back.** -/
theorem constraintsOfJson_bareDocument : constraintsOfJson (bareDocument cs) = .ok cs := by
  show (cs.map Constraint.toJson).mapM Constraint.ofJson = .ok cs
  rw [mapM_eq_ok_iff, List.forall₂_map_left_iff]
  exact List.forall₂_same.2 fun c hc => Constraint.ofJson_toJson (hx c hc)

/-- **So is an object that holds it**, whatever else it holds. -/
theorem constraintsOfJson_object {fields : List (String × Json)}
    (h : fields.lookup "constraints" = some (bareDocument cs)) :
    constraintsOfJson (.object fields) = .ok cs := by
  have hfield : (Json.object fields).require "constraints" = .ok (bareDocument cs) := by
    rw [Json.require, Json.field?, h]
  rw [constraintsOfJson]
  simp only [hfield, bind, Except.bind]
  exact constraintsOfJson_bareDocument hx

end

theorem loadConstraints_eq {text : String} {j : Json} (h : Json.read text = .ok j) :
    loadConstraints text = constraintsOfJson j := by
  rw [loadConstraints, h]

/-- **Every tree is read back from its tagged form** by the reader of its kind, and a node by the
    reader that tells constraints from real expressions. So constraints are loaded from the text of
    their document, and from the text of an object that holds it, in every style in which these
    texts are read back as the values they were written from. Literals are not negative, which
    `RealExpr.literal?` sees to. -/
theorem trees_are_read_back :
    (∀ s : Sentence, Sentence.ofJson s.toJson = .ok s) ∧
    (∀ e : RealExpr, (∀ x ∈ e.literals, ¬ x < 0) →
      RealExpr.ofJson e.toJson = .ok e ∧ Node.ofJson (Node.real e).toJson = .ok (.real e)) ∧
    (∀ c : Constraint, (∀ x ∈ c.literals, ¬ x < 0) →
      Constraint.ofJson c.toJson = .ok c ∧
        Node.ofJson (Node.constraint c).toJson = .ok (.constraint c)) ∧
    ∀ (style : Json.Style) (cs : List Constraint), (∀ c ∈ cs, ∀ x ∈ c.literals, ¬ x < 0) →
      ((bareDocument cs).IsReadBack style → loadConstraints (dumpConstraints style cs) = .ok cs) ∧
      ∀ fields : List (String × Json), fields.lookup "constraints" = some (bareDocument cs) →
        (Json.object fields).IsReadBack style →
          loadConstraints ((Json.object fields).text style) = .ok cs := by
  refine ⟨Sentence.ofJson_toJson, ?_, ?_, ?_⟩
  · intro e hx
    exact ⟨RealExpr.ofJson_toJson hx, Node.ofJson_toJson hx⟩
  · intro c hx
    exact ⟨Constraint.ofJson_toJson hx, Node.ofJson_toJson hx⟩
  · intro style cs hx
    constructor
    · intro hread
      rw [dumpConstraints, ← bareDocument, loadConstraints_eq hread]
      exact constraintsOfJson_bareDocument hx
    · intro fields hfields hread
      rw [loadConstraints_eq hread]
      exact constraintsOfJson_object hx hfields

/-- A negation of constraints with a negation of sentences in it, on one line. -/
theorem trees_are_read_back_of_negations :
    let c : Constraint := .negation
      (.compare .less (.probability (.negation (.value true))) (.literal 0.5))
    (∀ x ∈ c.literals, ¬ x < 0) ∧ Json.IsReadBack .line (bareDocument [c]) ∧
      loadConstraints (dumpConstraints .line [c]) = .ok [c] := by
  intro c
  have hx : ∀ d ∈ [c], ∀ x ∈ d.literals, ¬ x < 0 := by decide +kernel
  have hsome : (Json.read ((bareDocument [c]).text .line)).toOption =
      some (bareDocument [c]) := by decide +kernel
  have hread : Json.IsReadBack .line (bareDocument [c]) := by
    unfold Json.IsReadBack
    cases h : Json.read ((bareDocument [c]).text .line) with
    | ok j =>
      rw [h] at hsome
      exact congrArg Except.ok (Option.some.inj hsome)
    | error f =>
      rw [h] at hsome
      cases hsome
  exact ⟨List.forall_mem_singleton.1 hx, hread, (trees_are_read_back.2.2.2 _ [c] hx).1 hread⟩

end Credal
