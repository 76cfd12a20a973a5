import Credal.Language.Tagged
import Credal.Proofs.Number.Comparisons
import Credal.Proofs.Steps
import Credal.Proofs.Translation.Form

/-!
# Documents that are refused

A document of constraints is read or there is a fault. Most faults report what is wrong with the
document: a tag that is not known, a child that is not there, a literal that is no numeral or that
is negative. A fault that reports nothing comes from some node of the document whose tag, index,
list of indices or literal is a value without the type or the range that is asked for.

* `TreeFault.IsReported`: the faults that report what is wrong;
* `Json.IsPartOf`, `Json.Breaks`: the values in a value, and the nodes that other faults come from;
* `Settled`: a step that has a result, or a fault of one of the two sorts; `Settled.bind`;
* `settled_sentence`, `settled_real`, `settled_constraint`: trees, by induction on the value;
* `documents_are_read_or_refused`: whole documents.
-/

namespace Credal

open Credal.Number

/-- The fault reports what is wrong with the document. -/
def TreeFault.IsReported : TreeFault → Prop
  | .unknownTag _ _ | .missing _ _ | .notNumeral _ | .negativeLiteral _ | .invalidJson | .notList =>
    True
  | .wrongType | .notInteger _ | .notANumber | .tooLarge => False

namespace Json

/-- A value is another one or stands somewhere in it. -/
inductive IsPartOf (k : Json) : Json → Prop
  | refl : IsPartOf k k
  | item {j : Json} {items : List Json} (hj : IsPartOf k j) (h : j ∈ items) :
    IsPartOf k (.array items)
  | field {key : String} {j : Json} {fields : List (String × Json)} (hj : IsPartOf k j)
    (h : (key, j) ∈ fields) : IsPartOf k (.object fields)

/-- The value is a list or an object. -/
def IsCollection : Json → Prop
  | .array _ | .object _ => True
  | _ => False

/-- A value that is no index, and the fault of it. -/
inductive NoIndex : Json → TreeFault → Prop
  | null : NoIndex .null .wrongType
  | collection {j : Json} (h : j.IsCollection) : NoIndex j .wrongType
  | text {s : String} {f : IntegerFault} (h : readInteger s = .error f) :
    NoIndex (.string s) (.notInteger f)
  | unpaired {ps : List Nat} :
    NoIndex (.unpaired ps) (.notInteger (.malformed (Text.quotedPoints ps)))
  | notANumber {x : Float} (h : x.isNaN = true) : NoIndex (.float x) .notANumber
  | tooLarge {x : Float} (h : Double.truncate? x = none) (hx : x.isNaN = false) :
    NoIndex (.float x) .tooLarge

/-- The value is nothing that has items. -/
def IsItemless : Json → Prop
  | .null | .bool _ | .int _ | .float _ => True
  | _ => False

/-- A value that is no double, not even the text of one, and the fault of it. -/
inductive NoDouble : Json → TreeFault → Prop
  | null : NoDouble .null .wrongType
  | collection {j : Json} (h : j.IsCollection) : NoDouble j .wrongType
  | tooLarge {i : Int} (h : Double.ofInt? i = none) : NoDouble (.int i) .tooLarge

/-- A node that a fault comes from which reports nothing. -/
inductive Breaks (node : Json) : TreeFault → Prop
  | tag {t : Json} (h : node.field? "tag" = some t) (ht : t.IsCollection) : Breaks node .wrongType
  | index {v : Json} {f : TreeFault} (htag : node.field? "tag" = some (.string "letter"))
    (h : node.field? "index" = some v) (hv : v.NoIndex f) : Breaks node f
  | indices {v : Json} (htag : node.field? "tag" = some (.string "state_variable_sum"))
    (h : node.field? "indices" = some v) (hv : v.IsItemless) : Breaks node .wrongType
  | item {v i : Json} {items : List Json} {f : TreeFault}
    (htag : node.field? "tag" = some (.string "state_variable_sum"))
    (h : node.field? "indices" = some v) (hv : v.toItems = .ok items) (hi : i ∈ items)
    (hf : i.NoIndex f) : Breaks node f
  | value {v : Json} {f : TreeFault} (htag : node.field? "tag" = some (.string "literal"))
    (h : node.field? "value" = some v) (hv : v.NoDouble f) : Breaks node f

end Json

variable {α β σ : Type} {j k : Json} {P : α → Prop} {Q : β → Prop} {f : TreeFault}

/-- A step has a result with a property, or a fault that reports what is wrong, or one that comes
    from a node in the value. -/
def Settled (j : Json) (P : α → Prop) : Except TreeFault α → Prop
  | .ok a => P a
  | .error f => f.IsReported ∨ ∃ k : Json, k.IsPartOf j ∧ k.Breaks f

namespace Settled

variable {x : Except TreeFault α}

theorem bind {g : α → Except TreeFault β} (h : Settled j P x) (hg : ∀ a, P a → Settled j Q (g a)) :
    Settled j Q (x >>= g) := by
  cases x with
  | error f => exact h
  | ok a => exact hg a h

theorem map {g : α → β} (h : Settled j P x) (hg : ∀ a, P a → Q (g a)) :
    Settled j Q (g <$> x) := by
  cases x with
  | error f => exact h
  | ok a => exact hg a h

theorem mono {P' : α → Prop} (h : Settled j P x) (hP : ∀ a, P a → P' a) : Settled j P' x := by
  cases x with
  | error f => exact h
  | ok a => exact hP a h

theorem reported {f : TreeFault} (h : f.IsReported) : Settled j P (.error f) := .inl h

theorem breaks {f : TreeFault} (h : j.Breaks f) : Settled j P (.error f) := .inr ⟨j, .refl, h⟩

end Settled

/-- One step for each item of a list. -/
theorem settled_mapM {g : β → Except TreeFault α} {xs : List β}
    (h : ∀ x ∈ xs, Settled j P (g x)) : Settled j (fun ys => ∀ y ∈ ys, P y) (xs.mapM g) := by
  induction xs with
  | nil => exact List.forall_mem_nil _
  | cons x xs ih =>
    obtain ⟨hx, hxs⟩ := List.forall_mem_cons.1 h
    rw [List.mapM_cons]
    exact hx.bind fun y hy => (ih hxs).bind fun ys hys => List.forall_mem_cons.2 ⟨hy, hys⟩

/-! ## 1. Fields -/

namespace Json

theorem IsPartOf.trans {l : Json} (h : k.IsPartOf j) (h' : j.IsPartOf l) : k.IsPartOf l := by
  induction h' with
  | refl => exact h
  | item _ hmem ih => exact .item ih hmem
  | field _ hmem ih => exact .field ih hmem

/-- The fields of a node are parts of it. -/
theorem isPartOf_of_field? {key : String} (h : j.field? key = some k) : k.IsPartOf j := by
  unfold field? at h
  split at h
  · obtain ⟨before, after, rfl, -⟩ := List.lookup_eq_some_iff.1 h
    exact .field .refl (List.mem_append_cons_self)
  · exact nomatch h

/-- A part of a value is settled in the value. -/
theorem IsPartOf.settled {x : Except TreeFault α} (h : k.IsPartOf j) (hx : Settled k P x) :
    Settled j P x := by
  cases x with
  | ok a => exact hx
  | error f =>
    refine hx.imp_right fun hpart => ?_
    obtain ⟨l, hl, hbreaks⟩ := hpart
    exact ⟨l, hl.trans h, hbreaks⟩

theorem settled_require (j : Json) (key : String) :
    Settled j (fun v => j.field? key = some v) (j.require key) := by
  unfold require
  split
  · rename_i v hv
    exact hv
  · exact .reported trivial

theorem settled_child (j : Json) (key : String) :
    Settled j (fun v => j.field? key = some v.1) (j.child key) := by
  unfold child
  split
  · rename_i v hv
    have h := j.settled_require key
    rw [hv] at h
    exact h
  · rename_i f hf
    have h := j.settled_require key
    rw [hf] at h
    exact h

end Json

/-- **The tag of a node** names a shape, or it is not known, or it is a list or an object. -/
theorem settled_shapeOf (kind : TreeKind) (ofTag? : String → Option σ) (j : Json) :
    Settled j (fun shape => ∃ tag, j.field? "tag" = some (.string tag) ∧ ofTag? tag = some shape)
      (shapeOf kind ofTag? j) := by
  cases htag : j.field? "tag" with
  | none =>
    rw [shapeOf, shapeOf?, Json.tagOf, htag]
    exact .reported trivial
  | some t =>
    cases t with
    | string tag =>
      have hread : shapeOf? ofTag? j = .ok (ofTag? tag) := by
        rw [shapeOf?, Json.tagOf, htag]
        rfl
      rw [shapeOf, hread]
      cases hshape : ofTag? tag with
      | none => exact .reported trivial
      | some shape => exact ⟨tag, rfl, hshape⟩
    | array items =>
      rw [shapeOf, shapeOf?, Json.tagOf, htag]
      exact .breaks (.tag htag trivial)
    | object fields =>
      rw [shapeOf, shapeOf?, Json.tagOf, htag]
      exact .breaks (.tag htag trivial)
    | _ =>
      rw [shapeOf, shapeOf?, Json.tagOf, htag]
      exact .reported trivial

/-! ## 2. Leaves -/

namespace Json

/-- A value is an index or the fault is that of one that is none. -/
theorem noIndex_of_toIndex {f : TreeFault} (h : j.toIndex = .error f) : j.NoIndex f := by
  unfold toIndex at h
  split at h
  · exact nomatch h
  · exact nomatch h
  · rename_i x
    split at h
    · exact nomatch h
    · rename_i hnone
      obtain rfl := Except.error.inj h
      cases hx : x.isNaN with
      | true => exact .notANumber hx
      | false => exact .tooLarge hnone hx
  · split at h
    · exact nomatch h
    · rename_i hread
      obtain rfl := Except.error.inj h
      exact .text hread
  · obtain rfl := Except.error.inj h
    exact .unpaired
  · obtain rfl := Except.error.inj h
    exact .null
  · obtain rfl := Except.error.inj h
    exact .collection trivial
  · obtain rfl := Except.error.inj h
    exact .collection trivial

theorem itemless_of_toItems {f : TreeFault} (h : j.toItems = .error f) :
    j.IsItemless ∧ f = .wrongType := by
  cases j with
  | array | string | unpaired | object => exact nomatch h
  | null | bool | int | float => exact ⟨trivial, (Except.error.inj h).symm⟩

/-- A text that is no numeral is reported; other values that are no doubles are not. -/
theorem noDouble_of_toDouble {f : TreeFault} (h : j.toDouble = .error f) :
    f.IsReported ∨ j.NoDouble f := by
  unfold toDouble at h
  split at h
  · exact nomatch h
  · split at h
    · exact nomatch h
    · rename_i hnone
      obtain rfl := Except.error.inj h
      exact .inr (.tooLarge hnone)
  · exact nomatch h
  · split at h
    · exact nomatch h
    · obtain rfl := Except.error.inj h
      exact .inl trivial
  · obtain rfl := Except.error.inj h
    exact .inl trivial
  · obtain rfl := Except.error.inj h
    exact .inr .null
  · obtain rfl := Except.error.inj h
    exact .inr (.collection trivial)
  · obtain rfl := Except.error.inj h
    exact .inr (.collection trivial)

end Json

theorem SentenceShape.eq_of_ofTag?_letter {tag : String} (h : ofTag? tag = some .letter) :
    tag = "letter" := by
  grind [ofTag?, Option.map_eq_some_iff]

theorem RealShape.eq_of_ofTag?_literal {tag : String} (h : ofTag? tag = some .literal) :
    tag = "literal" := by
  grind [ofTag?, Option.map_eq_some_iff]

theorem RealShape.eq_of_ofTag?_stateSum {tag : String} (h : ofTag? tag = some .stateSum) :
    tag = "state_variable_sum" := by
  grind [ofTag?, Option.map_eq_some_iff]

/-- The index of a letter is zero where it is not given. -/
theorem settled_index (htag : j.field? "tag" = some (.string "letter")) :
    Settled j (fun _ => True) ((j.field? "index").getD (.int 0)).toIndex := by
  cases h : ((j.field? "index").getD (.int 0)).toIndex with
  | ok i => trivial
  | error f =>
    cases hindex : j.field? "index" with
    | none =>
      rw [hindex] at h
      exact nomatch h
    | some v =>
      rw [hindex] at h
      exact .breaks (.index htag hindex (Json.noIndex_of_toIndex h))

/-- No literal is negative. -/
def NoNegative (xs : List Float) : Prop := ∀ x ∈ xs, 0 ≤ x ∨ x.isNaN = true

theorem settled_indices {v : Json} (htag : j.field? "tag" = some (.string "state_variable_sum"))
    (hv : j.field? "indices" = some v) :
    Settled j (fun e => NoNegative e.literals)
      (do RealExpr.stateSum <$> (← v.toItems).mapM Json.toIndex) := by
  cases hitems : v.toItems with
  | error f =>
    obtain ⟨hitemless, rfl⟩ := Json.itemless_of_toItems hitems
    exact .breaks (.indices htag hv hitemless)
  | ok items =>
    have hindices : Settled j (fun is => ∀ i ∈ is, True) (items.mapM Json.toIndex) := by
      refine settled_mapM fun i hi => ?_
      cases h : i.toIndex with
      | ok k => trivial
      | error f => exact .breaks (.item htag hv hitems hi (Json.noIndex_of_toIndex h))
    exact hindices.map fun _ _ => List.forall_mem_nil _

theorem settled_literal {v : Json} (htag : j.field? "tag" = some (.string "literal"))
    (hv : j.field? "value" = some v) :
    Settled j (fun e => NoNegative e.literals) (do RealExpr.ofDouble (← v.toDouble)) := by
  cases h : v.toDouble with
  | error f =>
    rcases Json.noDouble_of_toDouble h with hreported | hnone
    · exact .reported hreported
    · exact .breaks (.value htag hv hnone)
  | ok x =>
    show Settled j _ (RealExpr.ofDouble x)
    unfold RealExpr.ofDouble RealExpr.literal?
    by_cases hx : x < 0
    · rw [if_pos hx]
      exact .reported trivial
    · rw [if_neg hx]
      exact List.forall_mem_singleton.2 (Double.nonneg_or_isNaN hx)

/-! ## 3. Trees -/

section

variable {read : Json → Except TreeFault α}

/-- **A child** is settled in its node. -/
theorem settled_one (make : α → β)
    (hread : ∀ v : Json, sizeOf v < sizeOf j → Settled v P (read v))
    (hmake : ∀ a, P a → Q (make a)) (key : String) :
    Settled j Q (do
      let v ← j.child key
      make <$> read v.1) := by
  refine (j.settled_child key).bind fun v hv => ?_
  exact ((Json.isPartOf_of_field? hv).settled (hread v.1 v.2)).map hmake

/-- **Two children** are settled one after the other. -/
theorem settled_two (make : α → α → β)
    (hread : ∀ v : Json, sizeOf v < sizeOf j → Settled v P (read v))
    (hmake : ∀ a b, P a → P b → Q (make a b)) (left right : String) :
    Settled j Q (do
      let v ← j.child left
      let a ← read v.1
      let w ← j.child right
      let b ← read w.1
      .ok (make a b)) := by
  refine (j.settled_child left).bind fun v hv => ?_
  refine ((Json.isPartOf_of_field? hv).settled (hread v.1 v.2)).bind fun a ha => ?_
  refine (j.settled_child right).bind fun w hw => ?_
  exact ((Json.isPartOf_of_field? hw).settled (hread w.1 w.2)).bind fun b hb => hmake a b ha hb

end

/-- **Sentences** are settled. -/
theorem settled_sentence (j : Json) : Settled j (fun _ => True) (Sentence.ofJson j) := by
  induction h : sizeOf j using Nat.strong_induction_on generalizing j with
  | h n ih =>
    have hread : ∀ v : Json, sizeOf v < sizeOf j → Settled v (fun _ => True) (Sentence.ofJson v) :=
      fun v hv => ih _ (h ▸ hv) v rfl
    rw [Sentence.ofJson]
    refine (settled_shapeOf _ _ j).bind fun shape hshape => ?_
    obtain ⟨tag, htag, hshape⟩ := hshape
    cases shape with
    | value =>
      exact ((j.settled_require "value").map (Q := fun _ => True) fun _ _ => trivial).map
        fun _ _ => trivial
    | letter =>
      obtain rfl := SentenceShape.eq_of_ofTag?_letter hshape
      exact (j.settled_require "id").bind fun id _ => (settled_index htag).bind fun i _ => trivial
    | negation => exact settled_one Sentence.negation hread (fun _ _ => trivial) "sentence"
    | binary k =>
      exact settled_two (Sentence.binary k) hread (fun _ _ _ _ => trivial) "left" "right"

/-- The sentence under a key. -/
theorem settled_sentence_of_field? {key : String} (h : j.field? key = some k) :
    Settled j (fun _ => True) (Sentence.ofJson k) :=
  (Json.isPartOf_of_field? h).settled (settled_sentence k)

/-- **Expressions** are settled, and no literal of one is negative. -/
theorem settled_real (j : Json) :
    Settled j (fun e => NoNegative e.literals) (RealExpr.ofJson j) := by
  induction h : sizeOf j using Nat.strong_induction_on generalizing j with
  | h n ih =>
    have hread : ∀ v : Json, sizeOf v < sizeOf j →
        Settled v (fun e => NoNegative e.literals) (RealExpr.ofJson v) :=
      fun v hv => ih _ (h ▸ hv) v rfl
    have hboth : ∀ a b : RealExpr, NoNegative a.literals → NoNegative b.literals →
        NoNegative (a.literals ++ b.literals) := fun a b ha hb =>
      List.forall_mem_append.2 ⟨ha, hb⟩
    have hnone : NoNegative [] := List.forall_mem_nil _
    rw [RealExpr.ofJson]
    refine (settled_shapeOf _ _ j).bind fun shape hshape => ?_
    obtain ⟨tag, htag, hshape⟩ := hshape
    cases shape with
    | literal =>
      obtain rfl := RealShape.eq_of_ofTag?_literal hshape
      exact (j.settled_require "value").bind fun v hv => settled_literal htag hv
    | var => exact (j.settled_require "id").bind fun id _ => hnone
    | stateSum =>
      obtain rfl := RealShape.eq_of_ofTag?_stateSum hshape
      exact (j.settled_require "indices").bind fun v hv => settled_indices htag hv
    | probability =>
      exact (j.settled_require "arg").bind fun v hv =>
        (settled_sentence_of_field? hv).map fun _ _ => hnone
    | given =>
      refine (j.settled_require "arg").bind fun v hv => ?_
      refine (settled_sentence_of_field? hv).bind fun S _ => ?_
      exact (j.settled_require "given").bind fun w hw =>
        (settled_sentence_of_field? hw).map fun _ _ => hnone
    | negative => exact settled_one RealExpr.negative hread (fun _ ha => ha) "expr"
    | arith op => exact settled_two (RealExpr.arith op) hread hboth "left" "right"
    | divide => exact settled_two RealExpr.divide hread hboth "numerator" "denominator"
    | power => exact settled_two RealExpr.power hread hboth "base" "exponent"

/-- **Constraints** are settled, and no literal of one is negative. -/
theorem settled_constraint (j : Json) :
    Settled j (fun c => NoNegative c.literals) (Constraint.ofJson j) := by
  induction h : sizeOf j using Nat.strong_induction_on generalizing j with
  | h n ih =>
    have hread : ∀ v : Json, sizeOf v < sizeOf j →
        Settled v (fun c => NoNegative c.literals) (Constraint.ofJson v) :=
      fun v hv => ih _ (h ▸ hv) v rfl
    rw [Constraint.ofJson]
    refine (settled_shapeOf _ _ j).bind fun shape hshape => ?_
    cases shape with
    | compare r =>
      refine (j.settled_require "left").bind fun v hv => ?_
      refine ((Json.isPartOf_of_field? hv).settled (settled_real v)).bind fun a ha => ?_
      refine (j.settled_require "right").bind fun w hw => ?_
      exact ((Json.isPartOf_of_field? hw).settled (settled_real w)).bind fun b hb =>
        List.forall_mem_append.2 ⟨ha, hb⟩
    | negation => exact settled_one Constraint.negation hread (fun _ hc => hc) "constraint"
    | binary k =>
      exact settled_two (Constraint.binary k) hread
        (fun _ _ hc hd => List.forall_mem_append.2 ⟨hc, hd⟩) "left" "right"

/-! ## 4. Documents -/

/-- The items of a list in a document. -/
theorem settled_items {items : List Json} (h : (Json.array items).IsPartOf j) :
    Settled j (fun cs => ∀ c ∈ cs, NoNegative c.literals) (items.mapM Constraint.ofJson) := by
  refine settled_mapM fun c hc => ?_
  have hitem : c.IsPartOf (.array items) := .item .refl hc
  exact (hitem.trans h).settled (settled_constraint c)

/-- **The constraints of a document** are settled. -/
theorem settled_constraints (j : Json) :
    Settled j (fun cs => ∀ c ∈ cs, NoNegative c.literals) (constraintsOfJson j) := by
  cases j with
  | object fields =>
    refine (Json.settled_require _ "constraints").bind fun k hk => ?_
    cases k with
    | array items => exact settled_items (Json.isPartOf_of_field? hk)
    | _ => exact .reported trivial
  | array items => exact settled_items .refl
  | _ => exact .reported trivial

/-- **Documents are read or refused.** Every text has constraints none of whose literals is
    negative, or there is a fault. The fault reports what is wrong with the document; or an integer
    in the text is too long; or the document holds a node whose tag, index, list of indices or
    literal is a value that cannot be taken as one, and the fault is that of this value. -/
theorem documents_are_read_or_refused (text : String) :
    (∃ cs, loadConstraints text = .ok cs ∧ ∀ c ∈ cs, ∀ x ∈ c.literals, 0 ≤ x ∨ x.isNaN = true) ∨
    ∃ f, loadConstraints text = .error f ∧
      (f.IsReported ∨
        (∃ digits, Json.read text = .error (.tooLong digits) ∧
          f = .notInteger (.tooLong digits)) ∨
        ∃ j k : Json, Json.read text = .ok j ∧ k.IsPartOf j ∧ k.Breaks f) := by
  unfold loadConstraints
  cases hread : Json.read text with
  | error f =>
    cases f with
    | malformed => exact .inr ⟨_, rfl, .inl trivial⟩
    | tooLong digits => exact .inr ⟨_, rfl, .inr (.inl ⟨digits, rfl, rfl⟩)⟩
  | ok j =>
    have hsettled := settled_constraints j
    show (∃ cs, constraintsOfJson j = .ok cs ∧ _) ∨ ∃ f, constraintsOfJson j = .error f ∧ _
    cases hcs : constraintsOfJson j with
    | ok cs =>
      rw [hcs] at hsettled
      exact .inl ⟨cs, rfl, hsettled⟩
    | error f =>
      rw [hcs] at hsettled
      refine .inr ⟨f, rfl, hsettled.imp_right fun hbreaks => .inr ?_⟩
      obtain ⟨k, hk, hbreaks⟩ := hbreaks
      exact ⟨j, k, rfl, hk, hbreaks⟩

/-- A tag that is a list is not reported. -/
theorem listed_tag_is_not_reported :
    loadConstraints "[\x7b\"tag\": [\"equal\"]\x7d]" = .error .wrongType ∧
      ¬ TreeFault.wrongType.IsReported := by
  have hread : Json.read "[\x7b\"tag\": [\"equal\"]\x7d]" =
      .ok (.array [.object [("tag", .array [.string "equal"])]]) := by decide +kernel
  have hnode : Constraint.ofJson (.object [("tag", .array [.string "equal"])]) =
      .error .wrongType := by
    rw [Constraint.ofJson]
    rfl
  refine ⟨?_, id⟩
  rw [loadConstraints, hread]
  show (do .ok ((← Constraint.ofJson (.object [("tag", .array [.string "equal"])])) :: [])) = _
  rw [hnode]
  rfl

end Credal
