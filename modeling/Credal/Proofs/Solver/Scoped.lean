import Credal.Proofs.Solver.Checked

/-!
# Scope of a request

The constants of a request are declared from the original constraints and used by the translated
ones, by the axioms and by the division guards. All that is used is declared: translation brings in
no names but those of states, and encoding takes names and numerals over as they are.

* `SExpr.operandAtoms`, `SExpr.ScopedIn`: the atoms of a term that are no operators, and whether
  each is a numeral or one of some names;
* `RealExpr.ScopedIn`, `Constraint.ScopedIn`: trees whose names are among some names, by their parts
  (`Node.scopedIn_iff`); it is kept by translation, by guards and by `scopedIn_enrich`;
* `scopedIn_encode`: the terms of such trees;
* `request_well_scoped`: all of a request.
-/

namespace Credal

open Credal.Number

/-! ## 1. Operand atoms -/

namespace SExpr

mutual

/-- The atoms of a term from left to right, without the operators at the heads of lists. -/
def operandAtoms : SExpr → List String
  | .atom a => [a]
  | .list (.atom _ :: operands) => operandAtomsOf operands
  | .list items => operandAtomsOf items

/-- The operand atoms of terms. -/
def operandAtomsOf : List SExpr → List String
  | [] => []
  | s :: rest => operandAtoms s ++ operandAtomsOf rest

end

/-- Each operand atom of a term is a numeral or one of the names. -/
def ScopedIn (names : List String) (s : SExpr) : Prop :=
  ∀ a ∈ s.operandAtoms, (natural? a).isSome = true ∨ a ∈ names

variable {names : List String}

theorem mem_operandAtomsOf {a : String} {items : List SExpr} :
    a ∈ operandAtomsOf items ↔ ∃ s ∈ items, a ∈ s.operandAtoms := by
  induction items with
  | nil => simp [operandAtomsOf]
  | cons s rest ih => rw [operandAtomsOf, List.mem_append, ih, List.exists_mem_cons_iff]

theorem scopedIn_atom {a : String} :
    (atom a).ScopedIn names ↔ (natural? a).isSome = true ∨ a ∈ names :=
  List.forall_mem_singleton

theorem scopedIn_numeral (n : Nat) : (atom (intText n)).ScopedIn names :=
  scopedIn_atom.2 (Or.inl (by rw [natural?_intText]; rfl))

theorem scopedIn_app {op : String} {operands : List SExpr} :
    (app op operands).ScopedIn names ↔ ∀ s ∈ operands, s.ScopedIn names := by
  constructor
  · intro h s hs a ha
    exact h a (mem_operandAtomsOf.2 ⟨s, hs, ha⟩)
  · intro h a ha
    obtain ⟨s, hs, ha⟩ := mem_operandAtomsOf.1 ha
    exact h s hs a ha

/-- What stands behind the head of a list, whether that is an operator or not. -/
theorem ScopedIn.of_mem_tail {head s : SExpr} {operands : List SExpr}
    (h : (list (head :: operands)).ScopedIn names) (hs : s ∈ operands) : s.ScopedIn names := by
  cases head with
  | atom op => exact scopedIn_app.1 h s hs
  | list items =>
    intro a ha
    exact h a (mem_operandAtomsOf.2 ⟨s, List.mem_cons_of_mem _ hs, ha⟩)

/-- The operands that a term brings into a chain. -/
theorem ScopedIn.chainOperands {s : SExpr} (h : s.ScopedIn names) (isLink : Bool) :
    ∀ o ∈ chainOperands isLink s, o.ScopedIn names := by
  have hself : ∀ o ∈ [s], o.ScopedIn names := List.forall_mem_singleton.2 h
  cases isLink with
  | false => exact hself
  | true =>
    rcases s with a | (_ | ⟨head, operands⟩)
    · exact hself
    · exact hself
    · exact fun o ho => h.of_mem_tail ho

end SExpr

/-! ## 2. Names of trees -/

variable {names : List String}

/-- The real variables and states of an expression are among the names, and no literal is
    negative. -/
def RealExpr.ScopedIn (names : List String) : RealExpr → Prop
  | .literal x => ¬ x < 0
  | .var name => name ∈ names
  | .stateSum is => ∀ i ∈ is, stateName i ∈ names
  | .probability _ | .given _ _ => True
  | .negative e => e.ScopedIn names
  | .arith _ a b | .divide a b | .power a b => a.ScopedIn names ∧ b.ScopedIn names

/-- The real variables and states of a constraint are among the names, and no literal is
    negative. -/
def Constraint.ScopedIn (names : List String) : Constraint → Prop
  | .compare _ a b => a.ScopedIn names ∧ b.ScopedIn names
  | .negation c => c.ScopedIn names
  | .binary _ c d => c.ScopedIn names ∧ d.ScopedIn names

namespace Node

/-- The real variables and states of a node are among the names, and no literal is negative. -/
def ScopedIn (names : List String) : Node → Prop
  | .constraint c => c.ScopedIn names
  | .real e => e.ScopedIn names

/-- A node is no negative literal, and if it is a variable or a sum of states, it uses the names. -/
def OwnScopedIn (names : List String) : Node → Prop
  | .real (.literal x) => ¬ x < 0
  | .real (.var name) => name ∈ names
  | .real (.stateSum is) => ∀ i ∈ is, RealExpr.stateName i ∈ names
  | _ => True

variable {n : Node}

theorem scopedIn_iff_everywhere : n.ScopedIn names ↔ n.Everywhere (·.OwnScopedIn names) := by
  refine iff_everywhere (P := fun n => n.ScopedIn names) (fun n => ?_) n
  cases n with
  | real e => cases e <;> simp [ScopedIn, RealExpr.ScopedIn, OwnScopedIn, children]
  | constraint c => cases c <;> simp [ScopedIn, Constraint.ScopedIn, OwnScopedIn, children]

/-- **The names that a node uses** are those of its real variables and of the states of its sums. -/
theorem scopedIn_iff : n.ScopedIn names ↔
    (∀ x ∈ n.literals, ¬ x < 0) ∧ (∀ x ∈ n.reals, x ∈ names) ∧
      ∀ p is, n.part? p = some (.real (.stateSum is)) →
        ∀ i ∈ is, RealExpr.stateName i ∈ names := by
  rw [scopedIn_iff_everywhere]
  constructor
  · intro h
    refine ⟨fun x hx => ?_, fun x hx => ?_, fun p is hp => h p _ hp⟩
    · obtain ⟨p, hp⟩ := mem_literals_iff.1 hx
      exact h p _ hp
    · obtain ⟨p, hp⟩ := mem_reals_iff.1 hx
      exact h p _ hp
  · intro h p s hs
    obtain ⟨hliterals, hreals, hsums⟩ := h
    unfold OwnScopedIn
    split
    · exact hliterals _ (mem_literals_iff.2 ⟨p, hs⟩)
    · exact hreals _ (mem_reals_iff.2 ⟨p, hs⟩)
    · exact hsums p _ hs
    · trivial

/-- Nodes without sums of states need their real variables only. -/
theorem scopedIn_of_isSource (hsource : n.isSource = true) (hx : ∀ x ∈ n.literals, ¬ x < 0)
    (hreals : ∀ x ∈ n.reals, x ∈ names) : n.ScopedIn names :=
  scopedIn_iff.2 ⟨hx, hreals, fun p _ hp => nomatch isSource_iff.1 hsource p _ hp⟩

end Node

/-! ## 3. Names that passes bring in -/

theorem zero_not_neg : ¬ (0 : Float) < 0 := by decide +kernel

theorem one_not_neg : ¬ (1 : Float) < 0 := by decide +kernel

variable {t : TruthTable}

variable {n : Node}

/-- **Translation brings in no names but those of states.** -/
theorem Node.ScopedIn.translate (hstates : ∀ i ∈ t.states, RealExpr.stateName i ∈ names)
    (h : n.ScopedIn names) : (n.translate t).ScopedIn names := by
  obtain ⟨hliterals, hreals, hsums⟩ := scopedIn_iff.1 h
  refine scopedIn_iff.2
    ⟨fun x hx => ?_, n.reals_translate (t := t) ▸ hreals, fun p is hp i hi => ?_⟩
  · rcases literals_translate t hx with hx | rfl
    · exact hliterals x hx
    · exact one_not_neg
  · rcases stateSum_of_part?_translate hp with hown | hproper
    · exact hsums p is hown i hi
    · obtain ⟨k, hk, rfl⟩ := hproper.exists_state hi
      exact hstates k (TruthTable.mem_states.2 hk)

/-- A guard is about a part of the node. -/
theorem Node.ScopedIn.guard {g : Constraint} (h : n.ScopedIn names) (hg : g ∈ n.guards) :
    g.ScopedIn names := by
  obtain ⟨p, a, b, hp, -, rfl⟩ := mem_guards_iff.1 hg
  have hb : (Node.real b).ScopedIn names :=
    scopedIn_iff_everywhere.2 ((scopedIn_iff_everywhere.1 h).part (part?_denominator hp))
  exact ⟨hb, zero_not_neg⟩

theorem scopedIn_probabilityAxioms (hstates : ∀ i ∈ t.states, RealExpr.stateName i ∈ names)
    (regular : Bool) : ∀ c ∈ probabilityAxioms t regular, c.ScopedIn names := by
  refine List.forall_mem_append.2
    ⟨List.forall_mem_map.2 fun i hi => ?_, List.forall_mem_singleton.2 ?_⟩
  · exact ⟨List.forall_mem_singleton.2 (hstates i hi), zero_not_neg⟩
  · exact ⟨List.forall_mem_map.2 hstates, one_not_neg⟩

/-- **Axioms and guards need no names** but those of the states and of the constraints. -/
theorem scopedIn_enrich (hstates : ∀ i ∈ t.states, RealExpr.stateName i ∈ names) (regular : Bool)
    {cs : List Constraint} (hcs : ∀ c ∈ cs, c.ScopedIn names) :
    ∀ c ∈ enrich t regular cs, c.ScopedIn names :=
  forall_mem_enrich (scopedIn_probabilityAxioms hstates regular)
    (fun c hc _ hg => Node.ScopedIn.guard (n := .constraint c) (hcs c hc) hg) hcs

/-! ## 4. Terms -/

theorem scopedIn_literalTerm {x : Float} {term : SExpr} (h : literalTerm x = .ok term)
    (hx : ¬ x < 0) : term.ScopedIn names := by
  rcases literalTerm_cases h hx with ⟨n, -, rfl⟩ | ⟨n, q, -, -, -, rfl⟩
  · exact SExpr.scopedIn_numeral n
  · exact SExpr.scopedIn_app.2 (List.forall_mem_cons.2
      ⟨SExpr.scopedIn_numeral n, List.forall_mem_singleton.2 (SExpr.scopedIn_numeral q.den)⟩)

theorem RealExpr.scopedIn_stateTerms {is : List Int} (h : ∀ i ∈ is, stateName i ∈ names) :
    ∀ s ∈ is.map stateTerm, s.ScopedIn names :=
  List.forall_mem_map.2 fun i hi => SExpr.scopedIn_atom.2 (Or.inr (h i hi))

/-- **The term of an expression uses the names of the expression.** -/
theorem RealExpr.scopedIn_encode {e : RealExpr} {term : SExpr} (h : e.encode = .ok term)
    (he : e.ScopedIn names) : term.ScopedIn names := by
  induction e generalizing term with
  | literal x => exact scopedIn_literalTerm h he
  | var name =>
    obtain rfl := Except.ok.inj h
    exact SExpr.scopedIn_atom.2 (Or.inr he)
  | stateSum is =>
    have hterms := scopedIn_stateTerms he
    rcases is with - | ⟨i, - | ⟨j, is⟩⟩
    · obtain rfl := Except.ok.inj h
      exact SExpr.scopedIn_numeral 0
    · obtain rfl := Except.ok.inj h
      exact List.forall_mem_singleton.1 hterms
    · obtain rfl := Except.ok.inj h
      exact SExpr.scopedIn_app.2 hterms
  | probability S => cases h
  | given S T => cases h
  | negative e ih =>
    obtain ⟨e', he', rfl⟩ := bind_eq_ok_iff.1 h
    exact SExpr.scopedIn_app.2 (List.forall_mem_singleton.2 (ih he' he))
  | arith op a b iha ihb =>
    obtain ⟨a', b', ha, hb, rfl⟩ := bind₂_eq_ok_iff.1 h
    refine SExpr.scopedIn_app.2 (List.forall_mem_append.2 ⟨(iha ha he.1).chainOperands _, ?_⟩)
    split
    · exact List.forall_mem_singleton.2 (ihb hb he.2)
    · exact (ihb hb he.2).chainOperands _
  | divide a b iha ihb =>
    obtain ⟨a', b', ha, hb, rfl⟩ := bind₂_eq_ok_iff.1 h
    exact SExpr.scopedIn_app.2 (List.forall_mem_append.2
      ⟨(iha ha he.1).chainOperands _, List.forall_mem_singleton.2 (ihb hb he.2)⟩)
  | power a b iha ihb =>
    obtain ⟨a', b', ha, hb, rfl⟩ := bind₂_eq_ok_iff.1 h
    exact SExpr.scopedIn_app.2
      (List.forall_mem_cons.2 ⟨iha ha he.1, List.forall_mem_singleton.2 (ihb hb he.2)⟩)

/-- The operands of a connective are scoped if its sides are. -/
theorem Constraint.scopedIn_operandsOf {c d : SExpr} (hc : c.ScopedIn names)
    (hd : d.ScopedIn names) (k : Connective) (isLeft isRight : Bool) :
    ∀ s ∈ operandsOf k isLeft isRight c d, s.ScopedIn names := by
  cases k with
  | conjunction | disjunction =>
    exact List.forall_mem_append.2 ⟨hc.chainOperands _, hd.chainOperands _⟩
  | conditional => exact List.forall_mem_cons.2 ⟨hc, hd.chainOperands _⟩
  | biconditional => exact List.forall_mem_cons.2 ⟨hc, List.forall_mem_singleton.2 hd⟩

/-- **The term of a constraint uses the names of the constraint.** -/
theorem Constraint.scopedIn_encode {c : Constraint} {term : SExpr} (h : c.encode = .ok term)
    (hc : c.ScopedIn names) : term.ScopedIn names := by
  induction c generalizing term with
  | compare r a b =>
    obtain ⟨a', b', ha, hb, rfl⟩ := bind₂_eq_ok_iff.1 h
    have hterm : (SExpr.app r.operator [a', b']).ScopedIn names :=
      SExpr.scopedIn_app.2 (List.forall_mem_cons.2 ⟨RealExpr.scopedIn_encode ha hc.1,
        List.forall_mem_singleton.2 (RealExpr.scopedIn_encode hb hc.2)⟩)
    split
    · exact SExpr.scopedIn_app.2 (List.forall_mem_singleton.2 hterm)
    · exact hterm
  | negation c ih =>
    obtain ⟨c', hc', rfl⟩ := bind_eq_ok_iff.1 h
    exact SExpr.scopedIn_app.2 (List.forall_mem_singleton.2 (ih hc' hc))
  | binary k c d ihc ihd =>
    obtain ⟨c', d', hc', hd', rfl⟩ := bind₂_eq_ok_iff.1 h
    exact SExpr.scopedIn_app.2 (scopedIn_operandsOf (ihc hc' hc.1) (ihd hd' hc.2) k _ _)

/-! ## 5. Requests -/

namespace Problem

/-- The names that the request for constraints declares: the real variables in the order in which
    they are first met, and then the states in ascending order. -/
def declaredNames (cs : List Constraint) : List String :=
  (cs.flatMap (·.reals)).eraseDups ++
    (List.range (2 ^ (tableOf cs).letterCount)).map fun (i : Nat) => RealExpr.stateName i

/-- What the request for constraints asserts. -/
def asserted (regular : Bool) (cs : List Constraint) : List Constraint :=
  enrich (tableOf cs) regular (cs.map (·.translate (tableOf cs)))

variable {cs : List Constraint}

theorem reals_variablesOf (cs : List Constraint) :
    (variablesOf (cs.map .constraint)).reals = (cs.flatMap (·.reals)).eraseDups := by
  rw [variablesOf, distinct_eq_eraseDups, List.flatMap_map]
  rfl

theorem declarations_eq (cs : List Constraint) :
    declarations (tableOf cs) (variablesOf (cs.map .constraint)).reals =
      (declaredNames cs).map fun x => declaration (.atom x) := by
  rw [declarations, declaredNames, List.map_append, List.map_map, reals_variablesOf]
  rfl

theorem stateName_mem_declaredNames {i : Nat} (hi : i ∈ (tableOf cs).states) :
    RealExpr.stateName i ∈ declaredNames cs :=
  List.mem_append_right _ (List.mem_map_of_mem hi)

theorem scopedIn_asserted (regular : Bool)
    (hcs : ∀ c ∈ cs, c.isSource = true ∧ ∀ x ∈ c.literals, x.isFinite = true ∧ ¬ x < 0) :
    ∀ c ∈ asserted regular cs, c.ScopedIn (declaredNames cs) := by
  refine scopedIn_enrich (fun i => stateName_mem_declaredNames) regular
    (List.forall_mem_map.2 fun c hc => ?_)
  refine Node.ScopedIn.translate (n := .constraint c) (fun i => stateName_mem_declaredNames) ?_
  refine Node.scopedIn_of_isSource (n := .constraint c) (hcs c hc).1
    (fun x hx => ((hcs c hc).2 x hx).2) ?_
  intro x hx
  rw [declaredNames, ← reals_variablesOf]
  exact List.mem_append_left _ (mem_reals_variablesOf hc hx)

/-- **The names are distinct** unless a real variable has the name of a state. -/
theorem nodup_declaredNames (cs : List Constraint) : (declaredNames cs).Nodup ↔
    ∀ x ∈ cs.flatMap (·.reals), ∀ i < 2 ^ (tableOf cs).letterCount,
      x ≠ RealExpr.stateName (i : Nat) := by
  have hreals : (cs.flatMap (·.reals)).eraseDups.Nodup := by
    rw [← distinct_eq_eraseDups]
    exact distinct_nodup _
  have hstates : ((List.range (2 ^ (tableOf cs).letterCount)).map
      fun (i : Nat) => RealExpr.stateName i).Nodup :=
    List.nodup_range.map fun i j h => Int.ofNat.inj (stateName_injective h)
  rw [declaredNames, List.nodup_append', and_iff_right hreals, and_iff_right hstates]
  constructor
  · intro h x hx i hi hname
    exact h (List.mem_eraseDups.2 hx) (List.mem_map.2 ⟨i, List.mem_range.2 hi, hname.symm⟩)
  · intro h x hx hname
    obtain ⟨i, hi, rfl⟩ := List.mem_map.1 hname
    exact h _ (List.mem_eraseDups.1 hx) i (List.mem_range.1 hi) rfl

end Problem

/-- **A request is well scoped.** Constraints without sums of states and with finite literals give a
    request. It declares the real variables that occur, each once and in the order in which they
    are first met, and then the states in ascending order. Every operand atom of an assertion is a
    numeral or a declared name, and no name is declared twice unless a real variable has the name
    of a state. Literals are not negative, which `RealExpr.literal?` sees to. -/
theorem request_well_scoped (regular : Bool) (cs : List Constraint)
    (hcs : ∀ c ∈ cs, c.isSource = true ∧ ∀ x ∈ c.literals, x.isFinite = true ∧ ¬ x < 0) :
    (∃ p terms, Problem.ofConstraints? regular cs = .ok p ∧
      request (Problem.tableOf cs) (variablesOf (cs.map .constraint)).reals
        (Problem.asserted regular cs) = .ok p.lines ∧
      (Problem.asserted regular cs).mapM (·.encode) = .ok terms ∧
      p.lines = enclose (((Problem.declaredNames cs).map fun x => declaration (.atom x)) ++
        terms.map fun s => .app "assert" [s]) ∧
      ∀ term ∈ terms, term.ScopedIn (Problem.declaredNames cs)) ∧
    (cs.flatMap (·.reals)).eraseDups.Nodup ∧
    ((Problem.declaredNames cs).Nodup ↔
      ∀ x ∈ cs.flatMap (·.reals), ∀ i < 2 ^ (Problem.tableOf cs).letterCount,
        x ≠ RealExpr.stateName (i : Nat)) := by
  refine ⟨?_, ?_, Problem.nodup_declaredNames cs⟩
  · obtain ⟨p, hp⟩ := Problem.exists_ofTable? (Problem.tableOf cs) regular
      fun c hc x hx => ((hcs c hc).2 x hx).1
    obtain ⟨script, hscript, rfl⟩ := bind_eq_ok_iff.1 hp
    obtain ⟨lines, hlines, rfl⟩ := bind_eq_ok_iff.1 hscript
    obtain ⟨terms, hterms, rfl⟩ := mapM_map_eq_ok_iff.1 hlines
    refine ⟨_, terms, hp, bind_eq_ok_iff.2 ⟨_, hscript, rfl⟩, hterms, ?_, ?_⟩
    · rw [← Problem.declarations_eq]
      rfl
    · exact forall_mem_of_mapM hterms fun c hc term hterm =>
        Constraint.scopedIn_encode hterm (Problem.scopedIn_asserted regular hcs c hc)
  · rw [← distinct_eq_eraseDups]
    exact distinct_nodup _

/-- A variable that occurs twice is declared once, before the states; a variable with the name of a
    state makes this name stand twice. -/
theorem request_well_scoped_of_clash :
    let c : Constraint := .compare .less (.arith .times (.var "x") (.var "s_1"))
      (.divide (.probability (.letter ⟨"P", 0⟩)) (.var "x"))
    ¬ (Problem.declaredNames [c]).Nodup ∧
      (Problem.ofConstraints? false [c]).map (fun p => p.lines.map (·.text)) = .ok
        ["(set-logic QF_NRA)", "(declare-const x Real)", "(declare-const s_1 Real)",
          "(declare-const s_0 Real)", "(declare-const s_1 Real)", "(assert (>= s_0 0))",
          "(assert (>= s_1 0))", "(assert (= (+ s_0 s_1) 1))", "(assert (not (= x 0)))",
          "(assert (< (* x s_1) (/ s_0 x)))", "(check-sat)", "(get-model)"] := by
  intro c
  have hc : ∀ d ∈ [c], d.isSource = true ∧ ∀ x ∈ d.literals, x.isFinite = true ∧ ¬ x < 0 := by
    decide +kernel
  obtain ⟨-, -, hnames⟩ := request_well_scoped false [c] hc
  refine ⟨fun h => ?_, by decide +kernel⟩
  exact hnames.1 h "s_1" (by decide) 1 (by decide +kernel) rfl

end Credal
