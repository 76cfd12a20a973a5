import Credal.Proofs.Smt.Semantics
import Credal.Proofs.Steps
import Credal.Smt.Term

/-!
# Terms mean what they encode

A translated tree has a term if all its literals are finite. Read by the rules of the solver's
language, the term has the value of the tree: the operands that a chain takes in come to the same
when they are taken together as when the tree is followed.

* `RealExpr.exists_encode_iff`, `Constraint.exists_encode_iff`: which trees have terms, and
  `encode_ne_probability`: which are not refused for a probability;
* `Symbols.Reads`: constants that stand for the states and variables of a reading;
* `RealExpr.Means`, `Constraint.Means`: a term and the operands that it brings into a chain have the
  value of a tree, by induction on the tree;
* `encoded_constraint_means`: both together, for all values of the states and variables.
-/

namespace Credal

open Credal.Number

/-! ## 1. Which trees have terms -/

theorem isFinite_of_integer? {x : Float} {i : Int} (h : Double.integer? x = some i) :
    x.isFinite = true := by
  obtain ⟨j, hj, -⟩ := Double.exists_shortest?_of_integer? h
  exact (Double.isSome_shortest?_iff x).1 (by rw [hj]; rfl)

theorem exists_literalTerm_iff {x : Float} :
    (∃ term, literalTerm x = .ok term) ↔ x.isFinite = true := by
  rw [← Double.isSome_shortest?_iff]
  unfold literalTerm
  cases hi : Double.integer? x with
  | some i =>
    have hx := (Double.isSome_shortest?_iff x).2 (isFinite_of_integer? hi)
    exact iff_of_true ⟨_, rfl⟩ hx
  | none =>
    cases hq : Double.shortest? x with
    | some q => exact iff_of_true ⟨_, rfl⟩ rfl
    | none => exact iff_of_false (fun ⟨_, h⟩ => nomatch h) nofun

/-- The term of a literal that is not negative: a numeral, or the quotient of two. -/
theorem literalTerm_cases {x : Float} {term : SExpr} (h : literalTerm x = .ok term)
    (hx : ¬ x < 0) :
    (∃ n : Nat, Double.integer? x = some n ∧ term = .atom (intText n)) ∨
    ∃ (n : Nat) (q : ℚ), Double.integer? x = none ∧ Double.shortest? x = some q ∧ q.num = n ∧
      term = .app "/" [.atom (intText n), .atom (intText q.den)] := by
  unfold literalTerm at h
  cases hi : Double.integer? x with
  | some i =>
    obtain ⟨n, rfl⟩ := Int.eq_ofNat_of_zero_le (Double.integer?_nonneg hi hx)
    rw [hi] at h
    exact Or.inl ⟨n, rfl, (Except.ok.inj h).symm⟩
  | none =>
    rw [hi] at h
    cases hq : Double.shortest? x with
    | none =>
      rw [hq] at h
      exact nomatch h
    | some q =>
      rw [hq] at h
      obtain ⟨n, hn⟩ := Int.eq_ofNat_of_zero_le (Rat.num_nonneg.2 (Double.shortest?_nonneg hq hx))
      refine Or.inr ⟨n, q, rfl, rfl, hn, ?_⟩
      rw [← hn]
      exact (Except.ok.inj h).symm

/-- **The expressions that have terms** hold no probability, and their literals are finite. -/
theorem RealExpr.exists_encode_iff (e : RealExpr) : (∃ term, e.encode = .ok term) ↔ e.Ready := by
  induction e with
  | literal x =>
    rw [encode, exists_literalTerm_iff, Ready, literals, List.forall_mem_singleton]
    exact (and_iff_right rfl).symm
  | var name => exact iff_of_true ⟨_, rfl⟩ ⟨rfl, List.forall_mem_nil _⟩
  | stateSum is =>
    refine iff_of_true ?_ ⟨rfl, List.forall_mem_nil _⟩
    rcases is with - | ⟨i, - | ⟨j, is⟩⟩ <;> exact ⟨_, rfl⟩
  | probability S | given S T =>
    refine iff_of_false (fun h => ?_) fun h => Bool.false_ne_true h.1
    obtain ⟨term, h⟩ := h
    cases h
  | negative e ih => exact exists_bind_eq_ok_iff.trans ih
  | arith op a b iha ihb =>
    exact exists_bind₂_eq_ok_iff.trans ((and_congr iha ihb).trans ready_pair)
  | divide a b iha ihb =>
    exact exists_bind₂_eq_ok_iff.trans ((and_congr iha ihb).trans ready_pair)
  | power a b iha ihb =>
    exact exists_bind₂_eq_ok_iff.trans ((and_congr iha ihb).trans ready_pair)

/-- **The constraints that have terms** hold no probability, and their literals are finite. -/
theorem Constraint.exists_encode_iff (c : Constraint) :
    (∃ term, c.encode = .ok term) ↔ c.Ready := by
  induction c with
  | compare r a b =>
    exact exists_bind₂_eq_ok_iff.trans
      ((and_congr a.exists_encode_iff b.exists_encode_iff).trans ready_pair)
  | negation c ih => exact exists_bind_eq_ok_iff.trans ih
  | binary k c d ihc ihd =>
    exact exists_bind₂_eq_ok_iff.trans ((and_congr ihc ihd).trans ready_pair)

theorem literalTerm_ne_probability (x : Float) : literalTerm x ≠ .error .probability := by
  unfold literalTerm
  cases Double.integer? x with
  | some i => exact nofun
  | none =>
    cases Double.shortest? x with
    | some q => exact nofun
    | none => exact nofun

/-- An expression without probabilities is not refused for one. -/
theorem RealExpr.encode_ne_probability {e : RealExpr} (h : e.isTranslated = true) :
    e.encode ≠ .error .probability := by
  induction e with
  | literal x => exact literalTerm_ne_probability x
  | var name => exact nofun
  | stateSum is => rcases is with - | ⟨i, - | ⟨j, is⟩⟩ <;> exact nofun
  | probability S => exact nomatch h
  | given S T => exact nomatch h
  | negative e ih => exact bind_ne_error (ih h)
  | arith op a b iha ihb =>
    obtain ⟨ha, hb⟩ := Bool.and_eq_true_iff.1 h
    exact bind₂_ne_error (iha ha) (ihb hb)
  | divide a b iha ihb =>
    obtain ⟨ha, hb⟩ := Bool.and_eq_true_iff.1 h
    exact bind₂_ne_error (iha ha) (ihb hb)
  | power a b iha ihb =>
    obtain ⟨ha, hb⟩ := Bool.and_eq_true_iff.1 h
    exact bind₂_ne_error (iha ha) (ihb hb)

/-- A constraint without probabilities is not refused for one. -/
theorem Constraint.encode_ne_probability {c : Constraint} (h : c.isTranslated = true) :
    c.encode ≠ .error .probability := by
  induction c with
  | compare r a b =>
    obtain ⟨ha, hb⟩ := Bool.and_eq_true_iff.1 h
    exact bind₂_ne_error (a.encode_ne_probability ha) (b.encode_ne_probability hb)
  | negation c ih => exact bind_ne_error (ih h)
  | binary k c d ihc ihd =>
    obtain ⟨hc, hd⟩ := Bool.and_eq_true_iff.1 h
    exact bind₂_ne_error (ihc hc) (ihd hd)

/-! ## 2. Terms of expressions -/

/-- What a literal stands for: its exact value if that is an integer, else its shortest decimal. -/
def literalValue (x : Float) : ℚ :=
  match Double.integer? x with
  | some i => i
  | none => (Double.shortest? x).getD 0

variable {K : Type*} [Field K] [LinearOrder K]

/-- The constants stand for the states of a reading, and all else that is free agrees with it. -/
structure Symbols.Reads (I : Symbols K) (R : Reading K) : Prop where
  literal : ∀ x, R.literal x = literalValue x
  state : ∀ i, I.constant (RealExpr.stateName i) = R.state i
  overZero : I.overZero = R.overZero
  power : I.power = R.power

/-- A real variable is a constant of its value and no numeral. -/
def Symbols.Names (I : Symbols K) (R : Reading K) (xs : List String) : Prop :=
  ∀ x ∈ xs, natural? x = none ∧ I.constant x = R.real x

variable {I : Symbols K} {R : Reading K}

theorem SExpr.meaning_numeral (n : Nat) :
    (SExpr.atom (intText n)).meaning I = some (.number n) := by
  rw [meaning, natural?_intText]

theorem SExpr.meaning_constant {x : String} (hx : natural? x = none) :
    (SExpr.atom x).meaning I = some (.number (I.constant x)) := by
  rw [meaning, hx]

theorem Symbols.Reads.meaning_stateTerm (hI : I.Reads R) (i : Int) :
    (RealExpr.stateTerm i).meaning I = some (.number (R.state i)) := by
  rw [RealExpr.stateTerm, SExpr.meaning_constant (natural?_stateName i), hI.state]

theorem Symbols.Reads.quotient_eq (hI : I.Reads R) : I.quotient = R.quotient := by
  funext a b
  rw [Symbols.quotient, Reading.quotient, hI.overZero]

omit [LinearOrder K] in
/-- The sum of several numbers from the left. -/
theorem leftFold_plus {ns : List K} (h : ns ≠ []) :
    leftFold (ArithOp.plus.on) ns = some ns.sum := by
  cases ns with
  | nil => exact absurd rfl h
  | cons n rest =>
    have hsum : ∀ a : K, rest.foldl ArithOp.plus.on a = a + rest.sum := by
      induction rest with
      | nil => exact fun a => (add_zero a).symm
      | cons m rest ih =>
        intro a
        rw [List.foldl_cons, ih (List.cons_ne_nil n rest), List.sum_cons, ← add_assoc]
        rfl
    rw [leftFold, hsum, List.sum_cons]

theorem Symbols.Reads.meanings_stateTerms (hI : I.Reads R) (is : List Int) :
    SExpr.meanings I (is.map RealExpr.stateTerm) = some ((is.map R.state).map .number) := by
  induction is with
  | nil => rfl
  | cons i is ih => rw [List.map_cons, SExpr.meanings, hI.meaning_stateTerm, ih]; rfl

/-- **A literal that is not negative has the term of its number.** -/
theorem Symbols.Reads.meaning_literalTerm [IsStrictOrderedRing K] (hI : I.Reads R) {x : Float}
    {term : SExpr} (h : literalTerm x = .ok term) (hx : ¬ x < 0) :
    term.meaning I = some (.number (R.literal x)) := by
  rw [hI.literal]
  unfold literalValue
  rcases literalTerm_cases h hx with ⟨n, hi, rfl⟩ | ⟨n, q, hi, hq, hn, rfl⟩
  · rw [hi]
    show (SExpr.atom (intText n)).meaning I = some (.number (((n : Int) : ℚ) : K))
    rw [SExpr.meaning_numeral, Int.cast_natCast, Rat.cast_natCast]
  · rw [hi, hq]
    have hden : (q.den : K) ≠ 0 := Nat.cast_ne_zero.2 q.den_nz
    have hoperands : Operands I .number (leftFold I.quotient)
        [.atom (intText n), .atom (intText q.den)] (I.quotient n q.den) :=
      (Operands.single (SExpr.meaning_numeral n) fun _ => rfl).concat (SExpr.meaning_numeral q.den)
    rw [hoperands.meaning_divide (Nat.le_refl 2), Symbols.quotient, if_neg hden]
    show _ = some (TermValue.number (q : K))
    rw [Rat.cast_def, hn, Int.cast_natCast]

/-- A term has the value of an expression, and so have the operands that it brings into a chain. -/
structure RealExpr.Means (I : Symbols K) (R : Reading K) (e : RealExpr) (term : SExpr) : Prop where
  meaning : term.meaning I = some (.number (e.value R))
  arith : ∀ op, Operands I .number (leftFold op.on) (chainOperands (e.isArith op) term) (e.value R)
  divide : Operands I .number (leftFold I.quotient) (chainOperands e.isDivide term) (e.value R)

namespace RealExpr.Means

variable {e a b : RealExpr} {term a' b' : SExpr}

/-- A term that is no chain is its own operand. -/
theorem of_meaning (h : term.meaning I = some (.number (e.value R)))
    (harith : ∀ op, e.isArith op = false) (hdivide : e.isDivide = false) : e.Means I R term where
  meaning := h
  arith op := by
    rw [harith op]
    exact .single h fun _ => rfl
  divide := by
    rw [hdivide]
    exact .single h fun _ => rfl

/-- The operands of a sum, a difference or a product. -/
theorem operands_arith (op : ArithOp) (ha : a.Means I R a') (hb : b.Means I R b') :
    Operands I .number (leftFold op.on)
      (chainOperands (a.isArith op) a' ++
        if op = .minus then [b'] else chainOperands (b.isArith op) b')
      ((RealExpr.arith op a b).value R) := by
  cases op with
  | plus => exact (ha.arith .plus).append ⟨add_assoc⟩ (hb.arith .plus)
  | minus => exact (ha.arith .minus).concat hb.meaning
  | times => exact (ha.arith .times).append ⟨mul_assoc⟩ (hb.arith .times)

theorem of_arith {op : ArithOp} {terms : List SExpr}
    (h : Operands I .number (leftFold op.on) terms ((RealExpr.arith op a b).value R))
    (hlen : 2 ≤ terms.length) : (RealExpr.arith op a b).Means I R (.app op.symbol terms) where
  meaning := h.meaning_arith hlen
  arith op' := by
    by_cases hop : op' = op
    · rw [hop, isArith, decide_eq_true rfl]
      exact h
    · rw [isArith, decide_eq_false hop]
      exact .single (h.meaning_arith hlen) fun _ => rfl
  divide := .single (h.meaning_arith hlen) fun _ => rfl

theorem of_divide {terms : List SExpr}
    (h : Operands I .number (leftFold I.quotient) terms ((RealExpr.divide a b).value R))
    (hlen : 2 ≤ terms.length) : (RealExpr.divide a b).Means I R (.app "/" terms) where
  meaning := h.meaning_divide hlen
  arith _ := .single (h.meaning_divide hlen) fun _ => rfl
  divide := h

end RealExpr.Means

/-- A sum of states has its value, also where it has no states or one. -/
theorem RealExpr.means_stateSum (hI : I.Reads R) {is : List Int} {term : SExpr}
    (h : (RealExpr.stateSum is).encode = .ok term) : (RealExpr.stateSum is).Means I R term := by
  refine .of_meaning ?_ (fun _ => rfl) rfl
  rcases is with - | ⟨i, - | ⟨j, is⟩⟩
  · obtain rfl := Except.ok.inj h
    exact (SExpr.meaning_numeral 0).trans (congrArg (some ∘ TermValue.number) Nat.cast_zero)
  · obtain rfl := Except.ok.inj h
    rw [hI.meaning_stateTerm, value, List.map_singleton, List.sum_singleton]
  · obtain rfl := Except.ok.inj h
    have hsum : Operands I .number (leftFold ArithOp.plus.on) ((i :: j :: is).map stateTerm)
        ((RealExpr.stateSum (i :: j :: is)).value R) :=
      ⟨_, hI.meanings_stateTerms _, leftFold_plus (List.cons_ne_nil _ _)⟩
    exact hsum.meaning_arith (Nat.le_add_left 2 _)

/-- **The term of an expression has its value.** -/
theorem RealExpr.means_of_encode [IsStrictOrderedRing K] (hI : I.Reads R) {e : RealExpr}
    {term : SExpr} (h : e.encode = .ok term) (hx : ∀ x ∈ e.literals, ¬ x < 0)
    (hnames : I.Names R e.reals) :
    e.Means I R term := by
  induction e generalizing term with
  | literal x =>
    have hpos : ¬ x < 0 := hx x (List.mem_singleton_self x)
    exact .of_meaning (hI.meaning_literalTerm h hpos) (fun _ => rfl) rfl
  | var name =>
    obtain rfl := Except.ok.inj h
    obtain ⟨hname, hvalue⟩ := hnames name (List.mem_singleton_self name)
    refine .of_meaning ?_ (fun _ => rfl) rfl
    rw [SExpr.meaning_constant hname, hvalue, value]
  | stateSum is => exact means_stateSum hI h
  | probability S => cases h
  | given S T => cases h
  | negative e ih =>
    obtain ⟨e', he, rfl⟩ := bind_eq_ok_iff.1 h
    have hmeaning := (ih he hx hnames).meaning
    refine .of_meaning ?_ (fun _ => rfl) rfl
    exact SExpr.meaning_app (o := .arith .minus) rfl (SExpr.meanings_single hmeaning)
  | arith op a b iha ihb =>
    obtain ⟨hxa, hxb⟩ := List.forall_mem_append.1 hx
    obtain ⟨hna, hnb⟩ := List.forall_mem_append.1 hnames
    obtain ⟨a', b', ha, hb, rfl⟩ := bind₂_eq_ok_iff.1 h
    have hma := iha ha hxa hna
    have hmb := ihb hb hxb hnb
    refine .of_arith (Means.operands_arith op hma hmb) ?_
    have hleft := (hma.arith op).length_pos rfl
    have hright := (hmb.arith op).length_pos rfl
    rw [List.length_append]
    split
    · rw [List.length_singleton]
      omega
    · omega
  | divide a b iha ihb =>
    obtain ⟨hxa, hxb⟩ := List.forall_mem_append.1 hx
    obtain ⟨hna, hnb⟩ := List.forall_mem_append.1 hnames
    obtain ⟨a', b', ha, hb, rfl⟩ := bind₂_eq_ok_iff.1 h
    have hma := iha ha hxa hna
    have hleft := hma.divide.length_pos rfl
    have hoperands := hma.divide.concat (ihb hb hxb hnb).meaning
    refine .of_divide ?_ ?_
    · rw [value, ← hI.quotient_eq]
      exact hoperands
    · rw [List.length_append, List.length_singleton]
      omega
  | power a b iha ihb =>
    obtain ⟨hxa, hxb⟩ := List.forall_mem_append.1 hx
    obtain ⟨hna, hnb⟩ := List.forall_mem_append.1 hnames
    obtain ⟨a', b', ha, hb, rfl⟩ := bind₂_eq_ok_iff.1 h
    refine .of_meaning ?_ (fun _ => rfl) rfl
    rw [value, ← hI.power]
    exact SExpr.meaning_app (o := .power) rfl
      (SExpr.meanings_pair (iha ha hxa hna).meaning (ihb hb hxb hnb).meaning)

/-! ## 3. Terms of constraints -/

/-- A term has the truth of a constraint, and so have the operands that it brings into a chain. -/
structure Constraint.Means (I : Symbols K) (R : Reading K) (c : Constraint) (term : SExpr) :
    Prop where
  meaning : term.meaning I = some (.truth (c.holdsIn R))
  binary : ∀ k, Operands I .truth k.fold (chainOperands (c.isBinary k) term) (c.holdsIn R)

namespace Constraint.Means

variable {c d : Constraint} {term c' d' : SExpr}

theorem fold_single (k : Connective) (b : Bool) : k.fold [b] = some b := by cases k <;> rfl

theorem of_meaning (h : term.meaning I = some (.truth (c.holdsIn R)))
    (hbinary : ∀ k, c.isBinary k = false) : c.Means I R term where
  meaning := h
  binary k := by
    rw [hbinary k]
    exact .single h (fold_single k)

/-- The operands of a connective. -/
theorem operands_binary (k : Connective) (hc : c.Means I R c') (hd : d.Means I R d') :
    Operands I .truth k.fold (operandsOf k (c.isBinary k) (d.isBinary k) c' d')
      ((Constraint.binary k c d).holdsIn R) := by
  cases k with
  | conjunction => exact (hc.binary .conjunction).append ⟨Bool.and_assoc⟩ (hd.binary .conjunction)
  | disjunction => exact (hc.binary .disjunction).append ⟨Bool.or_assoc⟩ (hd.binary .disjunction)
  | conditional => exact .cons hc.meaning (hd.binary .conditional)
  | biconditional =>
    exact (Operands.single hc.meaning (fold_single .biconditional)).concat hd.meaning

theorem length_operands_binary (k : Connective) (hc : c.Means I R c') (hd : d.Means I R d') :
    2 ≤ (operandsOf k (c.isBinary k) (d.isBinary k) c' d').length := by
  have hfold : k.fold [] = none := by cases k <;> rfl
  have hleft := (hc.binary k).length_pos hfold
  have hright := (hd.binary k).length_pos hfold
  cases k with
  | conjunction => rw [operandsOf, List.length_append]; omega
  | disjunction => rw [operandsOf, List.length_append]; omega
  | conditional => rw [operandsOf, List.length_cons]; omega
  | biconditional => exact Nat.le_refl 2

/-- Equality of truth values takes no further operands in. -/
theorem meaning_binary (k : Connective) (hc : c.Means I R c') (hd : d.Means I R d') :
    (SExpr.app k.operator (operandsOf k (c.isBinary k) (d.isBinary k) c' d')).meaning I =
      some (.truth ((Constraint.binary k c d).holdsIn R)) := by
  have hoperands := operands_binary k hc hd
  have hlen := length_operands_binary k hc hd
  cases k with
  | conjunction => exact hoperands.meaning_connective rfl hlen
  | disjunction => exact hoperands.meaning_connective rfl hlen
  | conditional => exact hoperands.meaning_connective rfl hlen
  | biconditional =>
    exact SExpr.meaning_app (o := .compare .equal) rfl (SExpr.meanings_pair hc.meaning hd.meaning)

theorem of_binary (k : Connective) (hc : c.Means I R c') (hd : d.Means I R d') :
    (Constraint.binary k c d).Means I R
      (.app k.operator (operandsOf k (c.isBinary k) (d.isBinary k) c' d')) where
  meaning := meaning_binary k hc hd
  binary k' := by
    by_cases hk : k' = k
    · rw [hk, isBinary, decide_eq_true rfl]
      exact operands_binary k hc hd
    · rw [isBinary, decide_eq_false hk]
      exact .single (meaning_binary k hc hd) (fold_single k')

end Constraint.Means

/-- A comparison; that of two different numbers is the negation of an equality. -/
theorem Constraint.meaning_compare {k : Relation} {a' b' : SExpr} {x y : K}
    (ha : a'.meaning I = some (.number x)) (hb : b'.meaning I = some (.number y)) :
    (if k = .notEqual then SExpr.app "not" [.app k.operator [a', b']]
      else .app k.operator [a', b']).meaning I = some (.truth (k.holdsFor x y)) := by
  have hargs := SExpr.meanings_pair ha hb
  cases k with
  | equal => exact SExpr.meaning_app (o := .compare .equal) rfl hargs
  | notEqual =>
    have hequal : (SExpr.app "=" [a', b']).meaning I =
        some (.truth (Relation.equal.holdsFor x y)) :=
      SExpr.meaning_app (o := .compare .equal) rfl hargs
    refine (SExpr.meaning_app (o := .negation) rfl (SExpr.meanings_single hequal)).trans ?_
    exact congrArg (some ∘ TermValue.truth) (decide_not (p := x = y)).symm
  | less => exact SExpr.meaning_app (o := .compare .less) rfl hargs
  | lessEqual => exact SExpr.meaning_app (o := .compare .lessEqual) rfl hargs
  | greater => exact SExpr.meaning_app (o := .compare .greater) rfl hargs
  | greaterEqual => exact SExpr.meaning_app (o := .compare .greaterEqual) rfl hargs

/-- **The term of a constraint has its truth value.** -/
theorem Constraint.means_of_encode [IsStrictOrderedRing K] (hI : I.Reads R) {c : Constraint}
    {term : SExpr} (h : c.encode = .ok term) (hx : ∀ x ∈ c.literals, ¬ x < 0)
    (hnames : I.Names R c.reals) :
    c.Means I R term := by
  induction c generalizing term with
  | compare k a b =>
    obtain ⟨hxa, hxb⟩ := List.forall_mem_append.1 hx
    obtain ⟨hna, hnb⟩ := List.forall_mem_append.1 hnames
    obtain ⟨a', b', ha, hb, rfl⟩ := bind₂_eq_ok_iff.1 h
    refine .of_meaning ?_ fun _ => rfl
    exact meaning_compare (RealExpr.means_of_encode hI ha hxa hna).meaning
      (RealExpr.means_of_encode hI hb hxb hnb).meaning
  | negation c ih =>
    obtain ⟨c', hc, rfl⟩ := bind_eq_ok_iff.1 h
    refine .of_meaning ?_ fun _ => rfl
    exact SExpr.meaning_app (o := .negation) rfl
      (SExpr.meanings_single (ih hc hx hnames).meaning)
  | binary k c d ihc ihd =>
    obtain ⟨hxc, hxd⟩ := List.forall_mem_append.1 hx
    obtain ⟨hnc, hnd⟩ := List.forall_mem_append.1 hnames
    obtain ⟨c', d', hc, hd, rfl⟩ := bind₂_eq_ok_iff.1 h
    exact .of_binary k (ihc hc hxc hnc) (ihd hd hxd hnd)

/-! ## 4. All values -/

/-- The constants have the values of the states and of the real variables. -/
noncomputable def Symbols.ofValues (s : Int → K) (r : String → K) (overZero : K → K)
    (power : K → K → K) : Symbols K :=
  ⟨Function.extend RealExpr.stateName s r, overZero, power⟩

/-- Trees at the values of the states and of the real variables. -/
def Reading.ofValues (s : Int → K) (r : String → K) (overZero : K → K) (power : K → K → K) :
    Reading K :=
  ⟨literalValue, s, r, overZero, power⟩

omit [Field K] [LinearOrder K] in
theorem Symbols.reads_ofValues (s : Int → K) (r : String → K) (overZero : K → K)
    (power : K → K → K) :
    (Symbols.ofValues s r overZero power).Reads (Reading.ofValues s r overZero power) where
  literal _ := rfl
  state i := Function.Injective.extend_apply stateName_injective s r i
  overZero := rfl
  power := rfl

omit [Field K] [LinearOrder K] in
theorem Symbols.names_ofValues (s : Int → K) (r : String → K) (overZero : K → K)
    (power : K → K → K) {xs : List String}
    (hxs : ∀ x ∈ xs, natural? x = none ∧ ∀ i, x ≠ RealExpr.stateName i) :
    (Symbols.ofValues s r overZero power).Names (Reading.ofValues s r overZero power) xs := by
  intro x hx
  obtain ⟨hnumeral, hstate⟩ := hxs x hx
  exact ⟨hnumeral, Function.extend_apply' s r x fun ⟨i, hi⟩ => hstate i hi.symm⟩

/-- **Encoding preserves meaning.** A constraint has a term exactly if it holds no probability and
    its literals are finite; at all values of the states and real variables, of quotients by zero
    and of powers, the term has the truth value of the constraint. Literals are not negative, which
    `RealExpr.literal?` sees to. -/
theorem encoded_constraint_means [IsStrictOrderedRing K] (c : Constraint)
    (hx : ∀ x ∈ c.literals, ¬ x < 0) :
    ((∃ term, c.encode = .ok term) ↔
      c.isTranslated = true ∧ ∀ x ∈ c.literals, x.isFinite = true) ∧
    ∀ term, c.encode = .ok term →
      (∀ x ∈ c.reals, natural? x = none ∧ ∀ i, x ≠ RealExpr.stateName i) →
      ∀ (s : Int → K) (r : String → K) (overZero : K → K) (power : K → K → K),
        term.meaning (.ofValues s r overZero power) =
          some (.truth (c.holdsIn (.ofValues s r overZero power))) := by
  refine ⟨c.exists_encode_iff, fun term h hnames s r overZero power => ?_⟩
  exact (Constraint.means_of_encode (Symbols.reads_ofValues s r overZero power) h hx
    (Symbols.names_ofValues s r overZero power hnames)).meaning

/-- A difference takes in the operands on its left and leaves those on its right together; a
    quotient by zero on the left of another is divided again. -/
theorem encoded_constraint_means_of_chains :
    let c : Constraint := .compare .less
      (.arith .minus (.arith .minus (.var "x") (.literal 0.5))
        (.arith .minus (.stateSum [0, 1]) (.literal 2)))
      (.divide (.divide (.var "x") (.literal 0)) (.literal 3))
    let I : Symbols ℚ := .ofValues (fun _ => 1) (fun _ => 5) (fun _ => 21) fun a _ => a
    ∃ term, c.encode = .ok term ∧
      term.text = "(< (- x (/ 1 2) (- (+ s_0 s_1) 2)) (/ x 0 3))" ∧
      term.meaning I = some (.truth true) := by
  intro c I
  have hx : ∀ x ∈ c.literals, ¬ x < 0 := by decide +kernel
  obtain ⟨hiff, hmeans⟩ := encoded_constraint_means (K := ℚ) c hx
  obtain ⟨term, hterm⟩ := hiff.2 (by decide +kernel)
  have hnames : ∀ x ∈ c.reals, natural? x = none ∧ ∀ i, x ≠ RealExpr.stateName i := by
    intro x hx
    obtain rfl : x = "x" := by
      rcases List.mem_append.1 hx with h | h <;> exact List.mem_singleton.1 h
    refine ⟨by decide, fun i h => ?_⟩
    have hlist := (congrArg String.toList h).trans (toList_stateName i)
    exact absurd (List.cons.inj hlist).1 (by decide)
  refine ⟨term, hterm, ?_, ?_⟩
  · have htext : c.encode.map SExpr.text =
        .ok "(< (- x (/ 1 2) (- (+ s_0 s_1) 2)) (/ x 0 3))" := by decide +kernel
    rw [hterm] at htext
    exact Except.ok.inj htext
  · have htrue : c.holdsIn (K := ℚ) (.ofValues (fun _ => 1) (fun _ => 5) (fun _ => 21)
        fun a _ => a) = true := by decide +kernel
    exact (hmeans term hterm hnames _ _ _ _).trans (congrArg (some ∘ TermValue.truth) htrue)

end Credal
