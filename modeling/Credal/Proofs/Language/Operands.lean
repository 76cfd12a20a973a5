import Credal.Language.Infix
import Mathlib.Data.List.Basic

/-!
# Operands in a text

Where a text is made of operands and what stands between them, the operands can be found in it if
each of them ends where the text that follows begins. An operand in parentheses begins with one; an
operand that stands without them does not, and a break follows it.

* `append_eq_append_of_stops`: a run of characters ends where other characters begin;
* `Leads`: the kind of character with which a text begins;
* `wrap_append_eq`: an operand is read from its parenthesis, or without one;
* `signOf`, `spaced`, `Ends`: what stands between operands, and what behind texts;
* `Infix`: a kind of trees with closed texts, operands, and compounds of two operands;
* `Infix.operand`, `Infix.whole`, `Infix.unique`: **the operands and the compounds of a text are
  unique**, if the closed texts are.
-/

namespace Credal

/-! ## 1. Runs -/

/-- A text is empty or begins with a character that ends a run. -/
def Stops (P : Char → Prop) (rest : List Char) : Prop := ∀ c ∈ rest.head?, P c

section

variable {P : Char → Prop} {c : Char} {cs ds rest rest' : List Char}

theorem stops_nil : Stops P [] := nofun

theorem stops_cons_iff : Stops P (c :: cs) ↔ P c := by
  rw [Stops, List.head?_cons]
  exact ⟨fun h => h c rfl, fun h d hd => Option.some.inj hd ▸ h⟩

/-- **A run ends where it is stopped.** -/
theorem append_eq_append_of_stops (hcs : ∀ c ∈ cs, ¬ P c) (hds : ∀ c ∈ ds, ¬ P c)
    (hrest : Stops P rest) (hrest' : Stops P rest') (h : cs ++ rest = ds ++ rest') :
    cs = ds ∧ rest = rest' := by
  induction cs generalizing ds with
  | nil =>
    cases ds with
    | nil => exact ⟨rfl, h⟩
    | cons d ds =>
      rw [List.nil_append] at h
      rw [h, List.cons_append, stops_cons_iff] at hrest
      exact absurd hrest (hds d List.mem_cons_self)
  | cons c cs ih =>
    cases ds with
    | nil =>
      rw [List.nil_append] at h
      rw [← h, List.cons_append, stops_cons_iff] at hrest'
      exact absurd hrest' (hcs c List.mem_cons_self)
    | cons d ds =>
      obtain ⟨rfl, htail⟩ := List.cons.inj h
      obtain ⟨rfl, hrests⟩ := ih (List.forall_mem_cons.1 hcs).2 (List.forall_mem_cons.1 hds).2 htail
      exact ⟨rfl, hrests⟩

end

/-- The characters before which an operand ends. -/
def IsBreak (c : Char) : Prop := c = ' ' ∨ c = ')' ∨ c = '^'

instance : DecidablePred IsBreak := fun c =>
  inferInstanceAs (Decidable (c = ' ' ∨ c = ')' ∨ c = '^'))

/-! ## 2. The first character -/

/-- One letter stands for all letters, and one digit for all digits. -/
def kindOf (c : Char) : Char := if c.isAlpha then 'a' else if c.isDigit then '0' else c

/-- A text begins with a character of a kind. -/
def Leads (k : Char) (cs : List Char) : Prop := ∃ c rest, cs = c :: rest ∧ kindOf c = k

section

variable {k k' c : Char} {cs rest rest' : List Char}

theorem Leads.append (h : Leads k cs) (rest : List Char) : Leads k (cs ++ rest) := by
  obtain ⟨c, ds, rfl, hc⟩ := h
  exact ⟨c, ds ++ rest, rfl, hc⟩

theorem Leads.unique (h : Leads k cs) (h' : Leads k' cs) : k = k' := by
  obtain ⟨c, ds, rfl, rfl⟩ := h
  obtain ⟨c', ds', heq, rfl⟩ := h'
  rw [(List.cons.inj heq).1]

theorem leads_cons : Leads (kindOf c) (c :: cs) := ⟨c, cs, rfl, rfl⟩

theorem leads_of_isAlpha (hne : cs ≠ []) (h : ∀ c ∈ cs, c.isAlpha = true) : Leads 'a' cs := by
  obtain ⟨c, cs, rfl⟩ := List.exists_cons_of_ne_nil hne
  exact ⟨c, cs, rfl, if_pos (h c List.mem_cons_self)⟩

end

/-! ## 3. Parentheses -/

/-- The characters of an operand. -/
def wrap (closed : Bool) (cs : List Char) : List Char :=
  if closed then cs else '(' :: (cs ++ [')'])

theorem toList_operandText (closed : Bool) (t : String) :
    (operandText closed t).toList = wrap closed t.toList := by
  cases closed with
  | true => rfl
  | false =>
    show ("(" ++ t ++ ")").toList = _
    rw [String.toList_append, String.toList_append]
    rfl

theorem wrap_false_append (cs rest : List Char) :
    wrap false cs ++ rest = '(' :: (cs ++ ')' :: rest) := by
  show '(' :: (cs ++ [')'] ++ rest) = _
  rw [List.append_assoc]
  rfl

theorem leads_wrap_false (cs : List Char) : Leads '(' (wrap false cs) := ⟨'(', _, rfl, rfl⟩

/-- **An operand begins with a parenthesis, or has none.** -/
theorem wrap_append_eq {b b' : Bool} {cs cs' rest rest' : List Char}
    (hcs : b = true → ∃ k, Leads k cs ∧ k ≠ '(') (hcs' : b' = true → ∃ k, Leads k cs' ∧ k ≠ '(')
    (h : wrap b cs ++ rest = wrap b' cs' ++ rest') :
    b = true ∧ b' = true ∧ cs ++ rest = cs' ++ rest' ∨
      b = false ∧ b' = false ∧ cs ++ ')' :: rest = cs' ++ ')' :: rest' := by
  cases b with
  | true =>
    obtain ⟨k, hk, hne⟩ := hcs rfl
    cases b' with
    | true => exact .inl ⟨rfl, rfl, h⟩
    | false =>
      have hlead := (leads_wrap_false cs').append rest'
      rw [← h] at hlead
      exact absurd ((hk.append rest).unique hlead) hne
  | false =>
    cases b' with
    | true =>
      obtain ⟨k, hk, hne⟩ := hcs' rfl
      have hlead := (leads_wrap_false cs).append rest
      rw [h] at hlead
      exact absurd ((hk.append rest').unique hlead) hne
    | false =>
      rw [wrap_false_append, wrap_false_append] at h
      exact .inr ⟨rfl, rfl, (List.cons.inj h).2⟩

/-! ## 4. Signs -/

/-- The character of a symbol. -/
def signOf (symbol : String) : Char := symbol.toList.headD ' '

/-- A sign between blanks. -/
def spaced (symbol : String) : List Char := [' ', signOf symbol, ' ']

theorem Connective.toList_symbol (k : Connective) : k.symbol.toList = [signOf k.symbol] := by
  cases k <;> rfl

theorem Connective.eq_of_signOf_eq {k k' : Connective} (h : signOf k.symbol = signOf k'.symbol) :
    k = k' := by
  cases k <;> cases k' <;> first | rfl | exact absurd h (by decide)

theorem Relation.toList_symbol (r : Relation) : r.symbol.toList = [signOf r.symbol] := by
  cases r <;> rfl

theorem Relation.eq_of_signOf_eq {r r' : Relation} (h : signOf r.symbol = signOf r'.symbol) :
    r = r' := by
  cases r <;> cases r' <;> first | rfl | exact absurd h (by decide)

theorem spaced_append_inj {symbol symbol' : String} {rest rest' : List Char}
    (h : spaced symbol ++ rest = spaced symbol' ++ rest') :
    signOf symbol = signOf symbol' ∧ rest = rest' := by
  obtain ⟨hsign, htail⟩ := List.cons.inj (List.cons.inj h).2
  exact ⟨hsign, (List.cons.inj htail).2⟩

/-- What may follow a text that is not an operand: nothing, a parenthesis, or one of some signs. -/
inductive Ends (S : Char → Prop) : List Char → Prop
  | nil : Ends S []
  | parenthesis (cs : List Char) : Ends S (')' :: cs)
  | sign (c : Char) (cs : List Char) (hc : S c) : Ends S (' ' :: c :: cs)

theorem Ends.stops {S : Char → Prop} {rest : List Char} (h : Ends S rest) :
    Stops IsBreak rest := by
  cases h with
  | nil => exact stops_nil
  | parenthesis => exact stops_cons_iff.2 (.inr (.inl rfl))
  | sign => exact stops_cons_iff.2 (.inl rfl)

/-- What follows a constraint follows the expression at its end. -/
theorem Ends.mono {S T : Char → Prop} (hST : ∀ c, S c → T c) {rest : List Char}
    (h : Ends S rest) : Ends T rest := by
  cases h with
  | nil => exact .nil
  | parenthesis => exact .parenthesis _
  | sign c cs hc => exact .sign c cs (hST c hc)

theorem stops_blank (cs : List Char) : Stops IsBreak (' ' :: cs) := stops_cons_iff.2 (.inl rfl)

/-- A connective is told from the others where it stands between two operands. -/
theorem Connective.spaced_append_inj (k k' : Connective) (rest rest' : List Char)
    (h : spaced k.symbol ++ rest = spaced k'.symbol ++ rest') : k = k' ∧ rest = rest' := by
  obtain ⟨hsign, hrests⟩ := Credal.spaced_append_inj h
  exact ⟨eq_of_signOf_eq hsign, hrests⟩

theorem Connective.stops_spaced (k : Connective) (rest : List Char) :
    Stops IsBreak (spaced k.symbol ++ rest) := stops_blank _

/-! ## 5. Infix texts -/

/-- A kind of trees that are written in infix notation. Some texts are closed; the compounds of two
    operands are not, and the operands of a compound that are not closed stand in parentheses. -/
structure Infix (E J : Type) where
  /-- The text of a tree. -/
  text : E → List Char
  /-- Whether the text of a tree is closed. -/
  closed : E → Bool
  /-- Whether a closed text stands without parentheses in a compound. -/
  bare : J → E → Bool
  /-- A compound. -/
  join : J → E → E → E
  /-- What stands between the operands of a compound. -/
  separator : J → List Char
  /-- The trees whose texts are looked at. -/
  Legible : E → Prop
  /-- When two trees count as the same. -/
  Same : E → E → Prop
  /-- The signs that may stand behind a text that is not an operand. -/
  Follows : Char → Prop
  text_join : ∀ j a b,
    text (join j a b) = wrap (bare j a) (text a) ++ (separator j ++ wrap (bare j b) (text b))
  closed_of_bare : ∀ j a, bare j a = true → closed a = true
  leads : ∀ e, Legible e → closed e = true → ∃ k, Leads k (text e) ∧ k ≠ '('
  separator_append_inj : ∀ j j' rest rest', separator j ++ rest = separator j' ++ rest' →
    j = j' ∧ rest = rest'
  stops_separator : ∀ j rest, Stops IsBreak (separator j ++ rest)
  not_ends_separator : ∀ j rest, ¬ Ends Follows (separator j ++ rest)
  legible_of_join : ∀ j a b, Legible (join j a b) → Legible a ∧ Legible b
  same_join : ∀ j a a' b b', Same a a' → Same b b' → Same (join j a b) (join j a' b')

namespace Infix

variable {E J : Type} (L : Infix E J)

/-- A closed text is told from the other closed texts. -/
def ClosedUnique (e : E) : Prop :=
  L.closed e = true → ∀ e' rest rest', L.Legible e' → L.closed e' = true →
    Stops IsBreak rest → Stops IsBreak rest' → L.text e ++ rest = L.text e' ++ rest' →
      L.Same e e' ∧ rest = rest'

/-- An operand is told from the other operands. -/
def OperandUnique (e : E) : Prop :=
  ∀ b b' e' rest rest', (b = true → L.closed e = true) → (b' = true → L.closed e' = true) →
    L.Legible e' → Stops IsBreak rest → Stops IsBreak rest' →
      wrap b (L.text e) ++ rest = wrap b' (L.text e') ++ rest' → L.Same e e' ∧ rest = rest'

/-- A text is told from the other texts. -/
def WholeUnique (e : E) : Prop :=
  ∀ e' rest rest', L.Legible e' → Ends L.Follows rest → Ends L.Follows rest' →
    L.text e ++ rest = L.text e' ++ rest' → L.Same e e' ∧ rest = rest'

/-- A tree is closed or a compound. -/
def Plain (e : E) : Prop := L.closed e = true ∨ ∃ j a b, e = L.join j a b

variable {L} {e e' : E}

/-- **Operands are unique** if closed texts and texts in parentheses are. -/
theorem operand (he : L.Legible e) (hclosed : L.ClosedUnique e) (hwhole : L.WholeUnique e) :
    L.OperandUnique e := by
  intro b b' e' rest rest' hb hb' he' hrest hrest' h
  rcases wrap_append_eq (fun hc => L.leads e he (hb hc)) (fun hc => L.leads e' he' (hb' hc)) h with
    ⟨hc, hc', h⟩ | ⟨-, -, h⟩
  · exact hclosed (hb hc) e' rest rest' he' (hb' hc') hrest hrest' h
  · obtain ⟨hsame, hrests⟩ := hwhole e' _ _ he' (.parenthesis _) (.parenthesis _) h
    exact ⟨hsame, (List.cons.inj hrests).2⟩

/-- A closed text is no operand with something between it and what follows. -/
theorem closed_operand (he : L.Legible e) (hc : L.closed e = true) (hclosed : L.ClosedUnique e)
    {b : Bool} {rest rest' : List Char} (he' : L.Legible e') (hb : b = true → L.closed e' = true)
    (hrest : Stops IsBreak rest) (hrest' : Stops IsBreak rest')
    (h : L.text e ++ rest = wrap b (L.text e') ++ rest') : L.Same e e' ∧ rest = rest' := by
  have hwrap : wrap true (L.text e) ++ rest = wrap b (L.text e') ++ rest' := h
  rcases wrap_append_eq (fun _ => L.leads e he hc) (fun hc' => L.leads e' he' (hb hc')) hwrap with
    ⟨-, hc', h⟩ | ⟨hne, -, -⟩
  · exact hclosed hc e' rest rest' he' (hb hc') hrest hrest' h
  · exact absurd hne (by decide)

theorem text_join_append (j : J) (a b : E) (rest : List Char) :
    L.text (L.join j a b) ++ rest = wrap (L.bare j a) (L.text a) ++
      (L.separator j ++ (wrap (L.bare j b) (L.text b) ++ rest)) := by
  rw [L.text_join, List.append_assoc, List.append_assoc]

/-- **Closed texts and compounds are unique** if the operands of the compounds are. -/
theorem whole (he : L.Legible e) (hplain : L.Plain e) (hclosed : L.ClosedUnique e)
    (hparts : ∀ j a b, e = L.join j a b → L.OperandUnique a ∧ L.OperandUnique b)
    (he' : L.Legible e') (hplain' : L.Plain e') {rest rest' : List Char}
    (hrest : Ends L.Follows rest) (hrest' : Ends L.Follows rest')
    (h : L.text e ++ rest = L.text e' ++ rest') : L.Same e e' ∧ rest = rest' := by
  have hstops := hrest.stops
  have hstops' := hrest'.stops
  rcases hplain with hc | ⟨j, a, b, rfl⟩
  · rcases hplain' with hc' | ⟨j', a', b', rfl⟩
    · exact hclosed hc e' _ _ he' hc' hstops hstops' h
    · -- what follows the first operand of the compound does not follow a text
      rw [text_join_append] at h
      obtain ⟨-, rfl⟩ := closed_operand he hc hclosed (L.legible_of_join _ _ _ he').1
        (L.closed_of_bare _ _) hstops (L.stops_separator _ _) h
      exact absurd hrest (L.not_ends_separator _ _)
  · obtain ⟨ha, hb⟩ := hparts j a b rfl
    rw [text_join_append] at h
    rcases hplain' with hc' | ⟨j', a', b', rfl⟩
    · obtain ⟨-, rfl⟩ := ha _ true e' _ _ (L.closed_of_bare _ _) (fun _ => hc') he'
        (L.stops_separator _ _) hstops' h
      exact absurd hrest' (L.not_ends_separator _ _)
    · obtain ⟨hleft, hright⟩ := L.legible_of_join _ _ _ he'
      rw [text_join_append] at h
      obtain ⟨hsame, h⟩ := ha _ _ a' _ _ (L.closed_of_bare _ _) (L.closed_of_bare _ _) hleft
        (L.stops_separator _ _) (L.stops_separator _ _) h
      obtain ⟨rfl, h⟩ := L.separator_append_inj _ _ _ _ h
      obtain ⟨hsame', h⟩ := hb _ _ b' _ _ (L.closed_of_bare _ _) (L.closed_of_bare _ _) hright
        hstops hstops' h
      exact ⟨L.same_join _ _ _ _ _ hsame hsame', h⟩

/-- **A tree is told from the others**, as an operand and by itself, if all trees are closed or
    compounds. -/
theorem unique (hplain : ∀ e, L.Legible e → L.Plain e) (he : L.Legible e)
    (hclosed : L.ClosedUnique e)
    (hparts : ∀ j a b, e = L.join j a b → L.OperandUnique a ∧ L.OperandUnique b) :
    L.OperandUnique e ∧ L.WholeUnique e := by
  have hwhole : L.WholeUnique e := fun e' rest rest' he' hrest hrest' h =>
    whole he (hplain e he) hclosed hparts he' (hplain e' he') hrest hrest' h
  exact ⟨operand he hclosed hwhole, hwhole⟩

end Infix

end Credal
