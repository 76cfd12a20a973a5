import Credal.Proofs.SExpr.Tokens

/-!
# The reader accepts its grammar

The reader keeps the lists that are open on a stack and takes the tokens one after the other. What
it accepts is said by counting parentheses: one atom, or a list whose parentheses are balanced and
end with the tokens. What it gives is the expression that is written with these tokens.

* `flatten`: the tokens that an expression is written with;
* `Balanced`, `IsExpression`: the token lists of the grammar;
* `flatten_of_readFrom`: an expression that is read is written with the tokens it was read from;
* `exists_readFrom_iff`: with open lists, the tokens are accepted that close all of them at their
  end and not before;
* `readFrom_flatten`: the tokens of an expression put it into the innermost open list;
* `spells_text`: the text of an expression spells its tokens;
* `read_exactly_expressions`: all texts and all expressions.
-/

namespace Credal.SExpr

open Credal.Text

mutual

/-- The tokens that an expression is written with. -/
def flatten : SExpr → List Token
  | .atom t => [.atom t]
  | .list items => .opening :: (flattenItems items ++ [.closing])

/-- The tokens that the items of a list are written with. -/
def flattenItems : List SExpr → List Token
  | [] => []
  | item :: items => flatten item ++ flattenItems items

end

/-- As many lists are closed as are opened, and at no place more. -/
structure Balanced (ts : List Token) : Prop where
  total : ts.count .closing = ts.count .opening
  nowhere : ∀ us, us <+: ts → us.count .closing ≤ us.count .opening

/-- Tokens that are one atom, or one list with balanced parentheses inside. -/
def IsExpression (ts : List Token) : Prop :=
  (∃ t, ts = [.atom t]) ∨ ∃ inner, Balanced inner ∧ ts = .opening :: (inner ++ [.closing])

/-- A text that is read back as one atom. -/
def IsAtom (t : String) : Prop := t ≠ "" ∧ ∀ c ∈ t.toList, isAtomChar c = true

/-- All atoms of an expression are read back as atoms. -/
def Proper (s : SExpr) : Prop := ∀ t, .atom t ∈ s.flatten → IsAtom t

/-! ## 1. What is read is written with the tokens -/

theorem flattenItems_append (xs ys : List SExpr) :
    flattenItems (xs ++ ys) = flattenItems xs ++ flattenItems ys := by
  induction xs with
  | nil => rfl
  | cons x xs ih => rw [List.cons_append, flattenItems, ih, flattenItems, List.append_assoc]

/-- The tokens that the open lists are written with so far. -/
def openTokens : List (List SExpr) → List Token
  | [] => []
  | items :: outer => openTokens outer ++ .opening :: flattenItems items.reverse

/-- One more item of the innermost list. -/
theorem openTokens_cons (s : SExpr) (items : List SExpr) (outer : List (List SExpr)) :
    openTokens ((s :: items) :: outer) = openTokens (items :: outer) ++ s.flatten := by
  simp [openTokens, flattenItems_append, flattenItems]

/-- The innermost list closed. -/
theorem openTokens_closed (items : List SExpr) (outer : List (List SExpr)) :
    openTokens outer ++ flatten (.list items.reverse) =
      openTokens (items :: outer) ++ [.closing] := by
  simp [openTokens, flatten]

theorem complete_eq_ok_iff {s r : SExpr} {rest : List Token} :
    complete s rest = .ok r ↔ rest = [] ∧ r = s := by
  cases rest with
  | nil =>
    rw [complete, Except.ok.injEq]
    exact ⟨fun h => ⟨rfl, h.symm⟩, fun h => h.2.symm⟩
  | cons t rest => exact ⟨nofun, fun h => nomatch h.1⟩

/-- **An expression that is read is written with the tokens it was read from.** -/
theorem flatten_of_readFrom {text : String} {open_ : List (List SExpr)} {ts : List Token}
    {s : SExpr} (h : readFrom text open_ ts = .ok s) : s.flatten = openTokens open_ ++ ts := by
  induction ts generalizing open_ with
  | nil =>
    rw [readFrom] at h
    cases h
  | cons t ts ih =>
    cases t with
    | opening =>
      rw [readFrom] at h
      rw [ih h]
      simp [openTokens, flattenItems]
    | closing =>
      rcases open_ with - | ⟨items, - | ⟨outer, open_⟩⟩
      · rw [readFrom] at h
        cases h
      · rw [readFrom] at h
        obtain ⟨rfl, rfl⟩ := complete_eq_ok_iff.1 h
        have hclosed := openTokens_closed items []
        exact hclosed
      · rw [readFrom] at h
        rw [ih h, openTokens_cons, openTokens_closed, List.append_assoc]
        rfl
    | atom t =>
      cases open_ with
      | nil =>
        rw [readFrom] at h
        obtain ⟨rfl, rfl⟩ := complete_eq_ok_iff.1 h
        rfl
      | cons items open_ =>
        rw [readFrom] at h
        rw [ih h, openTokens_cons, List.append_assoc]
        rfl

theorem flatten_of_ofTokens {text : String} {ts : List Token} {s : SExpr}
    (h : ofTokens text ts = .ok s) : s.flatten = ts := by
  cases ts with
  | nil => cases h
  | cons t ts =>
    have hread : readFrom text [] (t :: ts) = .ok s := h
    exact flatten_of_readFrom hread

/-! ## 2. What is accepted -/

/-- So many more lists are closed than are opened, and at no place more than that. -/
structure Closes (depth : Nat) (ts : List Token) : Prop where
  total : ts.count .closing = ts.count .opening + depth
  nowhere : ∀ us, us <+: ts → us.count .closing ≤ us.count .opening + depth

theorem closes_zero_iff {ts : List Token} : Closes 0 ts ↔ Balanced ts :=
  ⟨fun h => ⟨h.total, h.nowhere⟩, fun h => ⟨h.total, h.nowhere⟩⟩

section

variable {depth : Nat} {ts : List Token}

theorem closes_nil_iff : Closes depth [] ↔ depth = 0 := by
  constructor
  · intro h
    have htotal := h.total
    simp at htotal
    omega
  · rintro rfl
    refine ⟨rfl, fun us hus => ?_⟩
    rw [List.prefix_nil.1 hus]
    exact Nat.le_refl 0

/-- The places of a list with one more token in front. -/
theorem forall_prefix_cons {t : Token} {p : List Token → Prop} :
    (∀ us, us <+: t :: ts → p us) ↔ p [] ∧ ∀ us, us <+: ts → p (t :: us) := by
  constructor
  · intro h
    exact ⟨h [] List.nil_prefix, fun us hus => h _ (List.cons_prefix_cons.2 ⟨rfl, hus⟩)⟩
  · rintro ⟨hnil, hcons⟩ us hus
    rcases List.prefix_cons_iff.1 hus with rfl | ⟨vs, rfl, hvs⟩
    · exact hnil
    · exact hcons vs hvs

theorem closes_opening_iff : Closes depth (.opening :: ts) ↔ Closes (depth + 1) ts := by
  constructor
  · intro h
    have htotal := h.total
    have hnowhere := (forall_prefix_cons.1 h.nowhere).2
    simp at htotal
    refine ⟨by omega, fun us hus => ?_⟩
    have hplace := hnowhere us hus
    simp at hplace
    omega
  · intro h
    have htotal := h.total
    refine ⟨by simp; omega, forall_prefix_cons.2 ⟨by simp, fun us hus => ?_⟩⟩
    have hplace := h.nowhere us hus
    simp
    omega

theorem closes_closing_iff :
    Closes depth (.closing :: ts) ↔ ∃ outer, depth = outer + 1 ∧ Closes outer ts := by
  constructor
  · intro h
    have htotal := h.total
    have hnowhere := (forall_prefix_cons.1 h.nowhere).2
    -- the parenthesis itself closes a list, so one must be open
    have hfirst := hnowhere [] List.nil_prefix
    simp at htotal hfirst
    refine ⟨depth - 1, by omega, by omega, fun us hus => ?_⟩
    have hplace := hnowhere us hus
    simp at hplace
    omega
  · rintro ⟨outer, rfl, h⟩
    have htotal := h.total
    refine ⟨by simp; omega, forall_prefix_cons.2 ⟨by simp, fun us hus => ?_⟩⟩
    have hplace := h.nowhere us hus
    simp
    omega

theorem closes_atom_iff {t : String} : Closes depth (.atom t :: ts) ↔ Closes depth ts := by
  constructor
  · intro h
    have htotal := h.total
    have hnowhere := (forall_prefix_cons.1 h.nowhere).2
    simp at htotal
    refine ⟨htotal, fun us hus => ?_⟩
    have hplace := hnowhere us hus
    simp at hplace
    exact hplace
  · intro h
    have htotal := h.total
    refine ⟨by simp; exact htotal, forall_prefix_cons.2 ⟨by simp, fun us hus => ?_⟩⟩
    have hplace := h.nowhere us hus
    simp
    exact hplace

/-- The last token closes the outermost of so many lists and one more. -/
def Ends (depth : Nat) (ts : List Token) : Prop :=
  ∃ inner, Closes depth inner ∧ ts = inner ++ [.closing]

theorem not_ends_nil : ¬ Ends depth [] := by
  rintro ⟨inner, -, h⟩
  exact absurd h.symm (List.append_ne_nil_of_right_ne_nil inner (List.cons_ne_nil _ _))

/-- The first token does not end the outermost list, unless it closes it. -/
theorem ends_cons_iff {t : Token} : Ends depth (t :: ts) ↔
    (t = .closing ∧ ts = [] ∧ depth = 0) ∨
      ∃ inner, Closes depth (t :: inner) ∧ ts = inner ++ [.closing] := by
  constructor
  · rintro ⟨inner, hinner, h⟩
    cases inner with
    | nil =>
      obtain ⟨rfl, rfl⟩ := List.cons.inj h
      exact Or.inl ⟨rfl, rfl, closes_nil_iff.1 hinner⟩
    | cons u inner =>
      obtain ⟨rfl, rfl⟩ := List.cons.inj h
      exact Or.inr ⟨inner, hinner, rfl⟩
  · rintro (⟨rfl, rfl, rfl⟩ | ⟨inner, hinner, rfl⟩)
    · exact ⟨[], closes_nil_iff.2 rfl, rfl⟩
    · exact ⟨t :: inner, hinner, rfl⟩

theorem ends_opening_iff : Ends depth (.opening :: ts) ↔ Ends (depth + 1) ts := by
  rw [ends_cons_iff]
  simp only [closes_opening_iff, reduceCtorEq, false_and, false_or]
  rfl

theorem ends_atom_iff {t : String} : Ends depth (.atom t :: ts) ↔ Ends depth ts := by
  rw [ends_cons_iff]
  simp only [closes_atom_iff, reduceCtorEq, false_and, false_or]
  rfl

theorem ends_zero_closing_iff : Ends 0 (.closing :: ts) ↔ ts = [] := by
  rw [ends_cons_iff]
  simp [closes_closing_iff]

theorem ends_succ_closing_iff : Ends (depth + 1) (.closing :: ts) ↔ Ends depth ts := by
  rw [ends_cons_iff]
  simp only [closes_closing_iff, Nat.add_right_cancel_iff, Nat.add_eq_zero_iff, and_false, false_or,
    exists_eq_left', Nat.one_ne_zero]
  rfl

end

theorem exists_complete_iff {s : SExpr} {rest : List Token} :
    (∃ r, complete s rest = .ok r) ↔ rest = [] := by
  simp [complete_eq_ok_iff]

/-- **With open lists, the tokens are accepted that close all of them**, the outermost one by the
    last token. -/
theorem exists_readFrom_iff {text : String} {items : List SExpr} {open_ : List (List SExpr)}
    {ts : List Token} :
    (∃ s, readFrom text (items :: open_) ts = .ok s) ↔ Ends open_.length ts := by
  induction ts generalizing items open_ with
  | nil => exact iff_of_false (fun ⟨_, h⟩ => nomatch h) not_ends_nil
  | cons t ts ih =>
    cases t with
    | opening => exact ih.trans ends_opening_iff.symm
    | atom t => exact ih.trans ends_atom_iff.symm
    | closing =>
      cases open_ with
      | nil => exact exists_complete_iff.trans ends_zero_closing_iff.symm
      | cons outer open_ => exact ih.trans ends_succ_closing_iff.symm

/-- **Tokens are accepted if they are one expression.** -/
theorem exists_ofTokens_iff {text : String} {ts : List Token} :
    (∃ s, ofTokens text ts = .ok s) ↔ IsExpression ts := by
  unfold IsExpression
  cases ts with
  | nil =>
    refine iff_of_false (fun ⟨_, h⟩ => nomatch h) ?_
    rintro (⟨t, h⟩ | ⟨inner, -, h⟩) <;> cases h
  | cons t ts =>
    cases t with
    | opening =>
      have hends : (∃ s, readFrom text [[]] ts = .ok s) ↔ Ends 0 ts := exists_readFrom_iff
      refine hends.trans ?_
      simp [Ends, closes_zero_iff]
    | closing =>
      refine iff_of_false (fun ⟨_, h⟩ => nomatch h) ?_
      rintro (⟨t, h⟩ | ⟨inner, -, h⟩) <;> cases h
    | atom t =>
      refine exists_complete_iff.trans ?_
      simp

/-! ## 3. Expressions are read back -/

mutual

/-- **The tokens of an expression put it into the innermost open list.** -/
theorem readFrom_flatten (text : String) (s : SExpr) (items : List SExpr)
    (open_ : List (List SExpr)) (rest : List Token) :
    readFrom text (items :: open_) (s.flatten ++ rest) =
      readFrom text ((s :: items) :: open_) rest := by
  cases s with
  | atom t => rfl
  | list ss =>
    have hitems := readFrom_flattenItems text ss [] (items :: open_) (.closing :: rest)
    rw [List.append_nil] at hitems
    rw [flatten, List.cons_append, List.append_assoc]
    show readFrom text ([] :: items :: open_) (flattenItems ss ++ .closing :: rest) = _
    rw [hitems, readFrom, List.reverse_reverse]

theorem readFrom_flattenItems (text : String) (ss items : List SExpr)
    (open_ : List (List SExpr)) (rest : List Token) :
    readFrom text (items :: open_) (flattenItems ss ++ rest) =
      readFrom text ((ss.reverse ++ items) :: open_) rest := by
  cases ss with
  | nil => rfl
  | cons s ss =>
    rw [flattenItems, List.append_assoc, readFrom_flatten, readFrom_flattenItems]
    simp

end

theorem ofTokens_flatten (text : String) (s : SExpr) : ofTokens text s.flatten = .ok s := by
  cases s with
  | atom t => rfl
  | list ss =>
    have hitems := readFrom_flattenItems text ss [] [] [.closing]
    rw [List.append_nil] at hitems
    show readFrom text [[]] (flattenItems ss ++ [.closing]) = _
    rw [hitems, readFrom, List.reverse_reverse]
    rfl

/-! ## 4. The text of an expression -/

theorem isAtom_iff {t : String} : IsAtom t ↔ t ≠ "" ∧ t.toList.all isAtomChar = true := by
  rw [IsAtom, List.all_eq_true]

theorem proper_atom {t : String} : Proper (.atom t) ↔ IsAtom t := by
  simp [Proper, flatten]

theorem mem_flattenItems {t : Token} {items : List SExpr} :
    t ∈ flattenItems items ↔ ∃ s ∈ items, t ∈ s.flatten := by
  induction items with
  | nil => simp [flattenItems]
  | cons s items ih => simp [flattenItems, ih]

theorem proper_list {items : List SExpr} : Proper (.list items) ↔ ∀ s ∈ items, Proper s := by
  have hmem : ∀ t : String, .atom t ∈ flatten (.list items) ↔ ∃ s ∈ items, .atom t ∈ s.flatten := by
    intro t
    simp [flatten, mem_flattenItems]
  constructor
  · intro h s hs t ht
    exact h t ((hmem t).2 ⟨s, hs, ht⟩)
  · intro h t ht
    obtain ⟨s, hs, hts⟩ := (hmem t).1 ht
    exact h s hs t hts

theorem proper_app {op : String} {operands : List SExpr} :
    Proper (.app op operands) ↔ IsAtom op ∧ ∀ s ∈ operands, Proper s := by
  rw [app, proper_list, List.forall_mem_cons, proper_atom]

mutual

/-- The text of an expression before a text in which no atom goes on. -/
theorem spells_text_append {s : SExpr} (hs : s.Proper) {cs : List Char} {ts : List Token}
    (hend : ∀ c ∈ cs.head?, isAtomChar c = false) (h : Spells cs ts) :
    Spells (s.text.toList ++ cs) (s.flatten ++ ts) := by
  cases s with
  | atom t =>
    obtain ⟨hne, hall⟩ := proper_atom.1 hs
    have hspell := Spells.atom (fun hnil => hne (String.toList_eq_nil_iff.1 hnil)) hall hend h
    rw [String.ofList_toList] at hspell
    exact hspell
  | list items =>
    have hclosing : ∀ c ∈ (')' :: cs).head?, isAtomChar c = false := by
      intro c hc
      obtain rfl := Option.some.inj hc
      rfl
    cases items with
    | nil => exact .opening (.closing h)
    | cons item items =>
      obtain ⟨hitem, hitems⟩ := List.forall_mem_cons.1 (proper_list.1 hs)
      have hrest := spells_restText_append hitems hclosing (.closing h)
      have hfirst := spells_text_append hitem hrest.1 hrest.2
      have hopening := Spells.opening hfirst
      simpa [text, flatten, flattenItems] using hopening

/-- The text of further items, each behind a blank. -/
theorem spells_restText_append {items : List SExpr} (hs : ∀ s ∈ items, s.Proper) {cs : List Char}
    {ts : List Token} (hend : ∀ c ∈ cs.head?, isAtomChar c = false) (h : Spells cs ts) :
    (∀ c ∈ ((restText items).toList ++ cs).head?, isAtomChar c = false) ∧
      Spells ((restText items).toList ++ cs) (flattenItems items ++ ts) := by
  cases items with
  | nil => exact ⟨hend, h⟩
  | cons item items =>
    obtain ⟨hitem, hitems⟩ := List.forall_mem_cons.1 hs
    have hrest := spells_restText_append hitems hend h
    have hfirst := spells_text_append hitem hrest.1 hrest.2
    have hblank := Spells.blank (c := ' ') (by decide) hfirst
    constructor
    · intro c hc
      have hspace : c = ' ' := by simpa [restText] using hc.symm
      rw [hspace]
      rfl
    · simpa [restText, flattenItems] using hblank

end

/-- **The text of an expression spells its tokens.** -/
theorem spells_text {s : SExpr} (hs : s.Proper) : Spells s.text.toList s.flatten := by
  have h : Spells (s.text.toList ++ []) (s.flatten ++ []) :=
    spells_text_append hs (fun c hc => nomatch hc) .done
  rwa [List.append_nil, List.append_nil] at h

/-! ## 5. Reading -/

theorem read_eq {text : String} {ts : List Token} (h : Spells text.toList ts) :
    read text = ofTokens text ts := by
  unfold read
  rw [tokens_eq_ok_iff.2 h]
  rfl

/-- **Every spelling of an expression is read as that expression.** -/
theorem read_of_spells {text : String} {s : SExpr} (h : Spells text.toList s.flatten) :
    read text = .ok s := by
  rw [read_eq h, ofTokens_flatten]

/-- **The text of an expression is read as that expression.** -/
theorem read_text {s : SExpr} (hs : s.Proper) : read s.text = .ok s :=
  read_of_spells (spells_text hs)

/-- A fault of a reader that is not about a single character. -/
def ReadFault.isStructural : ReadFault → Bool
  | .unexpected _ _ => false
  | .empty | .trailing _ | .unopened _ | .unclosed _ => true

theorem isStructural_of_complete {s : SExpr} {rest : List Token} {f : ReadFault}
    (h : complete s rest = .error f) : f.isStructural = true := by
  cases rest with
  | nil => cases h
  | cons t rest =>
    cases h
    rfl

theorem isStructural_of_readFrom {text : String} {open_ : List (List SExpr)} {ts : List Token}
    {f : ReadFault} (h : readFrom text open_ ts = .error f) : f.isStructural = true := by
  induction ts generalizing open_ with
  | nil =>
    cases h
    rfl
  | cons t ts ih =>
    cases t with
    | opening => exact ih h
    | closing =>
      rcases open_ with - | ⟨items, - | ⟨outer, open_⟩⟩
      · cases h
        rfl
      · exact isStructural_of_complete h
      · exact ih h
    | atom t =>
      cases open_ with
      | nil => exact isStructural_of_complete h
      | cons items open_ => exact ih h

theorem isStructural_of_ofTokens {text : String} {ts : List Token} {f : ReadFault}
    (h : ofTokens text ts = .error f) : f.isStructural = true := by
  cases ts with
  | nil =>
    cases h
    rfl
  | cons t ts => exact isStructural_of_readFrom h

/-- **The reader accepts exactly the spellings of expressions.** Every text has tokens, exactly
    those that it spells; it is read if and only if they are one atom or one balanced list, as the
    expression that is written with them, and refused for the order of its tokens otherwise.
    An expression with proper atoms is read from its text, and from every text with the same tokens
    and other blanks between them. -/
theorem read_exactly_expressions (text : String) (s : SExpr) :
    (∃ ts, tokens text = .ok ts ∧ (∀ us, Spells text.toList us ↔ us = ts) ∧
      ((∃ r, read text = .ok r) ↔ IsExpression ts) ∧
      (∀ r, read text = .ok r → r.flatten = ts) ∧
      (¬ IsExpression ts → ∃ f, read text = .error f ∧ f.isStructural = true)) ∧
    (s.Proper → read s.text = .ok s ∧ (Spells text.toList s.flatten → read text = .ok s)) := by
  obtain ⟨ts, hts, hspell⟩ := exists_tokens text
  have hread : read text = ofTokens text ts := read_eq hspell
  have hiff : (∃ r, read text = .ok r) ↔ IsExpression ts := by
    rw [hread]
    exact exists_ofTokens_iff
  refine ⟨⟨ts, hts, ?_, hiff, ?_, ?_⟩, fun hs => ⟨read_text hs, read_of_spells⟩⟩
  · intro us
    constructor
    · exact fun h => h.unique hspell
    · rintro rfl
      exact hspell
  · intro r hr
    rw [hread] at hr
    exact flatten_of_ofTokens hr
  · intro hnot
    cases hr : read text with
    | ok r => exact absurd (hiff.1 ⟨r, hr⟩) hnot
    | error f =>
      rw [hread] at hr
      exact ⟨f, rfl, isStructural_of_ofTokens hr⟩

/-- A list with a list in it, spelled with blanks at all places where there may be some. -/
theorem read_exactly_expressions_of_blanks :
    Proper (.list [.atom "a", .list [.atom "b"]]) ∧
      Spells " ( a\t(b)\n) ".toList (flatten (.list [.atom "a", .list [.atom "b"]])) ∧
      read " ( a\t(b)\n) " = .ok (.list [.atom "a", .list [.atom "b"]]) := by
  have ha : IsAtom "a" := isAtom_iff.2 (by decide)
  have hb : IsAtom "b" := isAtom_iff.2 (by decide)
  have hproper : Proper (.list [.atom "a", .list [.atom "b"]]) := by
    simp [proper_list, proper_atom, ha, hb]
  have hend : Spells [')', '\n', ')', ' '] [.closing, .closing] :=
    .closing (.blank (by decide) (.closing (.blank (by decide) .done)))
  have hinner : Spells ['b', ')', '\n', ')', ' '] [.atom "b", .closing, .closing] :=
    Spells.atom (List.cons_ne_nil 'b' []) hb.2 (by simp [isAtomChar]) hend
  have houter : Spells ['a', '\t', '(', 'b', ')', '\n', ')', ' ']
      [.atom "a", .opening, .atom "b", .closing, .closing] :=
    Spells.atom (List.cons_ne_nil 'a' []) ha.2 (by simp [isAtomChar]; decide)
      (.blank (by decide) (.opening hinner))
  have hspell : Spells " ( a\t(b)\n) ".toList (flatten (.list [.atom "a", .list [.atom "b"]])) :=
    .blank (by decide) (.opening (.blank (by decide) houter))
  exact ⟨hproper, hspell, ((read_exactly_expressions _ _).2 hproper).2 hspell⟩

end Credal.SExpr
