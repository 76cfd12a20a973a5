import Credal.Proofs.Language.Operands
import Credal.Proofs.Number.Texts
import Credal.StateSpace.LetterSet

/-!
# Sentences are read off their texts

A name made of letters of the alphabet and a literal go on up to a break, and so does a letter with
its index, whose digits are no letters of the alphabet. The kind of the first character tells the
closed sentences apart, and no sentence ends where one of its operands does: a connective stands
behind an operand, a parenthesis or a bar behind a sentence.

* `literal_unique`, `Letter.text_unique`: **a literal and a letter are told from the others** by
  their texts;
* `Sentence.Legible`, `sentences`, `sentence_unique`: **a sentence is told from the others**.
-/

namespace Credal

open Credal.Number

/-! ## 1. Names and numbers -/

/-- A name is made of letters of the alphabet. -/
def IsName (t : String) : Prop := t.toList ≠ [] ∧ ∀ c ∈ t.toList, c.isAlpha = true

theorem not_isBreak_of_isAlphanum {c : Char} (h : c.isAlphanum = true) : ¬ IsBreak c := by
  intro hbreak
  rcases hbreak with rfl | rfl | rfl
  · exact absurd h (by decide)
  · exact absurd h (by decide)
  · exact absurd h (by decide)

theorem not_isBreak_of_isAlpha {c : Char} (h : c.isAlpha = true) : ¬ IsBreak c :=
  not_isBreak_of_isAlphanum (Bool.or_eq_true_iff.2 (.inl h))

theorem not_isBreak_of_isDigit {c : Char} (h : c.isDigit = true) : ¬ IsBreak c :=
  not_isBreak_of_isAlphanum (Bool.or_eq_true_iff.2 (.inr h))

theorem not_isBreak_of_isNumeralChar {c : Char} (h : IsNumeralChar c) : ¬ IsBreak c := by
  rcases h with h | rfl | rfl | rfl | rfl
  · exact not_isBreak_of_isDigit h
  · decide
  · decide
  · decide
  · decide

/-- A digit is not a letter of the alphabet. -/
theorem not_isAlpha_of_isDigit {c : Char} (h : c.isDigit = true) : ¬ c.isAlpha = true := by
  obtain ⟨-, hhigh⟩ := isDigit_iff.1 h
  intro halpha
  simp only [Char.isAlpha, Char.isUpper, Char.isLower, Bool.or_eq_true, Bool.and_eq_true,
    decide_eq_true_eq] at halpha
  rcases halpha with ⟨hlow, -⟩ | ⟨hlow, -⟩
  · exact absurd (Nat.le_trans hlow hhigh) (by decide)
  · exact absurd (Nat.le_trans hlow hhigh) (by decide)

/-- **A literal is told from the others** by its text. -/
theorem literal_unique {x y : Float} {rest rest' : List Char} (hx : x.isFinite = true ∧ ¬ x < 0)
    (hy : y.isFinite = true ∧ ¬ y < 0) (hrest : Stops IsBreak rest) (hrest' : Stops IsBreak rest')
    (h : (Double.plain x).toList ++ rest = (Double.plain y).toList ++ rest') :
    (x == y) = true ∧ rest = rest' := by
  have hchars : ∀ {z : Float}, z.isFinite = true ∧ ¬ z < 0 →
      ∀ c ∈ (Double.plain z).toList, ¬ IsBreak c := by
    intro z hz c hc
    obtain ⟨p, hp⟩ := Double.exists_parts? hz.1
    obtain ⟨d, hd, -⟩ := Double.spelled_plain hp hz.2
    exact not_isBreak_of_isNumeralChar (hd.exists_cons.2 c hc)
  obtain ⟨htext, hrests⟩ := append_eq_append_of_stops (hchars hx) (hchars hy) hrest hrest' h
  exact ⟨Double.beq_of_plain_eq hx.1 hx.2 hy.1 hy.2 (String.toList_inj.1 htext), hrests⟩

/-- The text of a literal begins with a digit. -/
theorem leads_literal {x : Float} (hx : x.isFinite = true ∧ ¬ x < 0) :
    Leads '0' (Double.plain x).toList := by
  obtain ⟨p, hp⟩ := Double.exists_parts? hx.1
  obtain ⟨d, hd, -⟩ := Double.spelled_plain hp hx.2
  obtain ⟨c, cs, htext, hc⟩ := hd.exists_cons.1
  refine ⟨c, cs, htext, ?_⟩
  rw [kindOf, if_neg (not_isAlpha_of_isDigit hc), if_pos hc]

namespace Letter

variable {l l' : Letter}

/-- A letter with a name made of letters of the alphabet and an index that is not negative. -/
structure Legible (l : Letter) : Prop where
  isName : IsName l.id
  index_nonneg : 0 ≤ l.index

/-- The digits behind the name of a letter. -/
def digits (l : Letter) : List Char := if 0 < l.index then natText l.index.natAbs else []

theorem toList_text (l : Letter) : l.text.toList = l.id.toList ++ l.digits := by
  unfold text digits
  split
  · rename_i h
    rw [String.toList_append, toList_intText, if_neg (not_lt.2 h.le)]
  · exact (List.append_nil _).symm

theorem isDigit_of_mem_digits {c : Char} (h : c ∈ l.digits) : c.isDigit = true := by
  unfold digits at h
  split at h
  · exact isDigit_of_mem_natText h
  · exact nomatch h

theorem index_eq_of_digits_eq (hl : 0 ≤ l.index) (hl' : 0 ≤ l'.index) (h : l.digits = l'.digits) :
    l.index = l'.index := by
  unfold digits at h
  split at h
  · split at h
    · have habs := natText_injective h
      omega
    · exact absurd h (natText_ne_nil _)
  · split at h
    · exact absurd h.symm (natText_ne_nil _)
    · omega

/-- **A letter is told from the others** by its text. -/
theorem text_unique (hl : l.Legible) (hl' : l'.Legible) {rest rest' : List Char}
    (hrest : Stops IsBreak rest) (hrest' : Stops IsBreak rest')
    (h : l.text.toList ++ rest = l'.text.toList ++ rest') : l = l' ∧ rest = rest' := by
  have hchars : ∀ {m : Letter}, m.Legible → ∀ c ∈ m.text.toList, ¬ IsBreak c := by
    intro m hm c hc
    rw [toList_text] at hc
    rcases List.mem_append.1 hc with hc | hc
    · exact not_isBreak_of_isAlpha (hm.isName.2 c hc)
    · exact not_isBreak_of_isDigit (isDigit_of_mem_digits hc)
  obtain ⟨htext, hrests⟩ := append_eq_append_of_stops (hchars hl) (hchars hl') hrest hrest' h
  -- the name goes on up to the digits
  have hstops : ∀ m : Letter, Stops (fun c => ¬ c.isAlpha = true) m.digits := fun m c hc =>
    not_isAlpha_of_isDigit (isDigit_of_mem_digits (List.mem_of_mem_head? hc))
  rw [toList_text, toList_text] at htext
  obtain ⟨hid, hdigits⟩ := append_eq_append_of_stops (fun c hc => not_not.2 (hl.isName.2 c hc))
    (fun c hc => not_not.2 (hl'.isName.2 c hc)) (hstops l) (hstops l') htext
  have hindex := index_eq_of_digits_eq hl.index_nonneg hl'.index_nonneg hdigits
  refine ⟨?_, hrests⟩
  obtain ⟨id, index⟩ := l
  obtain ⟨id', index'⟩ := l'
  exact (Letter.mk.injEq ..).mpr ⟨String.toList_inj.1 hid, hindex⟩

end Letter

/-! ## 2. Sentences -/

/-- All letters of a sentence are legible. -/
def Sentence.Legible (s : Sentence) : Prop := ∀ l ∈ s.letters, l.Legible

namespace Sentence

variable {s t : Sentence}

theorem legible_binary_iff {k : Connective} :
    (binary k s t).Legible ↔ s.Legible ∧ t.Legible := List.forall_mem_append

/-- The kind of the first character of an operand. -/
def kind : Sentence → Char
  | .value true => '⊤'
  | .value false => '⊥'
  | .letter _ => 'a'
  | .negation _ => '~'
  | .binary .. => '('

theorem toList_text_negation (s : Sentence) :
    (negation s).text.toList = '~' :: wrap s.isClosed s.text.toList := by
  show ("~" ++ operandText s.isClosed s.text).toList = _
  rw [String.toList_append, toList_operandText]
  rfl

theorem toList_text_binary (k : Connective) (s t : Sentence) : (binary k s t).text.toList =
    wrap s.isClosed s.text.toList ++ (spaced k.symbol ++ wrap t.isClosed t.text.toList) := by
  show (operandText s.isClosed s.text ++ " " ++ k.symbol ++ " " ++
    operandText t.isClosed t.text).toList = _
  simp only [String.toList_append, toList_operandText, k.toList_symbol, List.append_assoc]
  rfl

/-- A closed text begins with a character of its kind. -/
theorem leads_kind (hs : s.Legible) (hc : s.isClosed = true) : Leads s.kind s.text.toList := by
  cases s with
  | value b =>
    cases b with
    | true => exact ⟨'⊤', [], rfl, by decide⟩
    | false => exact ⟨'⊥', [], rfl, by decide⟩
  | letter l =>
    have hname := (hs l (List.mem_singleton_self l)).isName
    show Leads 'a' l.text.toList
    rw [Letter.toList_text]
    exact (leads_of_isAlpha hname.1 hname.2).append _
  | negation s =>
    rw [toList_text_negation]
    exact leads_cons
  | binary k s t => exact nomatch hc

theorem kind_ne (hc : s.isClosed = true) : s.kind ≠ '(' := by
  cases s with
  | value b => cases b <;> decide
  | binary k s t => exact nomatch hc
  | _ => simp [kind]

end Sentence

/-- Sentences in infix notation; a bar may stand behind one. -/
def sentences : Infix Sentence Connective where
  text s := s.text.toList
  closed := Sentence.isClosed
  bare _ := Sentence.isClosed
  join := Sentence.binary
  separator k := spaced k.symbol
  Legible := Sentence.Legible
  Same := Eq
  Follows := (· = '|')
  text_join := Sentence.toList_text_binary
  closed_of_bare _ _ h := h
  leads s hs hc := ⟨s.kind, Sentence.leads_kind hs hc, Sentence.kind_ne hc⟩
  separator_append_inj := Connective.spaced_append_inj
  stops_separator := Connective.stops_spaced
  not_ends_separator k rest h := by
    cases h with
    | sign c cs hc => cases k <;> exact absurd hc (by decide)
  legible_of_join _ _ _ h := Sentence.legible_binary_iff.1 h
  same_join _ _ _ _ _ h h' := h ▸ h' ▸ rfl

/-- The closed sentences are told apart by their first characters. -/
theorem sentence_closedUnique {s : Sentence} (hs : s.Legible)
    (hparts : ∀ t, s = .negation t → sentences.OperandUnique t) : sentences.ClosedUnique s := by
  intro hc s' rest rest' hs' hc' hrest hrest' h
  have hkind : s.kind = s'.kind :=
    ((Sentence.leads_kind hs hc).append rest).unique
      (h ▸ (Sentence.leads_kind hs' hc').append rest')
  change s.text.toList ++ rest = s'.text.toList ++ rest' at h
  cases s with
  | value b =>
    cases s' with
    | value b' =>
      have hb : b = b' := by cases b <;> cases b' <;> first | rfl | exact absurd hkind (by decide)
      subst hb
      exact ⟨rfl, List.append_cancel_left h⟩
    | letter l' => cases b <;> simp [Sentence.kind] at hkind
    | negation t' => cases b <;> simp [Sentence.kind] at hkind
    | binary => exact nomatch hc'
  | letter l =>
    cases s' with
    | value b' => cases b' <;> simp [Sentence.kind] at hkind
    | letter l' =>
      obtain ⟨rfl, hrests⟩ := Letter.text_unique (hs l (List.mem_singleton_self l))
        (hs' l' (List.mem_singleton_self l')) hrest hrest' h
      exact ⟨rfl, hrests⟩
    | negation t' => exact absurd hkind (by decide : 'a' ≠ '~')
    | binary => exact nomatch hc'
  | negation t =>
    cases s' with
    | value b' => cases b' <;> simp [Sentence.kind] at hkind
    | letter l' => exact absurd hkind (by decide : '~' ≠ 'a')
    | negation t' =>
      rw [Sentence.toList_text_negation, Sentence.toList_text_negation] at h
      obtain ⟨hsame, hrests⟩ := hparts t rfl _ _ t' rest rest' id id hs' hrest hrest'
        (List.cons.inj h).2
      exact ⟨congrArg Sentence.negation hsame, hrests⟩
    | binary => exact nomatch hc'
  | binary => exact nomatch hc

/-- **A sentence is told from the others** by its text. -/
theorem sentence_unique {s : Sentence} (hs : s.Legible) :
    sentences.OperandUnique s ∧ sentences.WholeUnique s := by
  have hplain : ∀ t : Sentence, t.Legible → sentences.Plain t := by
    intro t _
    cases t with
    | binary k a b => exact .inr ⟨k, a, b, rfl⟩
    | _ => exact .inl rfl
  induction s with
  | value b => exact Infix.unique hplain hs (sentence_closedUnique hs nofun) nofun
  | letter l => exact Infix.unique hplain hs (sentence_closedUnique hs nofun) nofun
  | negation t ih =>
    refine Infix.unique hplain hs (sentence_closedUnique hs fun u hu => ?_) nofun
    cases hu
    exact (ih hs).1
  | binary k a b iha ihb =>
    obtain ⟨ha, hb⟩ := Sentence.legible_binary_iff.1 hs
    refine Infix.unique hplain hs (sentence_closedUnique hs nofun) fun k' a' b' heq => ?_
    cases heq
    exact ⟨(iha ha).1, (ihb hb).1⟩

end Credal
