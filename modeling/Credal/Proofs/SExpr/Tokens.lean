import Credal.SExpr.Reader
import Mathlib.Data.List.Infix
import Mathlib.Data.List.TakeWhile

/-!
# The tokens of a text

The reader leaves out the blanks at the end of a text and then takes token after token from its
front. What it finds is said here without regard to how it is found: a text spells tokens if it is
made of them in order, with blanks before, between and behind them, and no atom is followed by a
character that could still belong to it.

* `Spells`: a text spells a list of tokens;
* `nextToken?_blank`, `nextToken?_opening`, `nextToken?_closing`, `nextToken?_atom`: the token at
  the front, by the character that stands there;
* `nextToken?_cases`: a text is blank, or its first token is found;
* `exists_scan`: a text that does not end in a blank is cut into tokens to its end;
* `tokens_eq_ok_iff`: every text has tokens, exactly the ones that it spells.
-/

namespace Credal.SExpr

open Credal.Text

/-- A text is made of tokens in order. Blanks may stand anywhere but inside an atom, and an atom
    ends where the text ends or at a character that stands in no atom. -/
inductive Spells : List Char → List Token → Prop
  | done : Spells [] []
  | blank {c : Char} {cs : List Char} {ts : List Token} (hc : isBlank c = true)
      (h : Spells cs ts) : Spells (c :: cs) ts
  | opening {cs : List Char} {ts : List Token} (h : Spells cs ts) :
      Spells ('(' :: cs) (.opening :: ts)
  | closing {cs : List Char} {ts : List Token} (h : Spells cs ts) :
      Spells (')' :: cs) (.closing :: ts)
  | atom {run cs : List Char} {ts : List Token} (hne : run ≠ [])
      (hrun : ∀ c ∈ run, isAtomChar c = true) (hend : ∀ c ∈ cs.head?, isAtomChar c = false)
      (h : Spells cs ts) : Spells (run ++ cs) (.atom (String.ofList run) :: ts)

/-! ## 1. Characters -/

theorem isAtomChar_iff {c : Char} :
    isAtomChar c = true ↔ isBlank c = false ∧ c ≠ '(' ∧ c ≠ ')' := by
  simp [isAtomChar, and_assoc]

theorem isAtomChar_of_isBlank {c : Char} (h : isBlank c = true) : isAtomChar c = false := by
  simp [isAtomChar, h]

theorem isBlank_opening : isBlank '(' = false := by decide

theorem isBlank_closing : isBlank ')' = false := by decide

/-! ## 2. The token at the front -/

section

variable {c : Char} {cs run rest : List Char} {t : Token}

theorem nextToken?_nil : nextToken? [] = none := rfl

theorem nextToken?_blank (hc : isBlank c = true) : nextToken? (c :: cs) = nextToken? cs := by
  unfold nextToken?
  rw [List.dropWhile_cons_of_pos hc]

theorem nextToken?_opening : nextToken? ('(' :: cs) = some (.opening, cs) := by
  unfold nextToken?
  rw [List.dropWhile_cons_of_neg (by simp [isBlank_opening])]
  rfl

theorem nextToken?_closing : nextToken? (')' :: cs) = some (.closing, cs) := by
  unfold nextToken?
  rw [List.dropWhile_cons_of_neg (by simp [isBlank_closing])]
  rfl

/-- The characters of an atom up to its end. -/
theorem takeWhile_dropWhile_run (hrun : ∀ c ∈ run, isAtomChar c = true)
    (hend : ∀ c ∈ cs.head?, isAtomChar c = false) :
    (run ++ cs).takeWhile isAtomChar = run ∧ (run ++ cs).dropWhile isAtomChar = cs := by
  have htake : cs.takeWhile isAtomChar = [] := by
    cases cs with
    | nil => rfl
    | cons c cs => exact List.takeWhile_cons_of_neg (by simp [hend c rfl])
  have hdrop : cs.dropWhile isAtomChar = cs := by
    cases cs with
    | nil => rfl
    | cons c cs => exact List.dropWhile_cons_of_neg (by simp [hend c rfl])
  constructor
  · rw [List.takeWhile_append_of_pos hrun, htake, List.append_nil]
  · rw [List.dropWhile_append_of_pos hrun, hdrop]

theorem nextToken?_atom (hne : run ≠ []) (hrun : ∀ c ∈ run, isAtomChar c = true)
    (hend : ∀ c ∈ cs.head?, isAtomChar c = false) :
    nextToken? (run ++ cs) = some (.atom (String.ofList run), cs) := by
  obtain ⟨htake, hdrop⟩ := takeWhile_dropWhile_run hrun hend
  obtain ⟨c, run', rfl⟩ := List.exists_cons_of_ne_nil hne
  obtain ⟨hblank, hopening, hclosing⟩ := isAtomChar_iff.1 (hrun c List.mem_cons_self)
  have hskip : (c :: run' ++ cs).dropWhile isBlank = c :: run' ++ cs :=
    List.dropWhile_cons_of_neg (by simp [hblank])
  unfold nextToken?
  rw [hskip]
  split
  · rename_i heq
    exact absurd (List.cons.inj heq).1 hopening
  · rename_i heq
    exact absurd (List.cons.inj heq).1 hclosing
  · simp only [htake, hdrop]
    rfl

end

/-! ## 3. Spelling -/

namespace Spells

variable {cs bs : List Char} {ts us : List Token} {t : Token}

theorem append_blanks (h : Spells cs ts) (hb : ∀ c ∈ bs, isBlank c = true) :
    Spells (cs ++ bs) ts := by
  induction h with
  | done =>
    induction bs with
    | nil => exact .done
    | cons b bs ih =>
      obtain ⟨h1, h2⟩ := List.forall_mem_cons.1 hb
      exact .blank h1 (ih h2)
  | blank hc _ ih => exact .blank hc ih
  | opening _ ih => exact .opening ih
  | closing _ ih => exact .closing ih
  | @atom run cs ts hne hrun hend _ ih =>
    rw [List.append_assoc]
    refine .atom hne hrun ?_ ih
    intro c hc
    cases cs with
    | nil => exact isAtomChar_of_isBlank (hb c (List.mem_of_mem_head? hc))
    | cons d cs => exact hend c hc

/-- Where no token is spelled, none is found. -/
theorem nextToken?_eq_none (h : Spells cs []) : nextToken? cs = none := by
  generalize hts : ([] : List Token) = ts at h
  induction h with
  | done => exact nextToken?_nil
  | blank hc _ ih => rw [nextToken?_blank hc, ih hts]
  | opening | closing | atom => cases hts

/-- **The first token that is spelled is the one that is found**, and the rest spells the rest. -/
theorem exists_nextToken? (h : Spells cs (t :: ts)) :
    ∃ rest, nextToken? cs = some (t, rest) ∧ Spells rest ts := by
  generalize hts : t :: ts = us at h
  induction h with
  | done => cases hts
  | blank hc _ ih =>
    rw [nextToken?_blank hc]
    exact ih hts
  | @opening cs us h _ =>
    cases hts
    exact ⟨cs, nextToken?_opening, h⟩
  | @closing cs us h _ =>
    cases hts
    exact ⟨cs, nextToken?_closing, h⟩
  | @atom run cs us hne hrun hend h _ =>
    cases hts
    exact ⟨cs, nextToken?_atom hne hrun hend, h⟩

/-- **A text spells one list of tokens at most.** -/
theorem unique (h : Spells cs ts) (h' : Spells cs us) : ts = us := by
  induction ts generalizing cs us with
  | nil =>
    cases us with
    | nil => rfl
    | cons u us =>
      obtain ⟨rest, hsome, -⟩ := h'.exists_nextToken?
      have hnone := h.nextToken?_eq_none
      rw [hsome] at hnone
      cases hnone
  | cons t ts ih =>
    obtain ⟨rest, ht, hrest⟩ := h.exists_nextToken?
    cases us with
    | nil =>
      have hnone := h'.nextToken?_eq_none
      rw [ht] at hnone
      cases hnone
    | cons u us =>
      obtain ⟨rest', hu, hrest'⟩ := h'.exists_nextToken?
      have heq := Option.some.inj (ht.symm.trans hu)
      obtain ⟨rfl, rfl⟩ := Prod.mk.inj heq
      rw [ih hrest hrest']

end Spells

/-- **A text is blank, or its first token is found**: what stands behind it is the end of the text,
    and with the tokens spelled there the text spells one more. -/
theorem nextToken?_cases (cs : List Char) :
    (nextToken? cs = none ∧ ∀ c ∈ cs, isBlank c = true) ∨
    ∃ t rest, nextToken? cs = some (t, rest) ∧ rest <:+ cs ∧
      ∀ ts, Spells rest ts → Spells cs (t :: ts) := by
  induction cs with
  | nil => exact Or.inl ⟨nextToken?_nil, fun c hc => absurd hc List.not_mem_nil⟩
  | cons c cs ih =>
    by_cases hblank : isBlank c = true
    · rw [nextToken?_blank hblank]
      rcases ih with ⟨hnone, hall⟩ | ⟨t, rest, hsome, hsuffix, hspell⟩
      · exact Or.inl ⟨hnone, List.forall_mem_cons.2 ⟨hblank, hall⟩⟩
      · exact Or.inr ⟨t, rest, hsome, hsuffix.trans (List.suffix_cons c cs),
          fun ts h => .blank hblank (hspell ts h)⟩
    · right
      by_cases hopening : c = '('
      · subst hopening
        exact ⟨_, _, nextToken?_opening, List.suffix_cons _ cs, fun ts h => .opening h⟩
      · by_cases hclosing : c = ')'
        · subst hclosing
          exact ⟨_, _, nextToken?_closing, List.suffix_cons _ cs, fun ts h => .closing h⟩
        · -- neither a blank nor a parenthesis, so an atom begins here
          have hc : isAtomChar c = true :=
            isAtomChar_iff.2 ⟨eq_false_of_ne_true hblank, hopening, hclosing⟩
          have hsplit :
              (c :: cs).takeWhile isAtomChar ++ (c :: cs).dropWhile isAtomChar = c :: cs :=
            List.takeWhile_append_dropWhile
          have hne : (c :: cs).takeWhile isAtomChar ≠ [] := by
            rw [List.takeWhile_cons_of_pos hc]
            exact List.cons_ne_nil _ _
          have hrun : ∀ d ∈ (c :: cs).takeWhile isAtomChar, isAtomChar d = true :=
            fun d hd => List.mem_takeWhile_imp hd
          have hend : ∀ d ∈ ((c :: cs).dropWhile isAtomChar).head?, isAtomChar d = false := by
            intro d hd
            have hnot := List.head?_dropWhile_not isAtomChar (c :: cs)
            rw [Option.mem_def.1 hd] at hnot
            simpa using hnot
          have hfound := nextToken?_atom hne hrun hend
          rw [hsplit] at hfound
          refine ⟨_, _, hfound, List.dropWhile_suffix _, fun ts h => ?_⟩
          have hspell := Spells.atom hne hrun hend h
          rw [hsplit] at hspell
          exact hspell

/-! ## 4. The tokens of a text -/

/-- A text that does not end in a blank is cut into tokens to its end. -/
theorem exists_scan (text : List Char) {cs : List Char}
    (hlast : ∀ c ∈ cs.getLast?, isBlank c = false) :
    ∃ ts, scan text cs = .ok ts ∧ Spells cs ts := by
  induction hn : cs.length using Nat.strong_induction_on generalizing cs with
  | _ n ih =>
    cases cs with
    | nil => exact ⟨[], by rw [scan]; rfl, .done⟩
    | cons c cs =>
      rcases nextToken?_cases (c :: cs) with ⟨-, hall⟩ | ⟨t, rest, hsome, hsuffix, hspell⟩
      · -- the last character is none of the blanks that are left
        have hmem : (c :: cs).getLast (List.cons_ne_nil c cs) ∈ (c :: cs).getLast? :=
          List.getLast?_eq_some_getLast (List.cons_ne_nil c cs)
        have hblank := hall _ (List.getLast_mem (List.cons_ne_nil c cs))
        rw [hlast _ hmem] at hblank
        cases hblank
      · have hlt : rest.length < n := hn ▸ length_lt_of_nextToken? hsome
        have hlast' : ∀ d ∈ rest.getLast?, isBlank d = false := by
          intro d hd
          refine hlast d ?_
          obtain ⟨front, hfront⟩ := hsuffix
          rw [← hfront, List.getLast?_append, Option.mem_def.1 hd]
          rfl
        obtain ⟨ts, hts, hrest⟩ := ih rest.length hlt hlast' rfl
        refine ⟨t :: ts, ?_, hspell ts hrest⟩
        rw [scan]
        simp only [List.isEmpty_cons, Bool.false_eq_true, if_false]
        split
        · rename_i t' rest' hsome'
          obtain ⟨rfl, rfl⟩ := Prod.mk.inj (Option.some.inj (hsome'.symm.trans hsome))
          rw [hts]
          rfl
        · rename_i hnone
          rw [hsome] at hnone
          cases hnone

/-- A text is its part up to the last character that is no blank, and blanks. -/
theorem exists_trimEnd_append (cs : List Char) :
    (∃ bs, trimEnd cs ++ bs = cs ∧ ∀ c ∈ bs, isBlank c = true) ∧
      ∀ c ∈ (trimEnd cs).getLast?, isBlank c = false := by
  constructor
  · refine ⟨(cs.reverse.takeWhile isBlank).reverse, ?_, ?_⟩
    · rw [trimEnd, ← List.reverse_append, List.takeWhile_append_dropWhile, List.reverse_reverse]
    · intro c hc
      exact List.mem_takeWhile_imp (List.mem_reverse.1 hc)
  · intro c hc
    rw [trimEnd, List.getLast?_reverse] at hc
    have hnot := List.head?_dropWhile_not isBlank cs.reverse
    rw [Option.mem_def.1 hc] at hnot
    simpa using hnot

/-- **Every text has tokens**: the fault of a character that begins none does not occur. -/
theorem exists_tokens (text : String) : ∃ ts, tokens text = .ok ts ∧ Spells text.toList ts := by
  obtain ⟨⟨bs, hbs, hblank⟩, hlast⟩ := exists_trimEnd_append text.toList
  obtain ⟨ts, hts, hspell⟩ := exists_scan (trimEnd text.toList) hlast
  refine ⟨ts, hts, ?_⟩
  rw [← hbs]
  exact hspell.append_blanks hblank

/-- **The tokens of a text are the ones that it spells.** -/
theorem tokens_eq_ok_iff {text : String} {ts : List Token} :
    tokens text = .ok ts ↔ Spells text.toList ts := by
  obtain ⟨us, hus, hspell⟩ := exists_tokens text
  rw [hus, Except.ok.injEq]
  constructor
  · rintro rfl
    exact hspell
  · exact hspell.unique

end Credal.SExpr
