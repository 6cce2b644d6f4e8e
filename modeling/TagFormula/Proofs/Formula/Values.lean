import TagFormula.Proofs.Formula.Parsing
import TagFormula.Proofs.Formula.Preparation
import TagFormula.Proofs.Formula.Splitting
import TagFormula.Proofs.Formula.Substitution
import TagFormula.Proofs.Number.Plain

/-!
# How a value is read

A variable can be written as its value or as its value in parentheses. Both are solid,
so preparation treats them alike. They are read alike, too, where the value has no sign:
a number and a number in parentheses take the parser to the same place.

A minus sign makes a difference. Where an operand is expected, a signed value leaves the
sign open and a value in parentheses does not. The two places are told apart by a power
that follows, and by nothing else (`Reading.AfterValue`). Behind an operand the sign is an
operator, while a parenthesis cannot stand there at all.
-/

namespace TagFormula

open TagFormula.Expr Token Formula

namespace Suggestion

/-- The value of a variable in parentheses. -/
def bracketed (s : Suggestion) : Text :=
  '(' :: (s.plain ++ [')'])

/-- The value of a variable is written with a minus sign. -/
def IsSigned (s : Suggestion) : Prop :=
  ∃ t, s.plain = '-' :: t

/-- A value is a numeral, or a minus sign and a numeral. -/
theorem Valid.plain_form {s : Suggestion} (h : s.Valid) :
    PlainNumeral s.plain ∨ ∃ lit, s.plain = '-' :: lit ∧ PlainNumeral lit :=
  Number.plainDouble?_form h.plainDouble?_eq

end Suggestion

/-! ## Characters of arithmetic -/

namespace Formula

theorem cases_of_isAllowed {c : Char} (h : isAllowed c = true) :
    c.isDigit = true ∨ c ∈ ['+', '-', '*', '/', '^', '(', ')', '.', ' '] := by
  have hdigit : c.isDigit = ('0' ≤ c && c ≤ '9') := rfl
  rw [isAllowed, ← hdigit] at h
  simp only [isTrailingOperator, Bool.or_eq_true, decide_eq_true_eq] at h
  simp only [List.mem_cons, List.not_mem_nil, or_false]
  tauto

theorem isAllowed_of_isDigit {c : Char} (h : c.isDigit = true) : isAllowed c = true := by
  have hdigit : c.isDigit = ('0' ≤ c && c ≤ '9') := rfl
  rw [isAllowed, ← hdigit, h]
  rfl

/-- In arithmetic only the ASCII digits and points are characters of numbers. -/
theorem not_isNumeric {c : Char} (h : isAllowed c = true) (hdigit : c.isDigit = false)
    (hpoint : c ≠ '.') : ¬ IsNumeric c := by
  rintro (hnumeric | hnumeric)
  · rcases cases_of_isAllowed h with hc | hc
    · rw [hdigit] at hc
      exact nomatch hc
    · have hall : ∀ d ∈ ['+', '-', '*', '/', '^', '(', ')', '.', ' '], Text.isDigit d = false := by
        simp only [List.forall_mem_cons, List.not_mem_nil, false_imp_iff, implies_true]
        decide
      rw [hall c hc] at hnumeric
      exact nomatch hnumeric
  · exact hpoint hnumeric

theorem isSpace_of_isAllowed {c : Char} (h : isAllowed c = true) (hc : c ≠ ' ') :
    isSpace c = false := by
  refine Bool.eq_false_iff.2 fun hspace => ?_
  rcases isSpace_iff.1 hspace with rfl | rfl
  · exact hc rfl
  · exact absurd h (by decide)

/-- A digit is neither a blank nor an operator. -/
theorem not_blank_not_trailing_of_isDigit {c : Char} (h : c.isDigit = true) :
    Text.isBlankChar c = false ∧ isTrailingOperator c = false := by
  have hrange : 48 ≤ c.toNat ∧ c.toNat ≤ 57 := by
    simpa [Char.isDigit, UInt32.le_iff_toNat_le] using h
  constructor
  · refine Bool.eq_false_iff.2 fun hblank => ?_
    simp only [Text.isBlankChar, Text.inRanges, Text.blankRanges, List.any_cons, List.any_nil,
      Bool.or_false, Bool.or_eq_true, Bool.and_eq_true, decide_eq_true_eq] at hblank
    omega
  · refine Bool.eq_false_iff.2 fun hop => ?_
    have hmem : c ∈ ['+', '-', '*', '/', '^'] := by
      simpa [isTrailingOperator, or_assoc] using hop
    have hall : ∀ d ∈ ['+', '-', '*', '/', '^'], d.isDigit = false := by
      simp only [List.forall_mem_cons, List.not_mem_nil, false_imp_iff, implies_true]
      decide
    rw [hall c hmem] at h
    exact Bool.false_ne_true h

/-! ## Values are solid -/

theorem solid_of_plainNumeral {t : Text} (h : PlainNumeral t) : Solid t where
  allowed c hc := by
    rcases h.ascii c hc with hdigit | rfl
    · exact isAllowed_of_isDigit hdigit
    · rfl
  balanced depth := by
    refine balance_of_forall (fun c hc => ?_) depth
    rcases h.ascii c hc with hdigit | rfl
    · exact ⟨by rintro rfl; exact absurd hdigit (by decide),
        by rintro rfl; exact absurd hdigit (by decide)⟩
    · decide
  last := by
    have hne := h.numeral.ne_nil
    refine ⟨t.dropLast, t.getLast hne, (List.dropLast_concat_getLast hne).symm, ?_⟩
    rcases h.ascii _ (List.getLast_mem hne) with hdigit | hpoint
    · exact not_blank_not_trailing_of_isDigit hdigit
    · rw [hpoint]
      decide

theorem Solid.cons_minus {t : Text} (h : Solid t) : Solid ('-' :: t) where
  allowed c hc := by
    rcases List.mem_cons.1 hc with rfl | hc
    · rfl
    · exact h.allowed c hc
  balanced depth := by
    rw [balance_cons]
    exact h.balanced depth
  last := by
    obtain ⟨l, c, rfl, hc⟩ := h.last
    exact ⟨'-' :: l, c, rfl, hc⟩

theorem Solid.parenthesized {t : Text} (h : Solid t) : Solid ('(' :: (t ++ [')'])) where
  allowed c hc := by
    simp only [List.mem_cons, List.mem_append, List.not_mem_nil, or_false] at hc
    rcases hc with rfl | hc | rfl
    · rfl
    · exact h.allowed c hc
    · rfl
  balanced depth := by
    rw [balance_cons]
    show balance (depth + 1) (t ++ [')']) = some depth
    rw [balance_append, h.balanced]
    rfl
  last := ⟨'(' :: t, ')', rfl, by decide, by decide⟩

end Formula

namespace Suggestion.Valid

variable {s : Suggestion}

theorem solid_plain (h : s.Valid) : Solid s.plain := by
  rcases h.plain_form with hlit | ⟨lit, heq, hlit⟩
  · exact solid_of_plainNumeral hlit
  · rw [heq]
    exact (solid_of_plainNumeral hlit).cons_minus

theorem solid_bracketed (h : s.Valid) : Solid s.bracketed :=
  h.solid_plain.parenthesized

end Suggestion.Valid

/-! ## Reading on -/

namespace Expr.Reading

/-- Reads the tokens of a text. -/
def read (r : Reading) (t : Text) : Option Reading :=
  (tokens t).foldlM step? r

theorem read_append {u v : Text} (h : Parted u v) (r : Reading) :
    r.read (u ++ v) = (r.read u).bind (·.read v) := by
  rw [read, tokens_append h, List.foldlM_append]
  rfl

theorem read_numeral {t : Text} (h : PlainNumeral t) (r : Reading) :
    r.read t = r.step? (.number t) := by
  rw [read, tokens_of_numeral h.numeral, List.foldlM_cons]
  cases r.step? (.number t) <;> rfl

/-- The tokens of a text in parentheses. -/
theorem tokens_parenthesized (t : Text) :
    tokens ('(' :: (t ++ [')'])) = .opening :: (tokens t ++ [.closing]) := by
  have hopening : ¬ IsNumeric '(' := by
    rintro (h | h) <;> revert h <;> decide
  have hclosing : ¬ IsNumeric ')' := by
    rintro (h | h) <;> revert h <;> decide
  have hlast : tokens [')'] = [.closing] := by
    rw [tokens_cons (by decide) hclosing, tokens_nil]
    rfl
  rw [tokens_cons (by decide) hopening, tokens_append (parted_of_head hclosing t []), hlast]
  rfl

/-- A number in parentheses is read as the number. -/
theorem read_numeral_parenthesized {t : Text} (h : PlainNumeral t) (r : Reading) :
    r.read ('(' :: (t ++ [')'])) = r.step? (.number t) := by
  rw [read, tokens_parenthesized, tokens_of_numeral h.numeral]
  cases r with
  | before frames => rfl
  | after frames e => rfl

theorem tokens_minus {t : Text} (h : PlainNumeral t) : tokens ('-' :: t) = [.minus, .number t] := by
  have hminus : ¬ IsNumeric '-' := by
    rintro (h | h) <;> revert h <;> decide
  rw [tokens_cons (by decide) hminus, tokens_of_numeral h.numeral]
  rfl

/-- Behind a signed value, and behind a signed value in parentheses. -/
inductive AfterValue : Reading → Reading → Prop
  | intro (frames : List Frame) (e : Expr) :
      AfterValue (.after (.signed .neg :: frames) e) (.after frames (.signed .neg e))

/-- A signed value, with or without parentheses, where an operand is expected. -/
theorem read_signed {t : Text} (h : PlainNumeral t) (frames : List Frame) :
    ∃ r r', (before frames).read ('-' :: t) = some r ∧
      (before frames).read ('(' :: ('-' :: t ++ [')'])) = some r' ∧ AfterValue r r' := by
  refine ⟨_, _, ?_, ?_, .intro frames (.number t)⟩
  · rw [read, tokens_minus h]
    rfl
  · rw [read, tokens_parenthesized, tokens_minus h]
    rfl

/-- What follows a signed value makes no difference unless it is a power. -/
theorem AfterValue.step?_eq {r r' : Reading} (h : AfterValue r r') {token : Token}
    (hcaret : token ≠ .caret) : r.step? token = r'.step? token := by
  cases h with
  | intro frames e =>
      cases token with
      | caret => exact absurd rfl hcaret
      | plus | minus | times | slash | closing | number | opening | foreign => rfl

theorem AfterValue.finish?_eq {r r' : Reading} (h : AfterValue r r') : r.finish? = r'.finish? := by
  cases h with
  | intro frames e => rfl

/-- Behind a signed value a number cannot stand, in parentheses or not. -/
theorem AfterValue.step?_number {r r' : Reading} (h : AfterValue r r') (t : Text) :
    r.step? (.number t) = none ∧ r'.step? (.number t) = none := by
  cases h with
  | intro frames e => exact ⟨rfl, rfl⟩

/-- An operator or an opening parenthesis is followed by an operand. -/
theorem exists_before_of_step? {r r' : Reading} {c : Char}
    (hc : c ∈ ['+', '-', '*', '/', '^', '(']) (h : r.step? (ofChar c) = some r') :
    ∃ frames, r' = before frames := by
  simp only [List.mem_cons, List.not_mem_nil, or_false] at hc
  rcases hc with rfl | rfl | rfl | rfl | rfl | rfl <;> cases r <;>
    first
    | exact ⟨_, (Option.some.inj h).symm⟩
    | exact nomatch h

/-- Behind an operator or an opening parenthesis, spaces aside, an operand is expected. -/
theorem exists_before_of_read {r r' : Reading} {c : Char}
    (hc : c ∈ ['+', '-', '*', '/', '^', '(']) {u : Text} {n : Nat}
    (h : r.read (u ++ c :: List.replicate n ' ') = some r') : ∃ frames, r' = before frames := by
  have hall : ∀ d ∈ ['+', '-', '*', '/', '^', '('],
      isSpace d = false ∧ Text.isDigit d = false ∧ d ≠ '.' := by
    simp only [List.forall_mem_cons, List.not_mem_nil, false_imp_iff, implies_true]
    decide
  obtain ⟨hspace, hdigit, hpoint⟩ := hall c hc
  have hnumeric : ¬ IsNumeric c := by
    rintro (hnumeric | hnumeric)
    · rw [hdigit] at hnumeric
      exact nomatch hnumeric
    · exact hpoint hnumeric
  rw [read_append (parted_of_head hnumeric _ _)] at h
  obtain ⟨q, -, hlast⟩ := Option.bind_eq_some_iff.1 h
  rw [read, tokens_cons hspace hnumeric, tokens_spaces, List.foldlM_cons] at hlast
  obtain ⟨q', hstep, hend⟩ := Option.bind_eq_some_iff.1 hlast
  rw [← Option.some.inj hend]
  exact exists_before_of_step? hc hstep

/-- The first token of a text that starts with a character that is not left out. -/
theorem exists_tokens_cons {c : Char} (hspace : isSpace c = false) (t : Text) :
    ∃ token ts, tokens (c :: t) = token :: ts ∧ (token = .caret → c = '^') := by
  cases hpart : numberPart (c :: t) with
  | nil =>
      refine ⟨_, _, tokens_symbol hspace hpart, fun hcaret => ?_⟩
      have htext := text_ofChar c
      rw [hcaret] at htext
      exact (List.singleton_inj.1 htext).symm
  | cons d ds =>
      obtain ⟨rest, hrest⟩ := numberPart_prefix (c :: t)
      rw [hpart, List.cons_append] at hrest
      obtain ⟨rfl, rfl⟩ := List.cons.inj hrest
      exact ⟨_, _, tokens_number hspace hpart, fun hcaret => nomatch hcaret⟩

end Expr.Reading

end TagFormula
