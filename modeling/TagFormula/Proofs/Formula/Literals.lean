import TagFormula.Formula.Arithmetic
import TagFormula.Proofs.Formula.Splitting

/-!
# Numerals can be read

A numeral of the grammar is a text that a double can be read from, whatever script its
digits are in: neither a blank nor a sign stands around it, its digits are not parted by
underscores, and nothing is left behind it. So the value of a numeral is a finite double or
it is too large, and never unreadable (`readLiteral_numeral`).

What may go wrong when the tree of a formula is computed is then arithmetic only.
-/

namespace TagFormula

/-! ## Digits and blanks -/

/-- No digit of any script is a blank. -/
theorem Text.not_blank_of_isDigit {c : Char} (h : Text.isDigit c = true) :
    Text.isBlankChar c = false := by
  have hapart : ∀ z ∈ Text.zeros, ∀ r ∈ Text.blankRanges, z + 9 < r.1 ∨ r.2 < z := by
    decide
  obtain ⟨n, hn⟩ := Option.isSome_iff_exists.1 h
  obtain ⟨z, hz, -⟩ := Option.map_eq_some_iff.1 hn
  have hrange := List.find?_some hz
  simp only [Bool.and_eq_true, decide_eq_true_eq] at hrange
  refine Bool.eq_false_iff.2 fun hblank => ?_
  obtain ⟨r, hr, hin⟩ := List.any_eq_true.1 hblank
  simp only [Bool.and_eq_true, decide_eq_true_eq] at hin
  have := hapart z (List.mem_of_find?_eq_some hz) r hr
  omega

namespace Literal

/-- The characters of numbers. -/
theorem not_padding_of_numeric {c : Char} (h : Token.IsNumeric c) :
    isPadding c = false := by
  rcases h with h | rfl
  · rw [isPadding, Text.not_blank_of_isDigit h]
    rfl
  · decide

theorem trimmed_eq_self {t : Text} (h : ∀ c ∈ t, isPadding c = false) : trimmed t = t := by
  have hdrop (u : Text) (hu : ∀ c ∈ u, isPadding c = false) : u.dropWhile isPadding = u := by
    cases u with
    | nil => rfl
    | cons c u => rw [List.dropWhile_cons_of_neg (by simp [hu c (List.mem_cons_self ..)])]
  rw [trimmed, hdrop t h, hdrop t.reverse fun c hc => h c (List.mem_reverse.1 hc),
    List.reverse_reverse]

/-- A run of digits does not go on into a text. -/
def EndsDigits (rest : Text) : Prop :=
  ∀ c ∈ rest.head?, Text.isDigit c = false ∧ c ≠ '_'

theorem endsDigits_nil : EndsDigits [] :=
  fun _ hc => nomatch hc

theorem endsDigits_cons {c : Char} (hdigit : Text.isDigit c = false) (hc : c ≠ '_') (rest : Text) :
    EndsDigits (c :: rest) := by
  intro d hd
  rw [← Option.some.inj hd]
  exact ⟨hdigit, hc⟩

theorem endsDigits_point (rest : Text) : EndsDigits ('.' :: rest) :=
  endsDigits_cons isDigit_point (by decide) rest

section

variable {ds rest : Text}

theorem moreDigits_append (h : Digits ds) (hrest : EndsDigits rest) :
    moreDigits (ds ++ rest) = (ds, rest) := by
  induction ds with
  | nil =>
      cases rest with
      | nil => rfl
      | cons c rest =>
          obtain ⟨hdigit, hc⟩ := hrest c rfl
          cases rest with
          | nil => simp only [List.nil_append, moreDigits, hdigit, Bool.false_eq_true, if_false]
          | cons d rest =>
              simp only [List.nil_append, moreDigits, hdigit, hc, decide_false, Bool.false_and,
                Bool.false_eq_true, if_false]
  | cons c ds ih =>
      have hc : Text.isDigit c = true := h c (List.mem_cons_self ..)
      have ih' := ih fun d hd => h d (List.mem_cons_of_mem _ hd)
      rw [List.cons_append]
      cases hall : ds ++ rest with
      | nil =>
          obtain ⟨rfl, rfl⟩ := List.append_eq_nil_iff.1 hall
          simp only [moreDigits, hc, if_true]
      | cons d u =>
          rw [hall] at ih'
          simp only [moreDigits, hc, if_true, ih']

theorem digitRun_append (h : Digits ds) (hrest : EndsDigits rest) :
    digitRun (ds ++ rest) = (ds, rest) := by
  cases ds with
  | nil =>
      cases rest with
      | nil => rfl
      | cons c rest =>
          simp only [List.nil_append, digitRun, (hrest c rfl).1, Bool.false_eq_true, if_false]
  | cons c ds =>
      have hc : Text.isDigit c = true := h c (List.mem_cons_self ..)
      rw [List.cons_append, digitRun]
      simp only [hc, if_true]
      rw [← List.cons_append]
      exact moreDigits_append h hrest

end

section

variable {whole places rest : Text}

/-- Digits without a point, and what follows them. -/
theorem decimal?_whole (hw : Digits whole) (hne : whole ≠ []) (hrest : EndsDigits rest)
    (hpoint : ∀ c ∈ rest.head?, c ≠ '.') :
    decimal? (whole ++ rest) = (exponentPart? rest).map fun e => ⟨Text.ofDigits whole, e⟩ := by
  have hempty : whole.isEmpty = false := List.isEmpty_eq_false_iff.2 hne
  rw [decimal?, digitRun_append hw hrest]
  dsimp only
  split
  next => exact absurd rfl (hpoint '.' rfl)
  next =>
    simp only [hempty, Bool.false_and, Bool.false_eq_true, if_false, List.append_nil,
      List.length_nil, Int.natCast_zero, Int.sub_zero]

/-- Digits before and behind a point, and what follows them. -/
theorem decimal?_pointed (hw : Digits whole) (hp : Digits places) (hne : whole ≠ [] ∨ places ≠ [])
    (hrest : EndsDigits rest) :
    decimal? (whole ++ '.' :: (places ++ rest)) =
      (exponentPart? rest).map fun e => ⟨Text.ofDigits (whole ++ places), e - places.length⟩ := by
  have hempty : (whole.isEmpty && places.isEmpty) = false := by
    simp only [Bool.and_eq_false_iff, List.isEmpty_eq_false_iff]
    exact hne
  simp only [decimal?, digitRun_append hw (endsDigits_point _), digitRun_append hp hrest, hempty,
    Bool.false_eq_true, if_false]

end

/-- A numeral is a decimal without an exponent. -/
theorem decimal?_numeral {t : Text} (h : Numeral t) : ∃ d, decimal? t = some d := by
  cases h with
  | @whole t hw hne =>
      have ht := decimal?_whole hw hne endsDigits_nil (fun _ hc => nomatch hc)
      rw [List.append_nil] at ht
      exact ⟨_, ht⟩
  | @pointed whole fraction hw hne hf =>
      have ht := decimal?_pointed hw hf (.inl hne) endsDigits_nil
      rw [List.append_nil] at ht
      exact ⟨_, ht⟩
  | @fraction fraction hf hne =>
      have hnone : Digits [] := fun _ hc => nomatch hc
      have ht := decimal?_pointed hnone hf (.inr hne) endsDigits_nil
      rw [List.append_nil] at ht
      exact ⟨_, ht⟩

theorem double?_numeral {t : Text} (h : Numeral t) : ∃ x, double? t = some x := by
  have htrimmed : trimmed t = t :=
    trimmed_eq_self fun c hc => not_padding_of_numeric (Token.isNumeric_of_mem h hc)
  have hsign : sign t = (false, t) := by
    obtain ⟨c, rest, rfl, hc⟩ := h.head_eq
    unfold sign
    split
    · rename_i heq
      cases heq
      exact absurd hc (by decide)
    · rename_i heq
      cases heq
      exact absurd hc (by decide)
    · rfl
  obtain ⟨d, hd⟩ := decimal?_numeral h
  rw [double?, htrimmed, hsign]
  dsimp only
  split
  · exact ⟨_, rfl⟩
  split
  · exact ⟨_, rfl⟩
  · rw [hd]
    exact ⟨_, rfl⟩

end Literal

/-! ## Errors of arithmetic -/

/-- The error of a computation: a division by zero, or a number that is not finite. -/
def FormulaError.IsArithmetic (err : FormulaError) : Prop :=
  err = .divisionByZero ∨ ∃ cause, err = .notFinite cause

namespace Expr

/-- The numbers of a tree as written, from left to right. -/
def literals : Expr → List Text
  | number literal => [literal]
  | signed _ operand => operand.literals
  | binary _ left right => left.literals ++ right.literals

theorem readLiteral_numeral {t : Text} (h : Numeral t) :
    (∃ x, readLiteral t = .ok x) ∨ readLiteral t = .error (.notFinite .literal) := by
  obtain ⟨x, hx⟩ := Literal.double?_numeral h
  rw [readLiteral, hx]
  dsimp only
  split
  · exact .inl ⟨x, rfl⟩
  · exact .inr rfl

theorem isArithmetic_of_apply {op : Operator} {x y : Float} {err : FormulaError}
    (h : op.apply x y = .error err) : err.IsArithmetic := by
  cases op with
  | add | sub | mul => exact nomatch h
  | div =>
      rw [Operator.apply] at h
      split at h
      · exact .inl (Except.error.inj h).symm
      · exact nomatch h
  | pow =>
      rw [Operator.apply] at h
      split at h
      · exact nomatch h
      · exact .inr ⟨_, (Except.error.inj h).symm⟩

/-- Where all numbers are numerals, only arithmetic can fail. -/
theorem isArithmetic_of_eval {e : Expr} (hlit : ∀ t ∈ e.literals, Numeral t) {err : FormulaError}
    (h : e.eval = .error err) : err.IsArithmetic := by
  induction e generalizing err with
  | number literal =>
      obtain ⟨x, hx⟩ | hx := readLiteral_numeral (hlit literal (List.mem_singleton_self _))
      · rw [eval, hx] at h
        cases h
      · rw [eval, hx] at h
        exact .inr ⟨_, (Except.error.inj h).symm⟩
  | signed sign operand ih =>
      rw [eval] at h
      cases hx : operand.eval with
      | ok x =>
          rw [hx] at h
          cases h
      | error err' =>
          rw [hx] at h
          exact Except.error.inj h ▸ ih hlit hx
  | binary op left right ihl ihr =>
      rw [eval] at h
      cases hx : left.eval with
      | error err' =>
          rw [hx] at h
          exact Except.error.inj h ▸ ihl (fun t ht => hlit t (List.mem_append_left _ ht)) hx
      | ok x =>
          rw [hx] at h
          cases hy : right.eval with
          | error err' =>
              rw [hy] at h
              exact Except.error.inj h ▸ ihr (fun t ht => hlit t (List.mem_append_right _ ht)) hy
          | ok y =>
              rw [hy] at h
              exact isArithmetic_of_apply h

theorem isArithmetic_of_result {e : Expr} (hlit : ∀ t ∈ e.literals, Numeral t)
    {err : FormulaError} (h : e.result = .error err) : err.IsArithmetic := by
  rw [result, run_eq_eval] at h
  cases hx : e.eval with
  | ok x =>
      rw [hx] at h
      dsimp only at h
      split at h
      · cases h
      · exact .inr ⟨_, (Except.error.inj h).symm⟩
  | error err' =>
      rw [hx] at h
      exact Except.error.inj h ▸ isArithmetic_of_eval hlit hx

end Expr

end TagFormula
