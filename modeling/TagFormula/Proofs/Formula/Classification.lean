import TagFormula.Proofs.Formula.Nesting
import TagFormula.Proofs.Formula.Operand
import TagFormula.Proofs.Formula.Transparency

/-!
# The outcomes of a formula

What `calculate` gives for a formula with tags, in full: when there is neither a value nor
an error, which errors there are, and what the arithmetic is that is given along with a
value or with an error of its evaluation.

The stages of `calculate` are gone through once, on texts (`calculate_of_substitute`). What
a formula is before its tags are replaced matters in one place only, where nothing is left
of it: then it has no tags, and is an operator between blanks (`Cell.stripped_blank`).
-/

namespace TagFormula

open Formula

/-! ## Errors -/

/-- The codes of errors that are found before a formula is plain arithmetic. -/
def FormulaError.preparationCodes : List String :=
  ["unbalanced_parentheses", "invalid_characters"]

/-- The codes of errors that plain arithmetic can have. -/
def FormulaError.evaluationCodes : List String :=
  ["division_by_zero", "malformed_expression", "non_finite_result"]

theorem FormulaError.IsArithmetic.code_mem {err : FormulaError} (h : err.IsArithmetic) :
    err.code ∈ evaluationCodes := by
  obtain rfl | ⟨cause, rfl⟩ := h
  · exact List.mem_cons_self
  · exact List.mem_cons_of_mem _ (List.mem_cons_of_mem _ List.mem_cons_self)

theorem FormulaError.message_ne_empty (err : FormulaError) : err.message ≠ "" := by
  cases err with
  | unbalanced position =>
    cases position with
    | none => decide
    | some p => exact fun h => absurd (String.append_eq_empty_iff.1 h).2 (by decide)
  | invalidCharacters characters =>
    exact fun h => absurd (String.append_eq_empty_iff.1 h).1 (by decide)
  | divisionByZero => decide
  | malformed fault position =>
    intro h
    have hdetail := (String.append_eq_empty_iff.1 h).1
    exact absurd (String.append_eq_empty_iff.1 hdetail).1 (by decide)
  | notFinite cause =>
    rw [message, notFiniteWording]
    split
    · decide
    · exact fun h => absurd (String.append_eq_empty_iff.1 h).1 (by decide)

namespace Formula

theorem code_of_evaluateExpression {t : Text} {err : FormulaError}
    (h : evaluateExpression t = .error err) : err.code ∈ FormulaError.evaluationCodes := by
  rw [evaluateExpression] at h
  cases hparse : Expr.parse t with
  | error err' =>
    rw [hparse] at h
    obtain ⟨fault, p, rfl⟩ := Expr.eq_malformed_of_parseFrom hparse
    rw [← Except.error.inj h]
    exact List.mem_cons_of_mem _ List.mem_cons_self
  | ok e =>
    rw [hparse] at h
    exact (isArithmetic_of_hasTree (Expr.parse_eq_ok_iff.1 hparse) h).code_mem

/-! ## Texts without a dangling operator -/

/-- A text without one operator that dangles at its end and the blanks after it, if there
is such an operator. -/
inductive Undangled (t : Text) : Text → Prop where
  | dropped {l : Text} {op : Char} {blanks : Text} (heq : t = l ++ op :: blanks)
    (hop : isTrailingOperator op = true) (hblanks : Text.isBlank blanks = true) : Undangled t l
  | whole (hno : ∀ (l : Text) (op : Char) (blanks : Text), t = l ++ op :: blanks →
      Text.isBlank blanks = true → isTrailingOperator op = false) : Undangled t t

theorem exists_stripEnd_append (t : Text) :
    ∃ blanks, t = Text.stripEnd t ++ blanks ∧ Text.isBlank blanks = true := by
  refine ⟨(t.reverse.takeWhile Text.isBlankChar).reverse, ?_, ?_⟩
  · rw [Text.stripEnd, ← List.reverse_append, List.takeWhile_append_dropWhile, List.reverse_reverse]
  · rw [Text.isBlank, List.all_reverse]
    exact List.all_takeWhile

theorem undangled_stripTrailingOperator (t : Text) : Undangled t (stripTrailingOperator t) := by
  obtain ⟨blanks, heq, hblanks⟩ := exists_stripEnd_append t
  by_cases hsame : stripTrailingOperator t = t
  · rw [hsame]
    refine .whole fun l op blanks heq hblanks => Bool.eq_false_iff.2 fun hop => ?_
    have hlonger : l = l ++ op :: blanks := by
      rw [heq, stripTrailingOperator_concat (not_blank_of_trailing hop) l blanks hblanks,
        if_pos hop] at hsame
      exact hsame
    simpa using congrArg List.length hlonger
  · obtain hnil | ⟨l, op, hlast⟩ := List.eq_nil_or_concat (Text.stripEnd t)
    · refine absurd ?_ hsame
      rw [stripTrailingOperator, hnil]
      rfl
    · rw [List.concat_eq_append] at hlast
      have hstrip : stripTrailingOperator t = if isTrailingOperator op then l else t := by
        rw [stripTrailingOperator, hlast, List.getLast?_concat, List.dropLast_concat]
      by_cases hop : isTrailingOperator op = true
      · rw [hstrip, if_pos hop]
        exact .dropped (by rw [heq, hlast, List.append_assoc]; rfl) hop hblanks
      · exact absurd (hstrip.trans (if_neg hop)) hsame

/-- A dangling operator has no part in the balance. -/
theorem Undangled.balance {t expression : Text} (h : Undangled t expression)
    (hbalance : balance 0 t = some 0) : balance 0 expression = some 0 := by
  cases h with
  | whole hno => exact hbalance
  | @dropped _ op blanks heq hop hblanks =>
    have hrest (depth : Nat) : Formula.balance depth (op :: blanks) = some depth := by
      rw [balance_cons, balance_operator hop]
      exact balance_of_blank hblanks depth
    rw [heq, balance_append] at hbalance
    obtain ⟨depth, hdepth, hzero⟩ := Option.bind_eq_some_iff.1 hbalance
    rw [hdepth, ← hzero, hrest]

/-! ## Formulas of which nothing is left -/

/-- An operator between blanks. -/
def IsLoneOperator (t : Text) : Prop :=
  ∃ (l : Text) (op : Char) (blanks : Text), t = l ++ op :: blanks ∧ Text.isBlank l = true ∧
    isTrailingOperator op = true ∧ Text.isBlank blanks = true

/-- There is nothing to compute: a formula is blank, or an operator between blanks. -/
def IsIncomplete (t : Text) (tags : List Tag) : Prop :=
  Text.isBlank t = true ∨ tags = [] ∧ IsLoneOperator t

theorem IsLoneOperator.balance {t : Text} (h : IsLoneOperator t) :
    Formula.balance 0 t = some 0 := by
  obtain ⟨l, op, blanks, rfl, hl, hop, hblanks⟩ := h
  rw [balance_append, balance_of_blank hl, Option.bind_some, balance_cons, balance_operator hop,
    Option.bind_some, balance_of_blank hblanks]

theorem IsLoneOperator.isBlank_strip {t : Text} (h : IsLoneOperator t) :
    Text.isBlank (stripTrailingOperator t) = true := by
  obtain ⟨l, op, blanks, rfl, hl, hop, hblanks⟩ := h
  rwa [stripTrailingOperator_concat (not_blank_of_trailing hop) l blanks hblanks, if_pos hop]

end Formula

namespace Buffer.Layout

open Cell

variable {b : Buffer} {cells : List Cell}

/-- Nothing is left of a formula with its tags replaced only where there are no tags. -/
theorem isBlank_strip_iff (h : b.Layout cells) (hblank : Text.isBlank b.text = false) :
    Text.isBlank (stripTrailingOperator (b.filled Suggestion.plain)) = true ↔
      b.tags = [] ∧ IsLoneOperator b.text := by
  constructor
  · intro hleft
    have hsolid : SolidIn cells Suggestion.plain := fun s hs =>
      (h.wellFormed.valid s hs).solid_plain
    obtain ⟨cells', hstripped⟩ := exists_stripped cells
    rw [h.filled_eq, hstripped.stripTrailingOperator_filled hsolid] at hleft
    obtain ⟨run, rfl⟩ | ⟨l, s, run, rfl⟩ := exists_last_tag cells'
    · rw [filled_map_char] at hleft
      cases hstripped with
      | whole hno =>
        rw [h.text_eq, contents_map_char, hleft] at hblank
        cases hblank
      | @dangling _ op blanks heq hop hblanks =>
        have hrow : cells = (run ++ op :: blanks).map char := by
          rw [heq, List.map_append, List.map_cons]
        refine ⟨?_, run, op, blanks, ?_, hleft, hop, hblanks⟩
        · rw [← List.perm_nil, ← tagsFrom_map_char 0 (run ++ op :: blanks), ← hrow]
          exact h.tags_perm
        · rw [h.text_eq, hrow, contents_map_char]
    · -- A tag that is left is written as a value.
      have hs := (hstripped.solidIn hsolid s (by simp)).not_blank
      rw [filled_append, filled_cons, Text.isBlank_append, Text.isBlank_append, written, hs,
        Bool.false_and, Bool.and_false] at hleft
      cases hleft
  · rintro ⟨hnil, hlone⟩
    rw [h.filled_of_tags_eq_nil hnil]
    exact hlone.isBlank_strip

end Buffer.Layout

/-! ## Outcomes -/

namespace Formula

/-- The arithmetic that a text comes to once its tags have been replaced. -/
structure IsArithmeticOf (t expression : Text) : Prop where
  undangled : Undangled t expression
  not_blank : Text.isBlank expression = false
  nested : WellNested expression
  allowed : ∀ c ∈ expression, isAllowed c = true

end Formula

namespace Evaluation

/-- An outcome of evaluating plain arithmetic: a value, or one of the errors that plain
arithmetic can have. -/
def IsEvaluated (e : Evaluation) : Prop :=
  (∃ n, e.number? = some n) ∨
    ∃ err, e.error? = some err ∧ err.code ∈ FormulaError.evaluationCodes

/-- What can be seen of the outcome of a formula; `out` is its text with the tags
replaced. -/
structure Classified (e : Evaluation) (t : Text) (tags : List Tag) (out : Text) : Prop where
  exclusive : e.number? = none ∨ e.error? = none
  neither_iff : e.number? = none ∧ e.error? = none ↔ IsIncomplete t tags
  error : ∀ err, e.error? = some err →
    err.code ∈ FormulaError.preparationCodes ++ FormulaError.evaluationCodes ∧ err.message ≠ ""
  expression : e.IsEvaluated → ∃ x, e.expression? = some x ∧ IsArithmeticOf out x
  no_expression : ¬ e.IsEvaluated → e.expression? = none

variable {t out : Text} {tags : List Tag}

theorem classified_blank (h : IsIncomplete t tags) : blank.Classified t tags out where
  exclusive := .inl rfl
  neither_iff := iff_of_true ⟨rfl, rfl⟩ h
  error := nofun
  expression := by
    rintro (⟨n, hn⟩ | ⟨err, herr, -⟩)
    · cases hn
    · cases herr
  no_expression _ := rfl

theorem classified_refused (h : ¬ IsIncomplete t tags) {err : FormulaError}
    (hcode : err.code ∈ FormulaError.preparationCodes) :
    (failure err none).Classified t tags out where
  exclusive := .inl rfl
  neither_iff := iff_of_false (fun hnone => Option.some_ne_none err hnone.2) h
  error err' herr' := by
    obtain rfl : err = err' := Option.some.inj herr'
    exact ⟨List.mem_append_left _ hcode, err.message_ne_empty⟩
  expression := by
    have hapart : ∀ code ∈ FormulaError.preparationCodes, code ∉ FormulaError.evaluationCodes := by
      decide
    rintro (⟨n, hn⟩ | ⟨err', herr', hcode'⟩)
    · cases hn
    · obtain rfl : err = err' := Option.some.inj herr'
      exact absurd hcode' (hapart _ hcode)
  no_expression _ := rfl

theorem classified_evaluated (h : ¬ IsIncomplete t tags) {x : Text} (hx : IsArithmeticOf out x) :
    (conclude (.ok (some x))).Classified t tags out := by
  rw [conclude]
  cases hresult : evaluateExpression x with
  | ok n =>
    exact {
      exclusive := .inr rfl
      neither_iff := iff_of_false (fun hnone => Option.some_ne_none n hnone.1) h
      error := fun err herr => absurd herr.symm (Option.some_ne_none err)
      expression := fun _ => ⟨x, rfl, hx⟩
      no_expression := fun hno => absurd (.inl ⟨n, rfl⟩) hno }
  | error err =>
    have hcode := code_of_evaluateExpression hresult
    exact {
      exclusive := .inl rfl
      neither_iff := iff_of_false (fun hnone => Option.some_ne_none err hnone.2) h
      error := fun err' herr' => by
        obtain rfl : err = err' := Option.some.inj herr'
        exact ⟨List.mem_append_right _ hcode, err.message_ne_empty⟩
      expression := fun _ => ⟨x, rfl, hx⟩
      no_expression := fun hno => absurd (.inr ⟨err, rfl, hcode⟩) hno }

end Evaluation

namespace Buffer

theorem Layout.classified {b : Buffer} {cells : List Cell} (h : b.Layout cells) :
    (Formula.calculate b.text b.tags).Classified b.text b.tags (b.filled Suggestion.plain) := by
  rw [calculate_eq_conclude]
  cases hblank : Text.isBlank b.text with
  | true =>
    rw [prepare, hblank]
    exact Evaluation.classified_blank (.inl hblank)
  | false =>
    -- The text is not blank, so nothing is left only of a lone operator.
    have hiff : IsIncomplete b.text b.tags ↔ b.tags = [] ∧ IsLoneOperator b.text :=
      or_iff_right (Bool.eq_false_iff.1 hblank)
    rw [prepare_eq_settle hblank (h.substitute_eq (.refl _))]
    by_cases hbalance : balance 0 (b.filled Suggestion.plain) = some 0
    · rw [settle_of_balanced hbalance]
      split
      next hleft =>
        exact Evaluation.classified_blank (hiff.2 ((h.isBlank_strip_iff hblank).1 hleft))
      next hleft =>
        have hno : ¬ IsIncomplete b.text b.tags := fun hinc =>
          hleft ((h.isBlank_strip_iff hblank).2 (hiff.1 hinc))
        have hundangled := undangled_stripTrailingOperator (b.filled Suggestion.plain)
        cases hchars : invalidCharacters (stripTrailingOperator (b.filled Suggestion.plain)) with
        | cons c chars =>
          exact Evaluation.classified_refused hno (List.mem_cons_of_mem _ List.mem_cons_self)
        | nil =>
          exact Evaluation.classified_evaluated hno {
            undangled := hundangled
            not_blank := Bool.eq_false_iff.2 hleft
            nested := balance_eq_some_iff.1 (hundangled.balance hbalance)
            allowed := fun _ hc => isAllowed_of_mem hchars hc }
    · obtain ⟨err, herr, hcode⟩ := settle_of_unbalanced hbalance
      have hno : ¬ IsIncomplete b.text b.tags := by
        intro hinc
        obtain ⟨hnil, hlone⟩ := hiff.1 hinc
        rw [h.filled_of_tags_eq_nil hnil] at hbalance
        exact hbalance hlone.balance
      rw [herr]
      exact Evaluation.classified_refused hno (hcode ▸ List.mem_cons_self)

/-- After every run of edits the tags of the formula can be replaced, and its outcome is of
one of three kinds. -/
theorem calculate_classified (ops : List Operation) :
    ∃ out, substitute (after ops).text (after ops).tags = .ok out ∧
      (Formula.calculate (after ops).text (after ops).tags).Classified
        (after ops).text (after ops).tags out := by
  obtain ⟨cells, h⟩ := layout_after ops
  exact ⟨_, h.substitute_eq (.refl _), h.classified⟩

end Buffer

end TagFormula
