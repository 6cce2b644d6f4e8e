import TagFormula.Proofs.Formula.Trailing

/-!
# Spaces in a formula

A space put in between two characters, not both of them digits or points, goes through every
stage of the evaluation. It has no part in the balance, it is blank at the end of a text, it
belongs to arithmetic, and it is left out between tokens. So it makes no difference but one: what
stands behind it has moved, and an error may report the position of that (`spaces_irrelevant`).

Each stage is shown to keep the relation of a text and the text with spaces in it (`Spaced`), for
any texts, formulas or not. The relation ends with the tokens, which are the same on both sides.
Dropping a dangling operator is the one stage that may drop the spaces too, when they stand behind
it (`Spaced.stripTrailingOperator`).
-/

namespace TagFormula

open Token

/-! ## Errors without their positions -/

/-- An error in which every position reported is put at the start. -/
def FormulaError.unplaced : FormulaError → FormulaError
  | unbalanced position => unbalanced (position.map fun _ => 0)
  | malformed fault position => malformed fault (position.map fun _ => 0)
  | err => err

theorem FormulaError.code_unplaced (err : FormulaError) : err.unplaced.code = err.code := by
  cases err <;> rfl

/-- Outcomes that agree in everything but the positions reported in errors. -/
structure Evaluation.AlikeUnplaced (e e' : Evaluation) : Prop extends Evaluation.Alike e e' where
  detail : e.error?.map FormulaError.unplaced = e'.error?.map FormulaError.unplaced

theorem Evaluation.AlikeUnplaced.of_detail {e e' : Evaluation} (hnumber : e.number? = e'.number?)
    (hdetail : e.error?.map FormulaError.unplaced = e'.error?.map FormulaError.unplaced) :
    e.AlikeUnplaced e' := by
  have hcode := congrArg (Option.map FormulaError.code) hdetail
  simp only [Option.map_map, Function.comp_def, FormulaError.code_unplaced] at hcode
  exact ⟨⟨hnumber, hcode⟩, hdetail⟩

theorem Evaluation.AlikeUnplaced.refl (e : Evaluation) : e.AlikeUnplaced e :=
  .of_detail rfl rfl

/-- The same value, or errors that differ at most in the position reported. -/
def SameUnplaced {α : Type} (x y : Except FormulaError α) : Prop :=
  x.mapError FormulaError.unplaced = y.mapError FormulaError.unplaced

theorem SameUnplaced.cases {α : Type} {x y : Except FormulaError α} (h : SameUnplaced x y) :
    (∃ a, x = .ok a ∧ y = .ok a) ∨
      ∃ err err', x = .error err ∧ y = .error err' ∧ err.unplaced = err'.unplaced := by
  cases x with
  | ok a =>
    cases y with
    | ok a' => exact .inl ⟨a, rfl, congrArg _ (Except.ok.inj h).symm⟩
    | error err' => cases h
  | error err =>
    cases y with
    | ok a' => cases h
    | error err' => exact .inr ⟨err, err', rfl, rfl, Except.error.inj h⟩

/-! ## Reading -/

namespace Expr

/-- The offsets of tokens matter only to the position that is reported. -/
theorem sameUnplaced_parseFrom {ps qs : List Positioned}
    (h : ps.map (·.token) = qs.map (·.token)) (p q : Nat) (reading : Reading) :
    SameUnplaced (parseFrom p reading ps) (parseFrom q reading qs) := by
  induction ps generalizing qs p q reading with
  | nil =>
    obtain rfl := List.map_eq_nil_iff.1 h.symm
    rw [parseFrom, parseFrom]
    cases reading.finish? <;> rfl
  | cons first ps ih =>
    obtain ⟨first', qs, rfl, htoken, hrest⟩ := List.map_eq_cons_iff.1 h.symm
    rw [parseFrom, parseFrom, htoken]
    cases reading.step? first.token with
    | none => rfl
    | some next => exact ih hrest.symm first.position first'.position next

theorem sameUnplaced_parse {t t' : Text} (h : tokens t = tokens t') :
    SameUnplaced (parse t) (parse t') :=
  sameUnplaced_parseFrom h 0 0 _

end Expr

namespace Formula

theorem sameUnplaced_evaluateExpression {t t' : Text} (h : tokens t = tokens t') :
    SameUnplaced (evaluateExpression t) (evaluateExpression t') := by
  rw [evaluateExpression, evaluateExpression]
  obtain ⟨e, ht, ht'⟩ | ⟨err, err', ht, ht', heq⟩ := (Expr.sameUnplaced_parse h).cases
  · rw [ht, ht']
    rfl
  · rw [ht, ht']
    exact congrArg Except.error heq

/-! ## Texts with spaces put in -/

/-- A digit or a decimal point. -/
def IsNumberChar (c : Char) : Prop :=
  c.isDigit = true ∨ c = '.'

instance : DecidablePred IsNumberChar := fun c =>
  inferInstanceAs (Decidable (c.isDigit = true ∨ c = '.'))

/-- The characters on the two sides of a joint are not both digits or decimal points. -/
def Apart (u v : Text) : Prop :=
  ∀ l c d r, u = l ++ [c] → v = d :: r → ¬ (IsNumberChar c ∧ IsNumberChar d)

theorem apart_nil_right (u : Text) : Apart u [] :=
  fun _ _ _ _ _ hv => nomatch hv

theorem apart_of_head {d : Char} (hd : ¬ IsNumberChar d) (u v : Text) : Apart u (d :: v) := by
  rintro l c d' r - hv ⟨-, hd'⟩
  obtain ⟨rfl, -⟩ := List.cons.inj hv
  exact hd hd'

theorem Apart.of_append_right {u v w : Text} (h : Apart u (v ++ w)) : Apart u v := by
  rintro l c d r hu rfl
  exact h l c d (r ++ w) hu rfl

/-- In arithmetic there are no other digits. -/
theorem Apart.parted {u v : Text} (h : Apart u v) (hallowed : ∀ c ∈ u ++ v, isAllowed c = true) :
    Parted u v := by
  rintro l c d r rfl rfl ⟨hc, hd⟩
  have hnumber : ∀ e, isAllowed e = true → IsNumeric e → IsNumberChar e := by
    intro e he hnumeric
    refine Classical.byContradiction fun hno => ?_
    rw [IsNumberChar, not_or, Bool.not_eq_true] at hno
    exact not_isNumeric he hno.1 hno.2 hnumeric
  refine h l c d r rfl rfl ⟨hnumber c (hallowed c ?_) hc, hnumber d (hallowed d ?_) hd⟩
  · simp
  · simp

/-- The second text is the first one with spaces put in, and not within a number. -/
inductive Spaced : Text → Text → Prop where
  | intro (u v : Text) (h : Apart u v) (n : Nat) :
      Spaced (u ++ v) (u ++ (List.replicate n ' ' ++ v))

theorem Spaced.refl (t : Text) : Spaced t t := by
  have h := Spaced.intro t [] (apart_nil_right t) 0
  rwa [List.replicate_zero, List.nil_append, List.append_nil] at h

theorem isBlank_spaces (n : Nat) : Text.isBlank (List.replicate n ' ') = true := by
  refine List.all_eq_true.2 fun c hc => ?_
  rw [List.eq_of_mem_replicate hc]
  decide

/-- A text ends in blanks alone, or in a character and the blanks after it. -/
theorem blank_or_exists_last (t : Text) :
    Text.isBlank t = true ∨ ∃ l c blanks, t = l ++ c :: blanks ∧ Text.isBlankChar c = false ∧
      Text.isBlank blanks = true := by
  induction t with
  | nil => exact .inl rfl
  | cons d t ih =>
    obtain ht | ⟨l, c, blanks, rfl, hc, hblanks⟩ := ih
    · cases hd : Text.isBlankChar d with
      | true =>
        rw [Text.isBlank_cons, hd, ht]
        exact .inl rfl
      | false => exact .inr ⟨[], d, t, rfl, hd, ht⟩
    · exact .inr ⟨d :: l, c, blanks, rfl, hc, hblanks⟩

theorem tokens_spaces_append (n : Nat) (t : Text) :
    tokens (List.replicate n ' ' ++ t) = tokens t := by
  induction n with
  | zero => rfl
  | succ n ih => rw [List.replicate_succ, List.cons_append, tokens_space (by decide), ih]

namespace Spaced

variable {t t' : Text}

theorem isBlank_eq (h : Spaced t t') : Text.isBlank t = Text.isBlank t' := by
  obtain ⟨u, v, -, n⟩ := h
  rw [Text.isBlank_append, Text.isBlank_append, Text.isBlank_append, isBlank_spaces, Bool.true_and]

theorem balance_eq (h : Spaced t t') (depth : Nat) : balance depth t = balance depth t' := by
  obtain ⟨u, v, -, n⟩ := h
  rw [balance_append, balance_append]
  refine congrArg _ (funext fun depth => ?_)
  rw [balance_append, balance_of_blank (isBlank_spaces n), Option.bind_some]

theorem invalidCharacters_eq (h : Spaced t t') : invalidCharacters t = invalidCharacters t' := by
  obtain ⟨u, v, -, n⟩ := h
  have hspaces : (List.replicate n ' ').filter (fun c => !isAllowed c) = [] := by
    refine List.filter_eq_nil_iff.2 fun c hc => ?_
    rw [List.eq_of_mem_replicate hc]
    decide
  rw [invalidCharacters, invalidCharacters, List.filter_append, List.filter_append,
    List.filter_append, hspaces, List.nil_append]

theorem tokens_eq (h : Spaced t t') (hallowed : ∀ c ∈ t, isAllowed c = true) :
    tokens t = tokens t' := by
  obtain ⟨u, v, hapart, n⟩ := h
  have hparted := hapart.parted hallowed
  cases n with
  | zero => rfl
  | succ n =>
    have hspace : Parted u (List.replicate (n + 1) ' ' ++ v) :=
      parted_of_head (by rintro (h | h) <;> revert h <;> decide) u _
    rw [tokens_append hparted, tokens_append hspace, tokens_spaces_append]

/-- Spaces behind a dangling operator are dropped with it, and others stay where they are. -/
theorem stripTrailingOperator (h : Spaced t t') :
    Spaced (Formula.stripTrailingOperator t) (Formula.stripTrailingOperator t') := by
  obtain ⟨u, v, hapart, n⟩ := h
  obtain hv | ⟨v, c, blanks, rfl, hc, hblanks⟩ := blank_or_exists_last v
  · have hv' : Text.isBlank (List.replicate n ' ' ++ v) = true := by
      rw [Text.isBlank_append, isBlank_spaces, hv]
      rfl
    obtain ⟨hdangles, hstrip⟩ | ⟨hno, -, hstrip⟩ := stripTrailingOperator_append_blank hv (t := u)
    · obtain ⟨-, hstrip'⟩ | ⟨hno, -⟩ := stripTrailingOperator_append_blank hv' (t := u)
      · rw [hstrip, hstrip']
        exact .refl _
      · exact absurd hdangles hno
    · obtain ⟨hdangles, -⟩ | ⟨-, -, hstrip'⟩ := stripTrailingOperator_append_blank hv' (t := u)
      · exact absurd hdangles hno
      · rw [hstrip, hstrip']
        exact .intro u v hapart n
  · have hstrip := stripTrailingOperator_concat hc (u ++ v) blanks hblanks
    have hstrip' := stripTrailingOperator_concat hc (u ++ (List.replicate n ' ' ++ v)) blanks hblanks
    simp only [List.append_assoc] at hstrip hstrip'
    rw [hstrip, hstrip']
    split
    · exact .intro u v hapart.of_append_right n
    · exact .intro u _ hapart n

end Spaced

/-! ## Outcomes -/

theorem sameUnplaced_checkParentheses {t t' : Text} (h : balance 0 t = balance 0 t') :
    SameUnplaced (checkParentheses t) (checkParentheses t') := by
  rw [balance, balance] at h
  rw [checkParentheses, checkParentheses]
  generalize balanceFrom 0 0 t = counted, balanceFrom 0 0 t' = counted' at h ⊢
  cases counted with
  | error p =>
    cases counted' with
    | error p' => rfl
    | ok depth' => cases h
  | ok depth =>
    cases counted' with
    | error p' => cases h
    | ok depth' =>
      obtain rfl := Option.some.inj h
      rfl

/-- What preparation makes of a text and of the same text with spaces in it is evaluated alike. -/
theorem Spaced.alike_settled {t t' : Text} (h : Spaced t t') :
    (conclude (settle t')).AlikeUnplaced (conclude (settle t)) := by
  by_cases hzero : balance 0 t = some 0
  case neg =>
    obtain ⟨x, hx, hx'⟩ | ⟨err, err', herr, herr', heq⟩ :=
      (sameUnplaced_checkParentheses (h.balance_eq 0)).cases
    · exact absurd (checkParentheses_eq_ok_iff.1 hx) hzero
    · rw [settle, settle, herr, herr']
      exact .of_detail rfl (congrArg some heq.symm)
  have hstripped := h.stripTrailingOperator
  rw [settle_of_balanced hzero, settle_of_balanced (h.balance_eq 0 ▸ hzero), hstripped.isBlank_eq,
    hstripped.invalidCharacters_eq]
  split
  · exact .refl _
  cases hchars : invalidCharacters (Formula.stripTrailingOperator t') with
  | cons c chars => exact .refl _
  | nil =>
    have hallowed := fun c hc => isAllowed_of_mem (hstripped.invalidCharacters_eq.trans hchars)
      (c := c) hc
    obtain ⟨x, hx, hx'⟩ | ⟨err, err', herr, herr', heq⟩ :=
      (sameUnplaced_evaluateExpression (hstripped.tokens_eq hallowed)).cases
    · simp only [conclude, hx, hx']
      exact .of_detail rfl rfl
    · simp only [conclude, herr, herr']
      exact .of_detail rfl (congrArg some heq.symm)

end Formula

/-- The text of a row in which every variable is replaced by its value. -/
abbrev Cell.substituted (cells : List Cell) : Text :=
  filled Suggestion.plain cells

namespace Buffer

open Cell Formula

/-- At an offset the characters on both sides, in the text with the tags replaced, are not both
digits or decimal points. -/
def ApartAt (b : Buffer) (p : Int) : Prop :=
  ∀ l r, b.cells = l ++ r → (extent l : Int) = p →
    Apart (substituted l) (substituted r)

variable {b b' : Buffer} {l r : List Cell}

theorem Layout.apartAt (h : b.Layout (l ++ r)) (hapart : Apart (substituted l) (substituted r)) :
    b.ApartAt (extent l) := by
  intro l' r' hcells hextent
  obtain ⟨rfl, rfl⟩ := h.wellFormed.append_inj (h.cells_eq.symm.trans hcells)
    (Int.natCast_inj.1 hextent).symm
  exact hapart

/-- Spaces put in at a joint of the row. -/
theorem Layout.alike_spaced (h : b.Layout (l ++ r)) {n : Nat}
    (h' : b'.Layout (l ++ ((List.replicate n ' ').map char ++ r)))
    (hapart : Apart (substituted l) (substituted r)) :
    b'.calculate.AlikeUnplaced b.calculate := by
  have hfilled : b.filled Suggestion.plain = substituted l ++ substituted r := by
    rw [h.filled_eq, filled_append]
  have hfilled' : b'.filled Suggestion.plain =
      substituted l ++ (List.replicate n ' ' ++ substituted r) := by
    rw [h'.filled_eq, filled_append, filled_append, filled_map_char]
  have hspaced : Spaced (b.filled Suggestion.plain) (b'.filled Suggestion.plain) := by
    rw [hfilled, hfilled']
    exact .intro _ _ hapart n
  have hblank : Text.isBlank b'.text = Text.isBlank b.text := by
    rw [h.text_eq, h'.text_eq, contents_append, contents_append, contents_append, contents_map_char,
      Text.isBlank_append, Text.isBlank_append, Text.isBlank_append, isBlank_spaces, Bool.true_and]
  rw [calculate, calculate, calculate_eq_conclude, calculate_eq_conclude]
  cases ht : Text.isBlank b.text with
  | true =>
    rw [prepare, prepare, hblank, ht]
    exact .refl _
  | false =>
    rw [prepare_eq_settle ht (h.substitute_eq (.refl _)),
      prepare_eq_settle (hblank.trans ht) (h'.substitute_eq (.refl _))]
    exact hspaced.alike_settled

/-- In every buffer that is reached by edits, and at every place that is not strictly inside a
tag: where the characters on both sides, in the text with the tags replaced, are not both digits or
decimal points, any number of spaces can be put in, and the outcome is the same but for the position
that an error reports. -/
theorem spaces_irrelevant (ops : List Operation) {p : Int} (hp : (after ops).IsBoundary p)
    (hapart : (after ops).ApartAt p) (n : Nat) :
    let b := after ops
    ∃ b', b.apply (insertText p (List.replicate n ' ')) = (.ok (), b') ∧
      b'.calculate.AlikeUnplaced b.calculate ∧
      ∃ l r, b.cells = l ++ r ∧ (extent l : Int) = p ∧
        substitute b.text b.tags = .ok (substituted l ++ substituted r) ∧
        substitute b'.text b'.tags =
          .ok (substituted l ++ (List.replicate n ' ' ++ substituted r)) := by
  intro b
  obtain ⟨cells, h⟩ := layout_after ops
  obtain ⟨l, r, rfl, rfl⟩ := h.isBoundary_iff.1 hp
  obtain ⟨b', hrun, h', -⟩ := h.run_insertText (List.replicate n ' ')
  refine ⟨b', apply_of_run_ok hrun, h.alike_spaced h' (hapart l r h.cells_eq rfl), l, r, h.cells_eq,
    rfl, ?_, ?_⟩
  · rw [h.substitute_eq (.refl _), h.filled_eq, filled_append]
  · rw [h'.substitute_eq (.refl _), h'.filled_eq, filled_append, filled_append, filled_map_char]

/-- Between a tag and an operator that dangles behind it. -/
theorem spaces_irrelevant_behind_tag :
    let b := after [.insertTag (zeroNamed 1 "A".toList (by decide)) 0, .insertText 1 "-".toList]
    b.IsBoundary 1 ∧ b.ApartAt 1 ∧ ∃ b', b.apply (insertText 1 "   ".toList) = (.ok (), b') ∧
      b'.calculate.AlikeUnplaced b.calculate := by
  intro b
  let v := zeroNamed 1 "A".toList (by decide)
  have hfirst := layout_empty.perform_insertTag (l := []) (r := []) v (by simp)
  have h : b.Layout ([tag v.val] ++ [char '-']) :=
    hfirst.perform_insertText (l := [tag v.val]) (r := []) "-".toList
  have hp : b.IsBoundary 1 := h.isBoundary
  have hapart : b.ApartAt 1 := h.apartAt (apart_of_head (by decide) _ [])
  obtain ⟨b', hrun, halike, -⟩ := spaces_irrelevant _ hp hapart 3
  exact ⟨hp, hapart, b', hrun, halike⟩

/-- What stands behind the spaces has moved, and that is all that an error tells of them. -/
example :
    (Formula.calculate "(1))".toList []).error? = some (.unbalanced (some 3)) ∧
      (Formula.calculate "(1 ))".toList []).error? = some (.unbalanced (some 4)) := by
  constructor <;> cbv

end Buffer

end TagFormula
