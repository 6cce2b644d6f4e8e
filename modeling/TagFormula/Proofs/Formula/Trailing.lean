import TagFormula.Proofs.Formula.Classification

/-!
# Blanks behind a formula

Blanks behind a formula go through every stage of its evaluation in their own way. They do
not move the tags, though a tag that overlaps others may swallow some of them
(`foldlM_replaceTag_append`). They have no part in the balance, and behind a dangling
operator they are dropped with it. Behind anything else they are kept, and then spaces are
left out between tokens while every other blank is refused as a character outside
arithmetic.

So blanks behind a formula make no difference to its outcome, except where no operator
dangles before them and they are not all spaces (`trailing_blanks`).
-/

namespace TagFormula

open Token TagFormula.Expr

namespace Formula

/-! ## Substitution with a text behind -/

/-- With a text behind, a tag is replaced in the same way, and what is left of the text behind
stays behind. -/
theorem replaceTag_append_right {out out' : Text} (w : Text) {tag : Tag} (h₀ : 0 ≤ tag.position)
    (h₁ : tag.position ≤ out.length) (h : replaceTag out tag = .ok out') :
    tag.position ≤ out'.length ∧
      ∃ w', w' <:+ w ∧ replaceTag (out ++ w) tag = .ok (out' ++ w') := by
  have hstop : 0 ≤ tag.stop := Int.le_trans h₀ tag.position_le_stop
  have hp : tag.position.toNat ≤ out.length := by omega
  rw [replaceTag] at h
  cases hvalue : Number.plainDouble? tag.value with
  | none =>
    rw [hvalue] at h
    cases h
  | some digits =>
    rw [hvalue] at h
    dsimp only at h
    rw [Slice.before_of_nonneg out h₀, Slice.after_of_nonneg out hstop] at h
    obtain rfl := Except.ok.inj h
    refine ⟨?_, w.drop (tag.stop.toNat - out.length), List.drop_suffix _ _, ?_⟩
    · simp only [List.length_append, List.length_take]
      omega
    · rw [replaceTag, hvalue]
      dsimp only
      rw [Slice.before_of_nonneg _ h₀, Slice.after_of_nonneg _ hstop,
        List.take_append_of_le_length hp, List.drop_append]
      simp only [List.append_assoc]

theorem replaceTag_refused {out : Text} {tag : Tag} {err : FormulaError}
    (h : replaceTag out tag = .error err) (out' : Text) : replaceTag out' tag = .error err := by
  rw [replaceTag] at h ⊢
  cases hvalue : Number.plainDouble? tag.value with
  | none =>
    rw [hvalue] at h
    exact h
  | some digits =>
    rw [hvalue] at h
    cases h

/-- Tags are replaced from the last to the first, so each starts in what has become of the text
and not in the text behind it. -/
theorem foldlM_replaceTag_append {tags : List Tag} {out w : Text}
    (hsorted : tags.Pairwise fun t u => u.position ≤ t.position)
    (hin : ∀ t ∈ tags, 0 ≤ t.position ∧ t.position ≤ out.length) :
    (∃ err, tags.foldlM replaceTag out = .error err ∧
        tags.foldlM replaceTag (out ++ w) = .error err) ∨
      ∃ out' w', w' <:+ w ∧ tags.foldlM replaceTag out = .ok out' ∧
        tags.foldlM replaceTag (out ++ w) = .ok (out' ++ w') := by
  induction tags generalizing out w with
  | nil => exact .inr ⟨out, w, List.suffix_rfl, rfl, rfl⟩
  | cons t tags ih =>
    obtain ⟨hlater, hsorted⟩ := List.pairwise_cons.1 hsorted
    obtain ⟨h₀, h₁⟩ := hin t List.mem_cons_self
    rw [List.foldlM_cons, List.foldlM_cons]
    cases hone : replaceTag out t with
    | error err =>
      rw [replaceTag_refused hone (out ++ w)]
      exact .inl ⟨err, rfl, rfl⟩
    | ok out₁ =>
      obtain ⟨hle, w₁, hw₁, hone'⟩ := replaceTag_append_right w h₀ h₁ hone
      have hrest : ∀ u ∈ tags, 0 ≤ u.position ∧ u.position ≤ out₁.length := fun u hu =>
        ⟨(hin u (List.mem_cons_of_mem _ hu)).1, Int.le_trans (hlater u hu) hle⟩
      rw [hone']
      obtain ⟨err, h, h'⟩ | ⟨out', w', hw', h, h'⟩ := ih (w := w₁) hsorted hrest
      · exact .inl ⟨err, h, h'⟩
      · exact .inr ⟨out', w', hw'.trans hw₁, h, h'⟩

/-- Tags that lie in a text are replaced in the same way when the text goes on. -/
theorem substitute_append {t : Text} {tags : List Tag}
    (htags : ∀ u ∈ tags, 0 ≤ u.position ∧ u.stop ≤ t.length) (w : Text) :
    (∃ err, substitute t tags = .error err ∧ substitute (t ++ w) tags = .error err) ∨
      ∃ out w', w' <:+ w ∧ substitute t tags = .ok out ∧
        substitute (t ++ w) tags = .ok (out ++ w') := by
  refine foldlM_replaceTag_append (Tag.pairwise_descending tags) fun u hu => ?_
  obtain ⟨hpos, hstop⟩ := htags u (List.mem_mergeSort.1 hu)
  exact ⟨hpos, Int.le_trans u.position_le_stop hstop⟩

/-! ## Dangling operators and characters -/

/-- An operator stands at the end of a text, blanks aside. -/
def Dangles (t : Text) : Prop :=
  ∃ (l : Text) (op : Char) (blanks : Text), t = l ++ op :: blanks ∧
    isTrailingOperator op = true ∧ Text.isBlank blanks = true

/-- Blanks behind a dangling operator are dropped with it, and others are kept. -/
theorem stripTrailingOperator_append_blank {t w : Text} (hw : Text.isBlank w = true) :
    Dangles t ∧ stripTrailingOperator (t ++ w) = stripTrailingOperator t ∨
      ¬ Dangles t ∧ stripTrailingOperator t = t ∧ stripTrailingOperator (t ++ w) = t ++ w := by
  obtain ⟨blanks, heq, hblanks⟩ := exists_stripEnd_append t
  have hkept (hno : ∀ l op, Text.stripEnd t = l ++ [op] → isTrailingOperator op = false) :
      ¬ Dangles t := by
    rintro ⟨l, op, blanks', rfl, hop, hblanks'⟩
    have hend := hno l op (stripEnd_concat (not_blank_of_trailing hop) l blanks' hblanks')
    exact Bool.false_ne_true (hend.symm.trans hop)
  rw [stripTrailingOperator, stripTrailingOperator, Text.stripEnd_append_blank hw]
  obtain hnil | ⟨l, op, hlast⟩ := List.eq_nil_or_concat (Text.stripEnd t)
  · rw [hnil]
    exact .inr ⟨hkept fun l op h => by simp [hnil] at h, rfl, rfl⟩
  · rw [List.concat_eq_append] at hlast
    rw [hlast, List.getLast?_concat]
    dsimp only
    by_cases hop : isTrailingOperator op = true
    · rw [if_pos hop, if_pos hop]
      exact .inl ⟨⟨l, op, blanks, by rw [heq, hlast, List.append_assoc]; rfl, hop, hblanks⟩, rfl⟩
    · rw [if_neg hop, if_neg hop]
      refine .inr ⟨hkept fun l' op' h => ?_, rfl, rfl⟩
      rw [hlast] at h
      rw [← (List.append_singleton_inj.1 h).2]
      exact Bool.eq_false_iff.2 hop

theorem invalidCharacters_eq_nil_iff {t : Text} :
    invalidCharacters t = [] ↔ ∀ c ∈ t, isAllowed c = true :=
  ⟨fun h _ hc => isAllowed_of_mem h hc, invalidCharacters_eq_nil⟩

theorem mem_invalidCharacters_iff {t : Text} {c : Char} :
    c ∈ invalidCharacters t ↔ c ∈ t ∧ isAllowed c = false := by
  rw [invalidCharacters, List.mem_eraseDups, List.mem_filter, Bool.not_eq_true']

/-- The only blank in arithmetic is the space. -/
theorem eq_space_of_isAllowed {c : Char} (h : isAllowed c = true)
    (hblank : Text.isBlankChar c = true) : c = ' ' := by
  rcases cases_of_isAllowed h with hdigit | hc
  · rw [(not_blank_not_trailing_of_isDigit hdigit).1] at hblank
    cases hblank
  · simp only [List.mem_cons, List.not_mem_nil, or_false] at hc
    rcases hc with rfl | rfl | rfl | rfl | rfl | rfl | rfl | rfl | rfl
    all_goals first | rfl | exact absurd hblank (by decide)

/-- The characters of a text with blanks behind it are refused as those of the text are, or they
are all allowed and the blanks are spaces, or the blanks alone are refused. -/
theorem invalidCharacters_append_blank (t : Text) {w : Text} (hw : Text.isBlank w = true) :
    (∃ c chars d chars', invalidCharacters t = c :: chars ∧
        invalidCharacters (t ++ w) = d :: chars') ∨
      (invalidCharacters t = [] ∧ invalidCharacters (t ++ w) = [] ∧
        w = List.replicate w.length ' ') ∨
      (invalidCharacters t = [] ∧ ∃ d chars, invalidCharacters (t ++ w) = d :: chars ∧
        ∀ c ∈ d :: chars, c ∈ w ∧ c ≠ ' ') := by
  cases ht : invalidCharacters t with
  | cons c chars =>
    have hc : c ∈ invalidCharacters (t ++ w) := by
      obtain ⟨hmem, hrefused⟩ := mem_invalidCharacters_iff.1 (ht ▸ List.mem_cons_self)
      exact mem_invalidCharacters_iff.2 ⟨List.mem_append_left w hmem, hrefused⟩
    obtain ⟨d, chars', htw⟩ := List.exists_cons_of_ne_nil (List.ne_nil_of_mem hc)
    exact .inl ⟨c, chars, d, chars', rfl, htw⟩
  | nil =>
    have hall := invalidCharacters_eq_nil_iff.1 ht
    cases htw : invalidCharacters (t ++ w) with
    | nil =>
      have hallowed := invalidCharacters_eq_nil_iff.1 htw
      refine .inr (.inl ⟨rfl, rfl, List.eq_replicate_of_mem fun c hc => ?_⟩)
      exact eq_space_of_isAllowed (hallowed c (List.mem_append_right t hc))
        (List.all_eq_true.1 hw c hc)
    | cons d chars =>
      refine .inr (.inr ⟨rfl, d, chars, rfl, fun c hc => ?_⟩)
      obtain ⟨hmem, hrefused⟩ := mem_invalidCharacters_iff.1 (htw ▸ hc)
      refine ⟨(List.mem_append.1 hmem).resolve_left fun hct => ?_, ?_⟩
      · exact Bool.false_ne_true (hrefused.symm.trans (hall c hct))
      · rintro rfl
        exact Bool.false_ne_true (hrefused.symm.trans (by decide))

/-- Spaces behind a text are left out. -/
theorem tokens_append_spaces (t : Text) (n : Nat) :
    tokens (t ++ List.replicate n ' ') = tokens t := by
  have hparted : Parted t (List.replicate n ' ') := by
    cases n with
    | zero => exact parted_nil_right t
    | succ n =>
      refine parted_of_head ?_ t _
      rintro (h | h) <;> revert h <;> decide
  rw [tokens_append hparted, tokens_spaces, List.append_nil]

theorem agree_append_spaces (t : Text) (n : Nat) :
    Agree (evaluateExpression (t ++ List.replicate n ' ')) (evaluateExpression t) := by
  refine Cell.agree_of_parse_iff fun e => ?_
  rw [Cell.parse_eq_ok_iff_read, Cell.parse_eq_ok_iff_read, Reading.read, Reading.read,
    tokens_append_spaces]

/-! ## Outcomes -/

/-- The value of a formula that has been prepared. -/
def valueOf : Option Text → Except FormulaError (Option Number)
  | none => .ok none
  | some expression => (evaluateExpression expression).map some

theorem evaluate_eq_bind (t : Text) (tags : List Tag) :
    evaluate t tags = (prepare t tags).bind valueOf := by
  rw [evaluate]
  rcases prepare t tags with err | (_ | expression) <;> rfl

/-- The same number, no value both times, or errors with the same code. -/
def SameOutcome (x y : Except FormulaError (Option Number)) : Prop :=
  x.mapError FormulaError.code = y.mapError FormulaError.code

theorem Agree.sameOutcome {x y : Except FormulaError Number} (h : Agree x y) :
    SameOutcome (x.map some) (y.map some) := by
  obtain ⟨n, rfl, rfl⟩ | ⟨a, b, rfl, rfl, hcode⟩ := h
  · rfl
  · exact congrArg Except.error hcode

theorem sameOutcome_refused {a b : FormulaError} (h : a.code = b.code) :
    SameOutcome (.error a) (.error b) :=
  congrArg Except.error h

/-- A formula is not refused for its characters. -/
def HasAllowed (x : Except FormulaError (Option Number)) : Prop :=
  ∀ err, x = .error err → err.code ≠ "invalid_characters"

theorem hasAllowed_valueOf (expression : Option Text) : HasAllowed (valueOf expression) := by
  intro err h
  cases expression with
  | none => cases h
  | some expression =>
    rw [valueOf] at h
    cases hvalue : evaluateExpression expression with
    | ok n =>
      rw [hvalue] at h
      cases h
    | error err' =>
      rw [hvalue] at h
      obtain rfl := Except.error.inj h
      have hcode := code_of_evaluateExpression hvalue
      rintro heq
      rw [heq] at hcode
      exact absurd hcode (by decide)

theorem HasAllowed.not_sameOutcome {x : Except FormulaError (Option Number)} (h : HasAllowed x)
    (chars : Text) : ¬ SameOutcome (.error (.invalidCharacters chars)) x := by
  intro hsame
  cases x with
  | ok n => cases hsame
  | error err => exact h err rfl (Except.error.inj hsame).symm

/-- Blanks behind a text in which the tags have been replaced make no difference, or they are
refused themselves. -/
theorem settle_append_blank {t w : Text} (hw : Text.isBlank w = true) :
    SameOutcome ((settle (t ++ w)).bind valueOf) ((settle t).bind valueOf) ∨
      ¬ Dangles t ∧ HasAllowed ((settle t).bind valueOf) ∧
        ∃ chars, settle (t ++ w) = .error (.invalidCharacters chars) ∧
          (∃ c, c ∈ chars) ∧ ∀ c ∈ chars, c ∈ w ∧ c ≠ ' ' := by
  have hbalance : balance 0 (t ++ w) = balance 0 t := by
    rw [balance_append]
    cases balance 0 t with
    | none => rfl
    | some depth => exact balance_of_blank hw depth
  by_cases hzero : balance 0 t = some 0
  case neg =>
    obtain ⟨a, ha, hcode⟩ := settle_of_unbalanced hzero
    obtain ⟨b, hb, hcode'⟩ := settle_of_unbalanced (hbalance ▸ hzero)
    rw [ha, hb]
    exact .inl (sameOutcome_refused (hcode'.trans hcode.symm))
  rw [settle_of_balanced hzero, settle_of_balanced (hbalance.trans hzero)]
  obtain ⟨-, hstrip⟩ | ⟨hno, hstrip, hstrip'⟩ := stripTrailingOperator_append_blank hw (t := t)
  · rw [hstrip]
    exact .inl rfl
  rw [hstrip, hstrip', Text.isBlank_append, hw, Bool.and_true]
  split
  · exact .inl rfl
  obtain ⟨c, chars, d, chars', ht, htw⟩ | ⟨ht, htw, hspaces⟩ | ⟨ht, d, chars, htw, hchars⟩ :=
    invalidCharacters_append_blank t hw
  · rw [ht, htw]
    exact .inl (sameOutcome_refused rfl)
  · rw [ht, htw, hspaces]
    exact .inl (agree_append_spaces t w.length).sameOutcome
  · rw [ht, htw]
    exact .inr ⟨hno, hasAllowed_valueOf (some t), _, rfl, ⟨d, List.mem_cons_self⟩, hchars⟩

/-- The blanks behind a formula are refused, though the formula itself is not refused for its
characters: no operator dangles before them, and some are not spaces. -/
structure BlanksRefused (t w : Text) (tags : List Tag) : Prop where
  no_dangling : ∀ out, substitute t tags = .ok out → ¬ Dangles out
  not_space : ∃ c ∈ w, c ≠ ' '
  hasAllowed : HasAllowed (evaluate t tags)
  refused : ∃ chars, evaluate (t ++ w) tags = .error (.invalidCharacters chars) ∧
    ∀ c ∈ chars, c ∈ w

/-- Blanks behind a formula, in which its tags lie, make no difference to its outcome unless
they are refused, which spaces never are, nor any blanks behind a dangling operator. -/
theorem trailing_blanks {t w : Text} {tags : List Tag}
    (htags : ∀ u ∈ tags, 0 ≤ u.position ∧ u.stop ≤ t.length) (hw : Text.isBlank w = true) :
    SameOutcome (evaluate (t ++ w) tags) (evaluate t tags) ↔ ¬ BlanksRefused t w tags := by
  have hblank : Text.isBlank (t ++ w) = Text.isBlank t := by
    rw [Text.isBlank_append, hw, Bool.and_true]
  have hcases : SameOutcome (evaluate (t ++ w) tags) (evaluate t tags) ∨
      BlanksRefused t w tags := by
    cases ht : Text.isBlank t with
    | true =>
      rw [evaluate, evaluate, prepare, prepare, hblank, ht]
      exact .inl rfl
    | false =>
      obtain ⟨err, h, h'⟩ | ⟨out, w', hsuffix, h, h'⟩ := substitute_append htags w
      · rw [evaluate, evaluate, prepare, prepare, hblank, ht, h, h']
        exact .inl rfl
      have hw' : Text.isBlank w' = true :=
        List.all_eq_true.2 fun c hc => List.all_eq_true.1 hw c (hsuffix.subset hc)
      have hlong := evaluate_eq_bind (t ++ w) tags
      have hshort := evaluate_eq_bind t tags
      rw [prepare_eq_settle (hblank.trans ht) h'] at hlong
      rw [prepare_eq_settle ht h] at hshort
      obtain hsame | ⟨hno, hallowed, chars, hrefused, ⟨c, hc⟩, hchars⟩ :=
        settle_append_blank hw' (t := out)
      · rw [← hlong, ← hshort] at hsame
        exact .inl hsame
      · rw [hrefused] at hlong
        exact .inr {
          no_dangling := fun out' hout' => Except.ok.inj (h.symm.trans hout') ▸ hno
          not_space := ⟨c, hsuffix.subset (hchars c hc).1, (hchars c hc).2⟩
          hasAllowed := hshort ▸ hallowed
          refused := ⟨chars, hlong, fun d hd => hsuffix.subset (hchars d hd).1⟩ }
  refine ⟨fun hsame hrefused => ?_, hcases.resolve_right⟩
  obtain ⟨chars, herr, -⟩ := hrefused.refused
  rw [herr] at hsame
  exact hrefused.hasAllowed.not_sameOutcome chars hsame

/-- A formula with one tag, at the end of which a product dangles. -/
theorem trailing_blanks_dangling :
    let tags : List Tag := [.ofSuggestion ⟨1, "A".toList, 3⟩ 2]
    (∀ u ∈ tags, 0 ≤ u.position ∧ u.stop ≤ ("2+A *".toList.length : Int)) ∧
      Text.isBlank "\t\n".toList = true ∧
      SameOutcome (evaluate ("2+A *".toList ++ "\t\n".toList) tags)
        (evaluate "2+A *".toList tags) := by
  intro tags
  have htags : ∀ u ∈ tags, 0 ≤ u.position ∧ u.stop ≤ ("2+A *".toList.length : Int) := by
    decide
  have hw : Text.isBlank "\t\n".toList = true := by decide
  have hsubstitute : substitute "2+A *".toList tags = .ok "2+3 *".toList := by
    decide +kernel
  refine ⟨htags, hw, (trailing_blanks htags hw).2 fun hrefused => ?_⟩
  exact hrefused.no_dangling _ hsubstitute ⟨"2+3 ".toList, '*', [], rfl, by decide, rfl⟩

-- Behind a number the same blanks are refused.
example : (evaluate "1\t\n".toList []).map (·.map Number.plain?) =
      .error (.invalidCharacters "\t\n".toList) ∧
    (evaluate "1".toList []).map (·.map Number.plain?) = .ok (some (some ['1'])) := by
  decide +kernel

end Formula

end TagFormula
