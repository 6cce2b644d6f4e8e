import Mathlib
import TagFormula.Proofs.Formula.Transparency
import TagFormula.Proofs.Number.Notation

/-!
# Formatting is inverse to evaluation

A number in plain notation is itself a formula, of one number with a minus sign or none in
front, and its value is the number (`Number.plain_reads_back`). An integral number is written
digit for digit, and its magnitude is the double nearest to what was written. A number that is
not integral is written with the digits of its shortest decimal, which reads as the same
double by the choice of the decimal; as this has a negative power of ten, there are digits
behind the point.

The minus sign is an operation of the formula, so a negative number is read back as a
negation.
-/

namespace TagFormula

open Formula

/-! ## Reading a number -/

/-- A text after a minus sign, if there is to be one. -/
def signedText (negative : Bool) (t : Text) : Text :=
  (if negative then ['-'] else []) ++ t

/-- The tree of a number after a minus sign, if there is one. -/
def Expr.signedNumber (negative : Bool) (t : Text) : Expr :=
  if negative then .signed .neg (.number t) else .number t

theorem hasTree_signedNumber (negative : Bool) {t : Text} (h : Numeral t) :
    HasTree (signedText negative t) (Expr.signedNumber negative t) := by
  cases negative with
  | false => exact ⟨_, Token.lexes_of_numeral h, (Derives.number t).lift (by decide)⟩
  | true =>
    have hunary : Derives .unary [.number t] (.number t) := (Derives.number t).lift (by decide)
    exact ⟨_, .symbol (by decide) (Token.lexes_of_numeral h), hunary.neg.lift (by decide)⟩

namespace Literal

theorem toLower_of_ascii {c : Char} (h : c.isDigit = true) : c.toLower = c := by
  have hle : c.val.toNat ≤ 57 := by
    simp only [Char.isDigit, Bool.and_eq_true, decide_eq_true_eq, UInt32.le_iff_toNat_le] at h
    exact h.2
  refine dif_neg fun hupper => ?_
  have hge : 65 ≤ c.val.toNat := UInt32.le_iff_toNat_le.1 hupper.1
  omega

theorem isWord_eq_false {c d : Char} (h : c.isDigit = true) (hd : d.isDigit = false)
    {word : String} {letters : List Char} (hword : word.toList = d :: letters) (t : Text) :
    isWord word (c :: t) = false := by
  rw [isWord, hword, List.map_cons, toLower_of_ascii h]
  refine beq_eq_false_iff_ne.2 fun heq => ?_
  rw [(List.cons.inj heq).1, hd] at h
  exact Bool.false_ne_true h

/-- Without a sign and without letters a text reads as its decimal. -/
theorem double?_of_plainNotation {fractional : Bool} {t : Text} {d : Decimal}
    (h : PlainNotation fractional t) (hd : decimal? t = some d) :
    double? t = some (Binary64.ofMagnitude false d.magnitude) := by
  have htrimmed : trimmed t = t := trimmed_eq_self fun c hc =>
    not_padding_of_numeric (Token.isNumeric_of_mem h.plainNumeral.numeral hc)
  obtain ⟨c, rest, rfl, hc⟩ := h.exists_head
  have hinf : isWord "inf" (c :: rest) = false := isWord_eq_false hc (by decide) rfl rest
  have hinfinity : isWord "infinity" (c :: rest) = false := isWord_eq_false hc (by decide) rfl rest
  have hnan : isWord "nan" (c :: rest) = false := isWord_eq_false hc (by decide) rfl rest
  rw [double?, htrimmed, sign_of_ascii hc]
  dsimp only
  rw [hinf, hinfinity, hnan, hd]
  rfl

end Literal

/-- A number in plain notation has the value of its double, or of its negation if there is a
minus sign in front. -/
theorem evaluate_signedText (negative : Bool) {fractional : Bool} {t : Text} {d : Decimal}
    (h : PlainNotation fractional t) (hd : Literal.decimal? t = some d)
    (hfinite : Binary64.isFinite (Binary64.ofMagnitude false d.magnitude) = true) :
    evaluate (signedText negative t) [] = .ok (some (.ofFloat
      (if negative then -Binary64.ofMagnitude false d.magnitude
        else Binary64.ofMagnitude false d.magnitude))) := by
  have htree := hasTree_signedNumber negative h.plainNumeral.numeral
  have hsolid := solid_of_plainNumeral h.plainNumeral
  have hallowed : ∀ c ∈ signedText negative t, isAllowed c = true := by
    cases negative with
    | false => exact hsolid.allowed
    | true => exact hsolid.cons_minus.allowed
  have hread : Expr.readLiteral t = .ok (Binary64.ofMagnitude false d.magnitude) := by
    rw [Expr.readLiteral, Literal.double?_of_plainNotation h hd]
    exact if_pos hfinite
  have heval : (Expr.signedNumber negative t).eval = .ok (if negative then
      -Binary64.ofMagnitude false d.magnitude else Binary64.ofMagnitude false d.magnitude) := by
    cases negative with
    | false => exact hread
    | true =>
      show (Expr.readLiteral t >>= fun x => pure (-x)) = _
      rw [hread]
      rfl
  have hresult : Binary64.isFinite (if negative then -Binary64.ofMagnitude false d.magnitude
      else Binary64.ofMagnitude false d.magnitude) = true := by
    cases negative with
    | false => exact hfinite
    | true => exact Binary64.isFinite_neg hfinite
  rw [evaluate, prepare_of_hasTree htree hallowed]
  dsimp only
  rw [evaluateExpression, Expr.parse_eq_ok_iff.2 htree]
  dsimp only
  rw [Expr.result, Expr.run_eq_eval, heval]
  dsimp only
  rw [if_pos hresult]
  rfl

/-! ## Numbers -/

namespace Number

/-- The numbers that are written: the values of variables and the results of formulas. -/
def Arises (v : Number) : Prop :=
  (∃ x, Binary64.isFinite x = true ∧ v = .double x) ∨
    ∃ t tags, evaluate t tags = .ok (some v)

/-- A text denotes a number exactly or by its shortest digits, and evaluates to it. -/
structure ReadsBack (v : Number) (t : Text) : Prop where
  /-- A minus sign or none, and one number with digits behind the point or without a point. -/
  form : ∃ negative fractional lit, t = signedText negative lit ∧ PlainNotation fractional lit ∧
    (fractional = true ↔ ¬ v.IsIntegral) ∧
    Expr.parse t = .ok (Expr.signedNumber negative lit)
  rational_of_isIntegral : v.IsIntegral → Literal.rational? t = some v.value
  rational_of_double : ∀ x, v = .double x → ¬ v.IsIntegral →
    ∃ r, Literal.rational? t = some r ∧ Literal.rational? (doubleText x) = some r
  /-- Only below `2 ^ 53` an integer is kept as an integer. -/
  evaluates : ∃ w, evaluate t [] = .ok (some w) ∧ w.value = v.value ∧
    ((∃ n, w = .integer n) ↔ ∃ n : ℤ, v.value = n ∧ n.natAbs < 2 ^ 53)

theorem exists_of_result {e : Expr} {v : Number} (h : e.result = .ok v) :
    ∃ x, Binary64.isFinite x = true ∧ v = .ofFloat x := by
  rw [Expr.result] at h
  split at h
  next x _ =>
    split at h
    next hx => exact ⟨x, hx, (Except.ok.inj h).symm⟩
    next => cases h
  next => cases h

theorem exists_of_evaluateExpression {t : Text} {v : Number} (h : evaluateExpression t = .ok v) :
    ∃ x, Binary64.isFinite x = true ∧ v = .ofFloat x := by
  rw [evaluateExpression] at h
  split at h
  next e _ => exact exists_of_result h
  next => cases h

theorem exists_of_evaluate {t : Text} {tags : List Tag} {v : Number}
    (h : evaluate t tags = .ok (some v)) :
    ∃ x, Binary64.isFinite x = true ∧ v = .ofFloat x := by
  rw [evaluate] at h
  split at h
  next => cases h
  next expression _ =>
    cases hvalue : evaluateExpression expression with
    | error e =>
      rw [hvalue] at h
      cases h
    | ok w =>
      rw [hvalue] at h
      obtain rfl : w = v := Option.some.inj (Except.ok.inj h)
      exact exists_of_evaluateExpression hvalue
  next => cases h

/-- A number that arises is a finite double, or the integer that it stands for. -/
theorem exists_double_of_arises {v : Number} (h : v.Arises) :
    ∃ x, Binary64.isFinite x = true ∧ (v = .double x ∨ v = .ofFloat x) := by
  rcases h with ⟨x, hx, rfl⟩ | ⟨t, tags, h⟩
  · exact ⟨x, hx, .inl rfl⟩
  · obtain ⟨x, hx, rfl⟩ := exists_of_evaluate h
    exact ⟨x, hx, .inr rfl⟩

/-- What is read back from digits that read as a finite double. -/
theorem evaluates_signedText (negative : Bool) {fractional : Bool} {t : Text} {d : Decimal}
    (h : PlainNotation fractional t) (hd : Literal.decimal? t = some d) {x : Float}
    (hx : Binary64.isFinite x = true) (hmagnitude : d.magnitude = Binary64.magnitude x)
    {r : ℚ} (hr : (if negative then -Binary64.size (Binary64.magnitude x)
      else Binary64.size (Binary64.magnitude x)) = r) :
    ∃ w, evaluate (signedText negative t) [] = .ok (some w) ∧ w.value = r ∧
      ((∃ n, w = .integer n) ↔ ∃ n : ℤ, r = n ∧ n.natAbs < 2 ^ 53) := by
  let y := Binary64.ofMagnitude false (Binary64.magnitude x)
  have hy : Binary64.isFinite y = true := Binary64.isFinite_ofMagnitude_magnitude hx
  have hvalue : Binary64.value y = Binary64.size (Binary64.magnitude x) :=
    Binary64.value_ofMagnitude_magnitude hx
  let z := if negative then -y else y
  have hz : Binary64.isFinite z = true ∧ Binary64.value z = r := by
    rw [← hr, ← hvalue]
    cases negative with
    | false => exact ⟨hy, rfl⟩
    | true => exact ⟨Binary64.isFinite_neg hy, Binary64.value_neg hy⟩
  have hevaluate := evaluate_signedText negative h hd (by rwa [hmagnitude])
  rw [hmagnitude] at hevaluate
  refine ⟨.ofFloat z, hevaluate, (value_ofFloat hz.1).trans hz.2, ?_⟩
  rw [exists_ofFloat_eq_integer_iff hz.1, hz.2]

theorem readsBack_integer {x : Float} (hx : Binary64.isFinite x = true) {n : ℤ}
    (hn : Binary64.value x = n) {v : Number} (hv : v.value = n) : v.ReadsBack (intText n) := by
  have hsize := Binary64.exists_size_eq hn
  have htext : intText n = signedText (decide (n < 0)) (natText n.natAbs) := by
    by_cases h : n < 0 <;> simp [intText, signedText, h]
  have habs : (if decide (n < 0) then -(n.natAbs : ℚ) else n.natAbs) = n := by
    rw [Nat.cast_natAbs, Int.cast_abs]
    by_cases h : n < 0
    · have hcast : (n : ℚ) < 0 := Int.cast_lt_zero.2 h
      simp [h, abs_of_neg hcast]
    · have hcast : (0 : ℚ) ≤ n := Int.cast_nonneg (not_lt.1 h)
      simp [h, abs_of_nonneg hcast]
  have hintegral : v.IsIntegral := ⟨n, hv⟩
  have hplain := PlainNotation.natText n.natAbs
  have hdecimal := Decimal.decimal?_natText n.natAbs
  rw [htext]
  refine ⟨⟨_, _, _, rfl, hplain, iff_of_false Bool.false_ne_true (not_not_intro hintegral),
    Expr.parse_eq_ok_iff.2 (hasTree_signedNumber _ hplain.plainNumeral.numeral)⟩, fun _ => ?_,
    fun _ _ hnot => absurd hintegral hnot, ?_⟩
  · rw [signedText, Literal.rational?_signed _ hplain.exists_head hdecimal, hv, ← habs]
    simp [Decimal.value]
  · rw [hv]
    exact evaluates_signedText _ hplain hdecimal hx
      (Decimal.magnitude_of_size (of_decide_eq_true hx) hsize) (by rw [hsize, habs])

theorem readsBack_double {x : Float} (hx : Binary64.isFinite x = true)
    (hnone : ¬ IsIntegral (.double x)) :
    (double x).ReadsBack (signedText (Binary64.isNegative x)
      (Decimal.shortest (Binary64.magnitude x)).positional) := by
  have hfinite : Binary64.magnitude x < Binary64.infinity := of_decide_eq_true hx
  have hsize : ¬ ∃ k : Nat, Binary64.size (Binary64.magnitude x) = k := by
    rintro ⟨k, hk⟩
    exact hnone ⟨_, Binary64.value_of_size hk⟩
  have hpos := Binary64.pos_of_not_integral hsize
  have hneg := Decimal.exponent_shortest_neg hfinite hsize
  have hplain := PlainNotation.positional hneg
  have hdecimal := Decimal.decimal?_positional hneg
  have hdouble : doubleText x = signedText (Binary64.isNegative x)
      (FloatFormat.textFormat.write (Decimal.shortest (Binary64.magnitude x))) := by
    have hnan : Binary64.isNaN x = false := decide_eq_false hfinite.not_gt
    rw [doubleText, FloatFormat.render]
    simp only [hnan, Bool.false_eq_true, if_false, hfinite.ne, hpos.ne']
    rfl
  refine ⟨⟨_, _, _, rfl, hplain, iff_of_true rfl hnone,
    Expr.parse_eq_ok_iff.2 (hasTree_signedNumber _ hplain.plainNumeral.numeral)⟩,
    fun hintegral => absurd hintegral hnone, ?_, ?_⟩
  · intro y hy _
    rw [← double.inj hy, hdouble]
    exact ⟨_, Literal.rational?_signed _ hplain.exists_head hdecimal,
      Literal.rational?_signed _ (Decimal.exists_head_write hneg) (Decimal.decimal?_write hneg)⟩
  · exact evaluates_signedText _ hplain hdecimal hx (Decimal.magnitude_shortest hpos hfinite) rfl

/-- Every number that arises has a plain form, which reads back as the number. -/
theorem plain_reads_back {v : Number} (h : v.Arises) : ∃ t, v.plain? = some t ∧ v.ReadsBack t := by
  obtain ⟨x, hx, hv⟩ := exists_double_of_arises h
  cases hinteger : Binary64.integer? x with
  | some n =>
    have hn := (Binary64.integer?_eq_some_iff hx).1 hinteger
    have hdouble : plainDouble? x = some (intText n) := by
      rw [plainDouble?, if_pos hx, hinteger]
    refine ⟨intText n, ?_, readsBack_integer hx hn ?_⟩
    · rcases hv with rfl | rfl
      · exact hdouble
      · rw [ofFloat, hinteger]
        dsimp only
        split
        · rfl
        · exact hdouble
    · rcases hv with rfl | rfl
      · exact hn
      · exact (value_ofFloat hx).trans hn
  | none =>
    have hnone := (integer?_eq_none_iff hx).1 hinteger
    have hdouble : v = .double x := by
      rcases hv with rfl | rfl
      · rfl
      · rw [ofFloat, hinteger]
    subst hdouble
    refine ⟨_, ?_, readsBack_double hx hnone⟩
    rw [plain?, plainDouble?, if_pos hx, hinteger, signedText]
    cases Binary64.isNegative x <;> rfl

/-- The double below zero that is closest to it. -/
theorem plain_reads_back_least :
    Binary64.isFinite (Binary64.ofMagnitude true 1) = true ∧
      ∃ t, (double (Binary64.ofMagnitude true 1)).plain? = some t ∧
        (double (Binary64.ofMagnitude true 1)).ReadsBack t := by
  have hfinite : Binary64.isFinite (Binary64.ofMagnitude true 1) = true := by decide +kernel
  exact ⟨hfinite, plain_reads_back (.inl ⟨_, hfinite, rfl⟩)⟩

end Number

end TagFormula
