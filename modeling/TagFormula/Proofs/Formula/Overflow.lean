import TagFormula.Proofs.Formula.Transparency
import TagFormula.Proofs.Number.NonFinite

/-!
# Overflow on the way

A number that is too large and a power out of range are refused where they stand, so
they are reported from every place in a formula. The values of the other operations are not
looked at before the end. An infinity or an undefined value that arises in them goes on
through every operation above it, with the exceptions that `Operator.Absorbs` lists:
a finite dividend over an infinite divisor, and a power with a finite limit.

So an operand that is not finite is reported as long as no operation above it absorbs it
(`overflow_reported`), and where one does, a number comes out (`result_of_absorbs`).
-/

namespace TagFormula

open Binary64

/-- An operation has a finite value although one of its operands has none. -/
def Operator.Absorbs : Operator → Float → Float → Prop
  | div, x, y => isFinite x = true ∧ magnitude y = infinity
  | pow, x, y => ¬ (isFinite x = true ∧ isFinite y = true) ∧ Power.FiniteLimit x y
  | _, _, _ => False

/-- With an operand that is not finite, an operation either divides by zero or has a value,
which is finite just where the operation absorbs its operands. -/
theorem Operator.apply_of_not_finite (op : Operator) {x y : Float}
    (h : ¬ (isFinite x = true ∧ isFinite y = true)) :
    op.apply x y = .error .divisionByZero ∨
      ∃ z, op.apply x y = .ok z ∧ (isFinite z = true ↔ op.Absorbs x y) := by
  cases op with
  | add => exact .inr ⟨_, rfl, iff_of_false (fun hz => h (isFinite_of_add hz)) id⟩
  | sub => exact .inr ⟨_, rfl, iff_of_false (fun hz => h (isFinite_of_sub hz)) id⟩
  | mul => exact .inr ⟨_, rfl, iff_of_false (fun hz => h (isFinite_of_mul hz)) id⟩
  | div =>
    rw [Operator.apply]
    split
    · exact .inl rfl
    · exact .inr ⟨_, rfl, isFinite_div_iff h⟩
  | pow =>
    obtain ⟨z, hz, hiff⟩ := Power.power_of_not_finite h
    rw [Operator.apply, hz]
    exact .inr ⟨z, rfl, hiff.trans (and_iff_right h).symm⟩

theorem Operator.Absorbs.not_finite {op : Operator} {x y : Float} (h : op.Absorbs x y) :
    ¬ (isFinite x = true ∧ isFinite y = true) := by
  cases op with
  | add | sub | mul => exact h.elim
  | div => exact fun hfinite => Nat.lt_irrefl _ (h.2 ▸ of_decide_eq_true hfinite.2)
  | pow => exact h.1

theorem Operator.Absorbs.apply {op : Operator} {x y : Float} (h : op.Absorbs x y) :
    ∃ z, op.apply x y = .ok z ∧ isFinite z = true := by
  cases op with
  | add | sub | mul => exact h.elim
  | div =>
    have hzero : Operator.isZero y = false := by
      rw [Operator.isZero, h.2]
      rfl
    rw [Operator.apply, if_neg (Bool.eq_false_iff.1 hzero)]
    exact ⟨_, rfl, (isFinite_div_iff h.not_finite).2 h⟩
  | pow =>
    obtain ⟨z, hz, hiff⟩ := Power.power_of_not_finite h.1
    rw [Operator.apply, hz]
    exact ⟨z, rfl, hiff.2 h.2⟩

namespace Expr

variable {part : Expr}

/-- A tree stands somewhere in another one. -/
inductive Occurs (part : Expr) : Expr → Prop where
  | self : Occurs part part
  | signed (sign : Sign) {operand : Expr} (h : Occurs part operand) :
    Occurs part (.signed sign operand)
  | left (op : Operator) {left : Expr} (right : Expr) (h : Occurs part left) :
    Occurs part (.binary op left right)
  | right (op : Operator) (left : Expr) {right : Expr} (h : Occurs part right) :
    Occurs part (.binary op left right)

/-- An operation in a tree does not absorb the values of its operands. -/
def Passes (op : Operator) (left right : Expr) : Prop :=
  ∀ x y, left.eval = .ok x → right.eval = .ok y → ¬ op.Absorbs x y

/-- A tree stands somewhere in another one, and no operation above it absorbs its
operands. -/
inductive Exposed (part : Expr) : Expr → Prop where
  | self : Exposed part part
  | signed (sign : Sign) {operand : Expr} (h : Exposed part operand) :
    Exposed part (.signed sign operand)
  | left {op : Operator} {left right : Expr} (h : Exposed part left)
    (hop : Passes op left right) : Exposed part (.binary op left right)
  | right {op : Operator} {left right : Expr} (h : Exposed part right)
    (hop : Passes op left right) : Exposed part (.binary op left right)

/-- The value of a tree is an error, or it is not finite. -/
def Diverges (e : Expr) : Prop :=
  ∀ x, e.eval = .ok x → isFinite x = false

theorem eval_binary_eq_ok {op : Operator} {left right : Expr} {z : Float}
    (h : (binary op left right).eval = .ok z) :
    ∃ x y, left.eval = .ok x ∧ right.eval = .ok y ∧ op.apply x y = .ok z := by
  rw [eval] at h
  cases hx : left.eval with
  | error err =>
    rw [hx] at h
    cases h
  | ok x =>
    cases hy : right.eval with
    | error err =>
      rw [hx, hy] at h
      cases h
    | ok y =>
      rw [hx, hy] at h
      exact ⟨x, y, rfl, rfl, h⟩

theorem eval_signed_eq_ok {sign : Sign} {operand : Expr} {z : Float}
    (h : (signed sign operand).eval = .ok z) : ∃ x, operand.eval = .ok x ∧ z = sign.apply x := by
  rw [eval] at h
  cases hx : operand.eval with
  | error err =>
    rw [hx] at h
    cases h
  | ok x =>
    rw [hx] at h
    exact ⟨x, rfl, (Except.ok.inj h).symm⟩

theorem Occurs.exists_eval {e : Expr} (h : Occurs part e) {z : Float} (hz : e.eval = .ok z) :
    ∃ x, part.eval = .ok x := by
  induction h generalizing z with
  | self => exact ⟨z, hz⟩
  | signed sign h ih =>
    obtain ⟨x, hx, -⟩ := eval_signed_eq_ok hz
    exact ih hx
  | left op right h ih =>
    obtain ⟨x, y, hx, -⟩ := eval_binary_eq_ok hz
    exact ih hx
  | right op left h ih =>
    obtain ⟨x, y, -, hy, -⟩ := eval_binary_eq_ok hz
    exact ih hy

theorem Diverges.signed {operand : Expr} (h : operand.Diverges) (sign : Sign) :
    (signed sign operand).Diverges := by
  intro z hz
  obtain ⟨x, hx, rfl⟩ := eval_signed_eq_ok hz
  cases sign with
  | pos => exact h x hx
  | neg => exact Bool.eq_false_iff.2 fun hneg =>
      Bool.eq_false_iff.1 (h x hx) (isFinite_of_neg hneg)

/-- One operand without a finite value is enough for an operation that absorbs nothing. -/
theorem Diverges.binary {op : Operator} {left right : Expr}
    (h : left.Diverges ∨ right.Diverges) (hop : Passes op left right) :
    (binary op left right).Diverges := by
  intro z hz
  obtain ⟨x, y, hx, hy, happly⟩ := eval_binary_eq_ok hz
  have hnot : ¬ (isFinite x = true ∧ isFinite y = true) := by
    rintro ⟨hfx, hfy⟩
    obtain hl | hr := h
    · exact Bool.eq_false_iff.1 (hl x hx) hfx
    · exact Bool.eq_false_iff.1 (hr y hy) hfy
  obtain hzero | ⟨z', hz', hiff⟩ := op.apply_of_not_finite hnot
  · rw [happly] at hzero
    cases hzero
  · obtain rfl : z = z' := Except.ok.inj (happly.symm.trans hz')
    -- A finite value would have to be absorbed.
    exact Bool.eq_false_iff.2 fun hfinite => hop x y hx hy (hiff.1 hfinite)

theorem Exposed.diverges {e : Expr} (h : Exposed part e) (hpart : part.Diverges) :
    e.Diverges := by
  induction h with
  | self => exact hpart
  | signed sign h ih => exact ih.signed sign
  | left h hop ih => exact .binary (.inl ih) hop
  | right h hop ih => exact .binary (.inr ih) hop

/-- The result of a tree without a finite value is an error. -/
theorem Diverges.result {e : Expr} (h : e.Diverges) : ∃ err, e.result = .error err := by
  rw [Expr.result, run_eq_eval]
  cases hx : e.eval with
  | error err => exact ⟨err, rfl⟩
  | ok x =>
    dsimp only
    rw [if_neg (Bool.eq_false_iff.1 (h x hx))]
    exact ⟨_, rfl⟩

/-- Where an operation absorbs its operands, it is hidden that one of them is not
finite. -/
theorem result_of_absorbs {op : Operator} {left right : Expr} {x y : Float}
    (hx : left.eval = .ok x) (hy : right.eval = .ok y) (h : op.Absorbs x y) :
    ∃ number, (binary op left right).result = .ok number := by
  obtain ⟨z, hz, hfinite⟩ := h.apply
  have heval : (binary op left right).eval = .ok z := by
    rw [eval, hx, hy]
    exact hz
  rw [Expr.result, run_eq_eval, heval]
  dsimp only
  rw [if_pos hfinite]
  exact ⟨_, rfl⟩

end Expr

namespace Formula

open TagFormula.Expr

/-- A formula that can be read is refused with an error of arithmetic in two cases. An
operand has no value, such as a number that is too large or a power out of range, wherever
it stands. Or an operand is infinite or undefined, and no operation above it absorbs it. -/
theorem overflow_reported {t : Text} {e : Expr} (h : Expr.parse t = .ok e) :
    (∀ (part : Expr) (err : FormulaError), part.Occurs e → part.eval = .error err →
      ∃ err', evaluateExpression t = .error err' ∧ err'.IsArithmetic) ∧
    (∀ (part : Expr) (x : Float), part.Exposed e → part.eval = .ok x → isFinite x = false →
      ∃ err', evaluateExpression t = .error err' ∧ err'.IsArithmetic) := by
  have hrefused (hdiverges : e.Diverges) :
      ∃ err', evaluateExpression t = .error err' ∧ err'.IsArithmetic := by
    obtain ⟨err, herr⟩ := hdiverges.result
    refine ⟨err, ?_, isArithmetic_of_hasTree (Expr.parse_eq_ok_iff.1 h) herr⟩
    rw [evaluateExpression, h]
    exact herr
  constructor
  · intro part err hoccurs hpart
    refine hrefused fun z hz => ?_
    obtain ⟨x, hx⟩ := hoccurs.exists_eval hz
    rw [hpart] at hx
    cases hx
  · intro part x hexposed hpart hx
    refine hrefused (hexposed.diverges fun x' hx' => ?_)
    rw [← Except.ok.inj (hpart.symm.trans hx')]
    exact hx

/-- A number that is finite and has an infinite square. -/
def nines : Text :=
  List.replicate 155 '9'

def square : Expr :=
  .binary .mul (.number nines) (.number nines)

theorem overflow_reported_in_difference :
    square.eval = .ok (ofMagnitude false infinity) ∧
      ∃ err, evaluateExpression (nines ++ '*' :: nines ++ ['-', '1']) = .error err ∧
        err.IsArithmetic := by
  have hparse : Expr.parse (nines ++ '*' :: nines ++ ['-', '1']) =
      .ok (.binary .sub square (.number ['1'])) := by
    decide +kernel
  have hsquare : square.eval = .ok (ofMagnitude false infinity) := by
    decide +kernel
  exact ⟨hsquare, (overflow_reported hparse).2 square _ (.left .self fun _ _ _ _ => id) hsquare
    (isFinite_ofMagnitude_infinity false)⟩

/-- The division absorbs the infinite divisor. -/
example : (evaluateExpression ("1/(".toList ++ nines ++ '*' :: nines ++ [')'])).map
    Number.plain? = .ok (some ['0']) := by
  decide +kernel

end Formula

end TagFormula
