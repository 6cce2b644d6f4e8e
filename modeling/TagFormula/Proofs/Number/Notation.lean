import Mathlib
import TagFormula.Proofs.Formula.Literals
import TagFormula.Proofs.Number.Value

/-!
# What number texts denote

A text with a sign or none in front of a decimal denotes a rational number, whichever notation
it is in (`Literal.rational?`). The ways in which decimals are written come back to the
decimal itself: digits alone (`decimal?_natText`), digits with a point among them
(`decimal?_positional`), and one digit in front of the point with an exponent
(`decimal?_scientific`). Hence the text of a double and its plain notation denote the same
number although they look different.
-/

namespace TagFormula

namespace Literal

/-- The number that a text denotes. -/
def rational? (t : Text) : Option ℚ :=
  (decimal? (sign t).2).map fun d => if (sign t).1 then -d.value else d.value

theorem sign_of_ascii {c : Char} (h : c.isDigit = true) (t : Text) :
    sign (c :: t) = (false, c :: t) := by
  unfold sign
  split
  next heq =>
    obtain ⟨rfl, -⟩ := List.cons.inj heq
    exact absurd h (by decide)
  next heq =>
    obtain ⟨rfl, -⟩ := List.cons.inj heq
    exact absurd h (by decide)
  next => rfl

/-- A number text, after a minus sign if there is one. -/
theorem rational?_signed (negative : Bool) {t : Text} {d : Decimal}
    (hhead : ∃ c rest, t = c :: rest ∧ c.isDigit = true) (hd : decimal? t = some d) :
    rational? ((if negative then ['-'] else []) ++ t) =
      some (if negative then -d.value else d.value) := by
  obtain ⟨c, rest, rfl, hc⟩ := hhead
  cases negative with
  | false =>
    show rational? (c :: rest) = some d.value
    rw [rational?, sign_of_ascii hc, hd]
    rfl
  | true =>
    show (decimal? (c :: rest)).map (fun d => -d.value) = some (-d.value)
    rw [hd]
    rfl

end Literal

/-! ## Decimals as written -/

theorem digits_of_ascii {t : Text} (h : ∀ c ∈ t, c.isDigit = true) : Digits t :=
  fun c hc => isDigit_of_ascii (h c hc)

/-- A number in plain notation without its sign: digits, and where there is a fraction a point
with more digits behind it. -/
inductive PlainNotation : Bool → Text → Prop
  | whole {ds : Text} (hne : ds ≠ []) (h : ∀ c ∈ ds, c.isDigit = true) : PlainNotation false ds
  | pointed {ds places : Text} (hne : ds ≠ []) (hne' : places ≠ [])
      (h : ∀ c ∈ ds ++ places, c.isDigit = true) : PlainNotation true (ds ++ '.' :: places)

namespace PlainNotation

variable {fractional : Bool} {t : Text}

theorem plainNumeral (h : PlainNotation fractional t) : PlainNumeral t := by
  cases h with
  | whole hne h => exact .whole hne h
  | pointed hne hne' h =>
    exact .pointed hne (fun c hc => h c (List.mem_append_left _ hc))
      fun c hc => h c (List.mem_append_right _ hc)

theorem exists_head (h : PlainNotation fractional t) :
    ∃ c rest, t = c :: rest ∧ c.isDigit = true := by
  cases h with
  | whole hne h =>
    obtain ⟨c, rest, rfl⟩ := List.exists_cons_of_ne_nil hne
    exact ⟨c, rest, rfl, h c List.mem_cons_self⟩
  | pointed hne hne' h =>
    obtain ⟨c, rest, rfl⟩ := List.exists_cons_of_ne_nil hne
    exact ⟨c, _, rfl, h c List.mem_cons_self⟩

theorem natText (n : Nat) : PlainNotation false (natText n) :=
  .whole (natText_ne_nil n) fun _ hc => isDigit_of_mem_natText hc

theorem positional {d : Decimal} (h : d.exponent < 0) : PlainNotation true d.positional := by
  obtain ⟨whole, places, heq, hne, hne', hascii, -⟩ := Decimal.positional_parts h
  rw [heq]
  exact .pointed hne hne' hascii

end PlainNotation

namespace Decimal

open Literal

theorem decimal?_natText (n : Nat) : decimal? (natText n) = some ⟨n, 0⟩ := by
  have hdigits : Digits (natText n) := digits_of_ascii fun c hc => isDigit_of_mem_natText hc
  have h := decimal?_whole hdigits (natText_ne_nil n) endsDigits_nil (fun _ hc => nomatch hc)
  rwa [List.append_nil, ofDigits_natText] at h

theorem decimal?_positional {d : Decimal} (h : d.exponent < 0) :
    decimal? d.positional = some d := by
  obtain ⟨whole, places, heq, hne, -, hascii, hvalue, hlength, -⟩ := positional_parts h
  have hwhole := digits_of_ascii fun c hc => hascii c (List.mem_append_left _ hc)
  have hplaces := digits_of_ascii fun c hc => hascii c (List.mem_append_right _ hc)
  have hread := decimal?_pointed hwhole hplaces (.inl hne) endsDigits_nil
  rw [List.append_nil, hvalue, hlength] at hread
  rw [heq, hread]
  simp [exponentPart?]

theorem exponentPart?_signed (e : Int) (k : Nat) :
    exponentPart? ('e' :: (if e < 0 then '-' else '+') ::
      (List.replicate k '0' ++ natText e.natAbs)) = some e := by
  have hascii : ∀ c ∈ List.replicate k '0' ++ natText e.natAbs, c.isDigit = true := by
    intro c hc
    rcases List.mem_append.1 hc with hc | hc
    · exact isDigit_of_mem_zeros hc
    · exact isDigit_of_mem_natText hc
  have hrun := digitRun_append (digits_of_ascii hascii) endsDigits_nil
  have hvalue := ofDigits_zeros_natText k e.natAbs
  have hne : List.replicate k '0' ++ natText e.natAbs ≠ [] :=
    List.append_ne_nil_of_right_ne_nil _ (natText_ne_nil _)
  rw [List.append_nil] at hrun
  obtain ⟨c, ds, hcons⟩ := List.exists_cons_of_ne_nil hne
  rw [hcons] at hrun hvalue ⊢
  have hread (negative : Bool) : exponentPart? ('e' :: (if negative then '-' else '+') ::
      c :: ds) = some (if negative then -(Text.ofDigits (c :: ds) : Int)
        else Text.ofDigits (c :: ds)) := by
    cases negative <;> simp [exponentPart?, sign, hrun]
  rw [hvalue] at hread
  by_cases h : e < 0
  · simpa [h, abs_of_neg h] using hread true
  · simpa [h, abs_of_nonneg (not_lt.1 h)] using hread false

theorem decimal?_scientific (d : Decimal) : decimal? d.scientific = some d := by
  have hascii : ∀ c ∈ natText d.digits, c.isDigit = true := fun c hc => isDigit_of_mem_natText hc
  have hvalue := ofDigits_natText d.digits
  have hexponent := exponentPart?_signed d.leadExponent
    (2 - (natText d.leadExponent.natAbs).length)
  have hlead : d.leadExponent = (natText d.digits).length + d.exponent - 1 := rfl
  have hends := endsDigits_cons (c := 'e') (by decide) (by decide)
    ((if d.leadExponent < 0 then '-' else '+') ::
      (List.replicate (2 - (natText d.leadExponent.natAbs).length) '0' ++
        natText d.leadExponent.natAbs))
  obtain ⟨first, more, hds⟩ := List.exists_cons_of_ne_nil (natText_ne_nil d.digits)
  rw [hds] at hascii hvalue hlead
  rw [scientific, hds]
  cases more with
  | nil =>
    have hread := decimal?_whole (digits_of_ascii hascii) (List.cons_ne_nil _ _) hends
      (fun c hc => by rw [← Option.some.inj hc]; decide)
    have hplaces : d.leadExponent = d.exponent := by
      rw [hlead, List.length_singleton]
      ring
    rw [hexponent, hvalue, Option.map_some] at hread
    exact hread.trans (congrArg (fun e => some (Decimal.mk d.digits e)) hplaces)
  | cons second more =>
    -- The point stands behind the first digit.
    have hfirst : Digits [first] := digits_of_ascii fun c hc =>
      hascii c (List.mem_cons.2 (.inl (List.mem_singleton.1 hc)))
    have hmore : Digits (second :: more) := digits_of_ascii fun c hc =>
      hascii c (List.mem_cons_of_mem _ hc)
    have hread := decimal?_pointed hfirst hmore (.inl (List.cons_ne_nil _ _)) hends
    have hall : Text.ofDigits ([first] ++ second :: more) = d.digits := hvalue
    have hplaces : d.leadExponent - (second :: more).length = d.exponent := by
      rw [hlead, List.length_cons]
      push_cast
      ring
    rw [hexponent, hall, Option.map_some, hplaces] at hread
    exact hread

/-- A shortest text denotes the decimal that it was written from. -/
theorem decimal?_write {d : Decimal} (h : d.exponent < 0) :
    decimal? (FloatFormat.textFormat.write d) = some d := by
  rw [FloatFormat.write]
  split
  · exact decimal?_scientific d
  · rw [if_neg fun hpoint => absurd hpoint.2 (not_le.2 h)]
    exact decimal?_positional h

/-- A shortest text begins with a digit. -/
theorem exists_head_write {d : Decimal} (h : d.exponent < 0) :
    ∃ c rest, FloatFormat.textFormat.write d = c :: rest ∧ c.isDigit = true := by
  rw [FloatFormat.write]
  split
  · obtain ⟨first, more, hds⟩ := List.exists_cons_of_ne_nil (natText_ne_nil d.digits)
    have hfirst : first.isDigit = true :=
      isDigit_of_mem_natText (n := d.digits) (hds ▸ List.mem_cons_self)
    rw [scientific, hds]
    cases more with
    | nil => exact ⟨first, _, rfl, hfirst⟩
    | cons second more => exact ⟨first, _, rfl, hfirst⟩
  · rw [if_neg fun hpoint => absurd hpoint.2 (not_le.2 h)]
    exact (PlainNotation.positional h).exists_head

end Decimal

end TagFormula
