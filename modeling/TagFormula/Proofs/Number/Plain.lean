import TagFormula.Number.Basic
import TagFormula.Proofs.Formula.Grammar

/-!
# The form of plain notation

A finite double in plain notation is a numeral of the grammar, in the ten ASCII digits
and with at most one point, and possibly a minus sign before it. There is no exponent
and no other sign, so the text reads back as a sign and one number.
-/

namespace TagFormula

/-- A numeral in ASCII digits. -/
structure PlainNumeral (t : Text) : Prop where
  numeral : Numeral t
  ascii : ∀ c ∈ t, c.isDigit = true ∨ c = '.'

/-- The digits of the ASCII range are those of the first zero. -/
theorem digitValue?_of_ascii {c : Char} (h : c.isDigit = true) :
    Text.digitValue? c = some (c.toNat - 0x30) := by
  simp only [Char.isDigit, Bool.and_eq_true, decide_eq_true_eq, ge_iff_le, UInt32.le_iff_toNat_le]
    at h
  have hfind : (Text.zeros.find? fun z => z ≤ c.toNat && c.toNat ≤ z + 9) = some 0x30 := by
    refine List.find?_cons_of_pos ?_
    simp only [Bool.and_eq_true, decide_eq_true_eq]
    exact h
  rw [Text.digitValue?, hfind]
  rfl

theorem isDigit_of_ascii {c : Char} (h : c.isDigit = true) : Text.isDigit c = true := by
  rw [Text.isDigit, digitValue?_of_ascii h]
  rfl

namespace PlainNumeral

theorem whole {t : Text} (hne : t ≠ []) (h : ∀ c ∈ t, c.isDigit = true) : PlainNumeral t :=
  ⟨.whole (fun c hc => isDigit_of_ascii (h c hc)) hne, fun c hc => .inl (h c hc)⟩

theorem pointed {t u : Text} (hne : t ≠ []) (ht : ∀ c ∈ t, c.isDigit = true)
    (hu : ∀ c ∈ u, c.isDigit = true) : PlainNumeral (t ++ '.' :: u) where
  numeral := .pointed (fun c hc => isDigit_of_ascii (ht c hc)) hne
    fun c hc => isDigit_of_ascii (hu c hc)
  ascii c hc := by
    rcases List.mem_append.1 hc with hc | hc
    · exact .inl (ht c hc)
    · rcases List.mem_cons.1 hc with rfl | hc
      · exact .inr rfl
      · exact .inl (hu c hc)

end PlainNumeral

/-! ## Digits of naturals and decimals -/

theorem natText_ne_nil (n : Nat) : natText n ≠ [] :=
  Nat.toDigits_ne_nil

theorem isDigit_of_mem_natText {n : Nat} {c : Char} (h : c ∈ natText n) : c.isDigit = true :=
  Nat.isDigit_of_mem_toDigits (by decide) (by decide) h

theorem isDigit_of_mem_zeros {n : Nat} {c : Char} (h : c ∈ List.replicate n '0') :
    c.isDigit = true := by
  rw [List.eq_of_mem_replicate h]
  rfl

theorem Decimal.plainNumeral_positional (d : Decimal) : PlainNumeral d.positional := by
  unfold positional
  split
  · refine .whole ?_ fun c hc => ?_
    · simp [natText_ne_nil]
    · rcases List.mem_append.1 hc with hc | hc
      · exact isDigit_of_mem_natText hc
      · exact isDigit_of_mem_zeros hc
  · next hneg =>
      -- The digits are filled up with zeros so that one is left before the point.
      have hdigits : ∀ k, ∀ c ∈ List.replicate k '0' ++ natText d.digits, c.isDigit = true := by
        intro k c hc
        rcases List.mem_append.1 hc with hc | hc
        · exact isDigit_of_mem_zeros hc
        · exact isDigit_of_mem_natText hc
      refine .pointed ?_ (fun c hc => hdigits _ c (List.mem_of_mem_take hc))
        fun c hc => hdigits _ c (List.mem_of_mem_drop hc)
      rw [ne_eq, ← List.length_eq_zero_iff, List.length_take, List.length_append,
        List.length_replicate]
      omega

/-! ## Doubles -/

namespace Number

/-- The value text of a double: a sign or none, and a numeral. -/
theorem plainDouble?_form {x : Float} {t : Text} (h : plainDouble? x = some t) :
    PlainNumeral t ∨ ∃ lit, t = '-' :: lit ∧ PlainNumeral lit := by
  have hnat (n : Nat) : PlainNumeral (natText n) :=
    .whole (natText_ne_nil n) fun c hc => isDigit_of_mem_natText hc
  rw [plainDouble?] at h
  split at h
  · split at h
    · next n _ =>
        rw [← Option.some.inj h, intText]
        split
        · exact .inr ⟨_, rfl, hnat _⟩
        · exact .inl (hnat _)
    · rw [← Option.some.inj h]
      split
      · exact .inr ⟨_, rfl, Decimal.plainNumeral_positional _⟩
      · exact .inl (Decimal.plainNumeral_positional _)
  · exact nomatch h

end Number

end TagFormula
