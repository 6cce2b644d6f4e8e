import TagFormula.Json.Parser
import TagFormula.Json.Printer
import TagFormula.Json.Strict
import TagFormula.Proofs.Number.ReadBack

/-!
# Numbers of JSON read back

The text of an integer with no more digits than are read, and that of a finite double,
gives the same number again (`scalar_intText`, `scalar_numberText`). A number ends where no
character follows that could belong to it (`EndsNumber`); in JSON that is what comes
behind every value.

A double is written in one of three forms. Those with an exponent and those with digits
on both sides of the point are read as the very decimal that was written. One that is
integral has a zero more behind the point, and its decimal is another one of the same
value.
-/

namespace TagFormula.Json

/-- No digit, point or exponent is next. -/
def EndsNumber (rest : Text) : Prop :=
  ∀ c ∈ rest.head?, c.isDigit = false ∧ c ≠ '.' ∧ c ≠ 'e' ∧ c ≠ 'E'

/-! ## Parts of numbers -/

theorem digits_append {ds rest : Text} (hds : ∀ c ∈ ds, c.isDigit = true)
    (hrest : ∀ c ∈ rest.head?, c.isDigit = false) : digits (ds ++ rest) = (ds, rest) := by
  have hnone : rest.takeWhile Char.isDigit = [] ∧ rest.dropWhile Char.isDigit = rest := by
    cases rest with
    | nil => exact ⟨rfl, rfl⟩
    | cons c rest => simp [hrest c rfl]
  rw [digits, List.takeWhile_append_of_pos hds, List.dropWhile_append_of_pos hds, hnone.1,
    hnone.2, List.append_nil]

/-- A whole part begins with a zero only if that is all of it. -/
theorem wholePart_append {ds rest : Text} (hds : ∀ c ∈ ds, c.isDigit = true)
    (hzero : ds.head? = some '0' → ds = ['0']) (hrest : ∀ c ∈ rest.head?, c.isDigit = false) :
    wholePart (ds ++ rest) = (ds, rest) := by
  by_cases h : ds.head? = some '0'
  · rw [hzero h]
    rfl
  · unfold wholePart
    split
    · next heq =>
        cases ds with
        | nil =>
            obtain rfl : rest = _ := heq
            exact absurd (hrest '0' rfl) (by decide)
        | cons d ds => simp_all
    · exact digits_append hds hrest

theorem fraction_point {ps rest : Text} (hne : ps ≠ []) (hps : ∀ c ∈ ps, c.isDigit = true)
    (hrest : ∀ c ∈ rest.head?, c.isDigit = false) :
    fraction ('.' :: (ps ++ rest)) = (ps, rest) := by
  have h := digits_append hps hrest
  have hne' : ps.isEmpty = false := List.isEmpty_eq_false_iff.2 hne
  simp only [fraction, h, hne']
  rfl

theorem fraction_of_ne {rest : Text} (h : ∀ c ∈ rest.head?, c ≠ '.') :
    fraction rest = ([], rest) := by
  unfold fraction
  split
  · exact absurd rfl (h '.' rfl)
  · rfl

theorem exponent_of_ends {rest : Text} (h : EndsNumber rest) : exponent rest = (none, rest) := by
  unfold exponent
  split
  · next c rest =>
      obtain ⟨-, -, he, hE⟩ := h c rfl
      rw [if_neg (by simp [he, hE])]
  · rfl

/-- An exponent is written with its sign and may have zeros in front. -/
theorem exponent_signed (e : Int) (k : Nat) {rest : Text}
    (hrest : ∀ c ∈ rest.head?, c.isDigit = false) :
    exponent ('e' :: (if e < 0 then '-' else '+') ::
      (List.replicate k '0' ++ natText e.natAbs ++ rest)) = (some e, rest) := by
  have hds : ∀ c ∈ List.replicate k '0' ++ natText e.natAbs, c.isDigit = true := by
    intro c hc
    rcases List.mem_append.1 hc with hc | hc
    · exact isDigit_of_mem_zeros hc
    · exact isDigit_of_mem_natText hc
  have hne : List.replicate k '0' ++ natText e.natAbs ≠ [] :=
    List.append_ne_nil_of_right_ne_nil _ (natText_ne_nil _)
  have hdigits := digits_append hds hrest
  have hvalue := ofDigits_zeros_natText k e.natAbs
  obtain ⟨d, ds, hcons⟩ := List.exists_cons_of_ne_nil hne
  rw [hcons] at hdigits hvalue ⊢
  rw [List.cons_append] at hdigits
  have hread (negative : Bool) : exponent ('e' :: (if negative then '-' else '+') ::
      (d :: ds ++ rest)) = (some (if negative then -(Text.ofDigits (d :: ds) : Int)
        else Text.ofDigits (d :: ds)), rest) := by
    cases negative <;> simp [exponent, Literal.sign, hdigits]
  rw [hvalue] at hread
  by_cases h : e < 0
  · simpa [h, abs_of_neg h] using hread true
  · simpa [h, abs_of_nonneg (not_lt.1 h)] using hread false

/-! ## Unsigned numbers -/

variable {whole places t₁ t₂ rest : Text}

theorem number_integer {t : Text} (negative : Bool) (hwhole : wholePart t = (whole, rest))
    (hne : whole ≠ []) (hlength : whole.length ≤ Literal.maxIntegerDigits)
    (hrest : EndsNumber rest) :
    number negative t = .ok (.integer
      (if negative then -(Text.ofDigits whole : Int) else Text.ofDigits whole), rest) := by
  have hne' : whole.isEmpty = false := List.isEmpty_eq_false_iff.2 hne
  have hfraction := fraction_of_ne fun c hc => (hrest c hc).2.1
  simp [number, hwhole, hne', hfraction, exponent_of_ends hrest, Nat.not_lt.2 hlength]

/-- A number is a double if it has decimal places or an exponent. -/
theorem number_double {t : Text} (negative : Bool) {e : Option Int}
    (hwhole : wholePart t = (whole, t₁)) (hne : whole ≠ []) (hfraction : fraction t₁ = (places, t₂))
    (hexponent : exponent t₂ = (e, rest)) (h : places ≠ [] ∨ e ≠ none) :
    number negative t = .ok (.double (Binary64.ofMagnitude negative
      (Decimal.mk (Text.ofDigits (whole ++ places)) (e.getD 0 - places.length)).magnitude),
      rest) := by
  have hne' : whole.isEmpty = false := List.isEmpty_eq_false_iff.2 hne
  rcases h with h | h
  · obtain ⟨p, ps, rfl⟩ := List.exists_cons_of_ne_nil h
    simp [number, hwhole, hne', hfraction, hexponent]
  · obtain ⟨e, rfl⟩ := Option.ne_none_iff_exists'.1 h
    simp [number, hwhole, hne', hfraction, hexponent]

/-! ## Decimals -/

open Decimal

theorem isDigit_false_of_ends (hrest : EndsNumber rest) : ∀ c ∈ rest.head?, c.isDigit = false :=
  fun c hc => (hrest c hc).1

/-- A point is put behind the first of several digits. -/
theorem mantissa_parts {ds : Text} (hne : ds ≠ []) (hds : ∀ c ∈ ds, c.isDigit = true) (t₂ : Text)
    (ht : t₂.head? = some 'e') :
    ∃ first places t₁, ds = first :: places ∧
      wholePart ((match ds with
        | first :: second :: rest => first :: '.' :: second :: rest
        | ds => ds) ++ t₂) = ([first], t₁) ∧ fraction t₁ = (places, t₂) := by
  have hnotDigit : ∀ c ∈ t₂.head?, c.isDigit = false := by simp [ht]
  match ds with
  | [] => exact absurd rfl hne
  | [first] =>
      have hwhole := wholePart_append hds (by simp) hnotDigit
      exact ⟨first, [], t₂, rfl, hwhole, fraction_of_ne (by simp [ht])⟩
  | first :: second :: more =>
      have hwhole : wholePart ([first] ++ '.' :: (second :: more ++ t₂)) =
          ([first], '.' :: (second :: more ++ t₂)) := wholePart_append
        (fun c hc => hds c (List.mem_cons.2 (.inl (List.mem_singleton.1 hc)))) (by simp) (by simp)
      have hfraction := fraction_point (List.cons_ne_nil second more)
        (fun c hc => hds c (List.mem_cons_of_mem _ hc)) hnotDigit
      exact ⟨first, second :: more, _, rfl, hwhole, hfraction⟩

theorem number_scientific (negative : Bool) (d : Decimal) (hrest : EndsNumber rest) :
    number negative (d.scientific ++ rest) =
      .ok (.double (Binary64.ofMagnitude negative d.magnitude), rest) := by
  have hexponent := exponent_signed d.leadExponent
    (2 - (natText d.leadExponent.natAbs).length) (isDigit_false_of_ends hrest)
  obtain ⟨first, places, t₁, hds, hwhole, hfraction⟩ :=
    mantissa_parts (natText_ne_nil d.digits) (fun c hc => isDigit_of_mem_natText hc)
      ('e' :: (if d.leadExponent < 0 then '-' else '+') ::
        (List.replicate (2 - (natText d.leadExponent.natAbs).length) '0' ++
          natText d.leadExponent.natAbs ++ rest)) rfl
  have h := number_double negative hwhole (List.cons_ne_nil _ _) hfraction hexponent (.inr nofun)
  have hsame : (⟨Text.ofDigits ([first] ++ places),
      (some d.leadExponent).getD 0 - places.length⟩ : Decimal) = d := by
    obtain ⟨n, k⟩ := d
    rw [List.singleton_append, ← hds, ofDigits_natText, Option.getD_some, leadExponent, hds,
      List.length_cons]
    congr 1
    push_cast
    omega
  rw [hsame] at h
  rw [scientific, List.append_assoc]
  exact h

/-- With digits on both sides of the point. -/
theorem number_pointed (negative : Bool) (whole places : Text) {rest : Text}
    (hne : whole ≠ []) (hwhole : ∀ c ∈ whole, c.isDigit = true)
    (hzero : whole.head? = some '0' → whole = ['0']) (hne' : places ≠ [])
    (hplaces : ∀ c ∈ places, c.isDigit = true) (hrest : EndsNumber rest) :
    number negative (whole ++ '.' :: places ++ rest) =
      .ok (.double (Binary64.ofMagnitude negative
        (Decimal.mk (Text.ofDigits (whole ++ places)) (-places.length)).magnitude), rest) := by
  have hparts : wholePart (whole ++ '.' :: (places ++ rest)) = (whole, '.' :: (places ++ rest)) :=
    wholePart_append hwhole hzero (by simp)
  have hfraction := fraction_point hne' hplaces (isDigit_false_of_ends hrest)
  have h := number_double negative hparts hne hfraction (exponent_of_ends hrest) (.inl hne')
  simpa using h

/-- Positional notation with decimal places. -/
theorem number_positional (negative : Bool) {d : Decimal} (hdigits : d.digits ≠ 0)
    (hneg : d.exponent < 0) (hrest : EndsNumber rest) :
    number negative (d.positional ++ rest) =
      .ok (.double (Binary64.ofMagnitude negative d.magnitude), rest) := by
  obtain ⟨whole, places, heq, hne, hne', hascii, hvalue, hlength, hzero⟩ := positional_parts hneg
  have h := number_pointed negative whole places hne
    (fun c hc => hascii c (List.mem_append_left _ hc)) (hzero hdigits) hne'
    (fun c hc => hascii c (List.mem_append_right _ hc)) hrest
  rw [hvalue, hlength, neg_neg] at h
  rw [heq]
  exact h

/-- Positional notation of an integral value, with a point and a zero. -/
theorem number_positional_pointZero (negative : Bool) {d : Decimal} (hdigits : d.digits ≠ 0)
    (hnonneg : 0 ≤ d.exponent) (hle : d.exponent ≤ 400) (hrest : EndsNumber rest) :
    number negative (d.positional ++ ['.', '0'] ++ rest) =
      .ok (.double (Binary64.ofMagnitude negative d.magnitude), rest) := by
  have hzeros : ∀ c ∈ natText d.digits ++ List.replicate d.exponent.toNat '0',
      c.isDigit = true := by
    intro c hc
    rcases List.mem_append.1 hc with hc | hc
    · exact isDigit_of_mem_natText hc
    · exact isDigit_of_mem_zeros hc
  have hhead : (natText d.digits ++ List.replicate d.exponent.toNat '0').head? ≠ some '0' := by
    rw [List.head?_append_of_ne_nil _ (natText_ne_nil _)]
    exact fun h => hdigits (eq_zero_of_head?_natText h)
  have hread : Text.ofDigits (natText d.digits ++ List.replicate d.exponent.toNat '0' ++ ['0']) =
      d.digits * 10 ^ (d.exponent.toNat + 1) := by
    rw [List.append_assoc, ← List.replicate_succ', ofDigits_natText_zeros]
  have h := number_pointed negative _ ['0']
    (List.append_ne_nil_of_left_ne_nil (natText_ne_nil d.digits) _) hzeros
    (fun h => absurd h hhead) (List.cons_ne_nil _ _) (fun c => isDigit_of_mem_zeros (n := 1)) hrest
  rw [hread] at h
  rw [positional, if_pos hnonneg, ← magnitude_shift hdigits hnonneg hle]
  simpa using h

/-- A decimal other than zero as doubles are written. -/
theorem number_write (negative : Bool) {d : Decimal} (hdigits : d.digits ≠ 0)
    (hrest : EndsNumber rest) :
    number negative (FloatFormat.textFormat.write d ++ rest) =
      .ok (.double (Binary64.ofMagnitude negative d.magnitude), rest) := by
  unfold FloatFormat.write
  split
  · exact number_scientific negative d hrest
  · next hrange =>
      have hlead : d.leadExponent = (natText d.digits).length + d.exponent - 1 := rfl
      have hfrom : FloatFormat.textFormat.scientificFrom = 16 := rfl
      split
      · next h => exact number_positional_pointZero negative hdigits h.2 (by omega) hrest
      · next h =>
          have hneg : d.exponent < 0 := by
            by_contra hnonneg
            exact h ⟨rfl, not_lt.1 hnonneg⟩
          exact number_positional negative hdigits hneg hrest

/-! ## Values -/

/-- No word begins with a digit. -/
theorem scalar_unsigned {c : Char} {t : Text} (hc : c.isDigit = true) :
    scalar (c :: t) = number false (c :: t) := by
  have hword (d : Char) (hd : d.isDigit = false) : (d == c) = false := by
    rw [beq_eq_false_iff_ne]
    rintro rfl
    rw [hd] at hc
    exact nomatch hc
  have hminus : c ≠ '-' := by
    rintro rfl
    exact absurd hc (by decide)
  have hnone : (words.find? fun w => w.1.isPrefixOf (c :: t)) = none := by
    simp [words, List.isPrefixOf, hword]
  unfold scalar
  rw [hnone]
  dsimp only
  split
  · next heq => exact absurd (List.cons.inj heq).1 hminus
  · rfl

theorem scalar_minus {c : Char} {t : Text} (hc : c.isDigit = true) :
    scalar ('-' :: c :: t) = number true (c :: t) := by
  have hword : ('I' == c) = false := by
    rw [beq_eq_false_iff_ne]
    rintro rfl
    exact absurd hc (by decide)
  have hnone : (words.find? fun w => w.1.isPrefixOf ('-' :: c :: t)) = none := by
    simp [words, List.isPrefixOf, hword]
  rw [scalar, hnone]

/-- What is read as an unsigned number begins with a digit. -/
theorem head_isDigit_of_number {negative : Bool} {t : Text} {r : Json × Text}
    (h : number negative t = .ok r) : ∃ c t', t = c :: t' ∧ c.isDigit = true := by
  cases t with
  | nil => exact nomatch h
  | cons c t =>
      refine ⟨c, t, rfl, ?_⟩
      by_contra hc
      have hwhole : wholePart (c :: t) = ([], c :: t) := by
        unfold wholePart
        split
        · next heq => exact absurd (by rw [(List.cons.inj heq).1]; decide) hc
        · simp [digits, hc]
      simp [number, hwhole] at h

/-- A sign or none, and an unsigned number. -/
theorem scalar_of_number {negative : Bool} {t : Text} {r : Json × Text}
    (h : number negative t = .ok r) : scalar ((if negative then ['-'] else []) ++ t) = .ok r := by
  obtain ⟨c, t, rfl, hc⟩ := head_isDigit_of_number h
  cases negative
  · exact (scalar_unsigned hc).trans h
  · exact (scalar_minus hc).trans h

theorem scalar_intText {n : Int} (hn : Literal.isLong n = false) (hrest : EndsNumber rest) :
    scalar (intText n ++ rest) = .ok (.integer n, rest) := by
  have hlength (k : Nat) (hk : 0 < k) (h : ¬ Nat.pow 10 k ≤ n.natAbs) :
      (natText n.natAbs).length ≤ k := length_natText_le hk (not_le.1 h)
  have hzero : (natText n.natAbs).head? = some '0' → natText n.natAbs = ['0'] := by
    intro h
    rw [eq_zero_of_head?_natText h]
    rfl
  have hwhole := wholePart_append (fun c hc => isDigit_of_mem_natText hc) hzero
    (isDigit_false_of_ends hrest)
  have h := scalar_of_number
    (number_integer (n < 0 : Bool) hwhole (natText_ne_nil n.natAbs)
      (hlength _ (by decide) (of_decide_eq_false hn)) hrest)
  rw [ofDigits_natText] at h
  by_cases hneg : n < 0
  · simpa [intText, hneg, abs_of_neg hneg] using h
  · simpa [intText, hneg, abs_of_nonneg (not_lt.1 hneg)] using h

theorem scalar_numberText {x : Float} (hx : Binary64.isFinite x = true) (hrest : EndsNumber rest) :
    scalar (numberText x ++ rest) = .ok (.double x, rest) := by
  have hfinite : Binary64.magnitude x < Binary64.infinity := of_decide_eq_true hx
  have hnan : Binary64.isNaN x = false := decide_eq_false (Nat.not_lt.2 hfinite.le)
  rw [numberText, if_pos hx, doubleText, FloatFormat.render]
  simp only [hnan, hfinite.ne, if_false, Bool.false_eq_true]
  have hx' := Binary64.ofMagnitude_magnitude x
  rw [List.append_assoc]
  by_cases hzero : Binary64.magnitude x = 0
  · have h := number_pointed (Binary64.isNegative x) ['0'] ['0']
      (by simp) (fun c => isDigit_of_mem_zeros (n := 1)) (fun _ => rfl) (by simp)
      (fun c => isDigit_of_mem_zeros (n := 1)) hrest
    have hmagnitude : (Decimal.mk (Text.ofDigits (['0'] ++ ['0']))
        (-(['0'] : Text).length)).magnitude = Binary64.magnitude x := by
      rw [hzero]
      rfl
    rw [hmagnitude, hx'] at h
    rw [if_pos hzero]
    exact scalar_of_number h
  · have hpos := Nat.pos_of_ne_zero hzero
    have hread := Decimal.magnitude_shortest hpos hfinite
    have h := number_write (Binary64.isNegative x)
      (Decimal.digits_ne_zero_of_magnitude (hread.symm ▸ hpos)) hrest
    rw [hread, hx'] at h
    rw [if_neg hzero]
    exact scalar_of_number h

end TagFormula.Json
