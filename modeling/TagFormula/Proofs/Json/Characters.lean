import TagFormula.Proofs.Json.RoundTrip

/-!
# The characters of written JSON

JSON on one line consists of the ASCII characters from the space to the tilde
(`graphic_compact`). So no line is broken inside it, and every character is one byte.
-/

namespace TagFormula.Json

/-- An ASCII character from the space to the tilde. -/
def IsGraphic (c : Char) : Prop :=
  0x20 ≤ c.toNat ∧ c.toNat ≤ 0x7E

instance (c : Char) : Decidable (IsGraphic c) :=
  inferInstanceAs (Decidable (_ ∧ _))

/-- All characters are graphic. -/
def AllGraphic (t : Text) : Prop :=
  ∀ c ∈ t, IsGraphic c

namespace AllGraphic

theorem nil : AllGraphic [] :=
  fun _ hc => nomatch hc

theorem cons {c : Char} {t : Text} (hc : IsGraphic c) (ht : AllGraphic t) : AllGraphic (c :: t) :=
  List.forall_mem_cons.2 ⟨hc, ht⟩

theorem append {s t : Text} (hs : AllGraphic s) (ht : AllGraphic t) : AllGraphic (s ++ t) :=
  List.forall_mem_append.2 ⟨hs, ht⟩

/-- Given characters are looked at one by one. -/
theorem of_all {t : Text} (h : (t.all fun c => decide (IsGraphic c)) = true) : AllGraphic t :=
  fun c hc => of_decide_eq_true (List.all_eq_true.1 h c hc)

end AllGraphic

open AllGraphic

/-! ## Numbers -/

theorem isGraphic_of_isDigit {c : Char} (h : c.isDigit = true) : IsGraphic c := by
  simp only [Char.isDigit, Bool.and_eq_true, decide_eq_true_eq, ge_iff_le, UInt32.le_iff_toNat_le]
    at h
  have h₀ : 48 ≤ c.toNat := h.1
  have h₁ : c.toNat ≤ 57 := h.2
  exact ⟨by omega, by omega⟩

theorem graphic_natText (n : Nat) : AllGraphic (natText n) :=
  fun _ hc => isGraphic_of_isDigit (isDigit_of_mem_natText hc)

theorem graphic_zeros (n : Nat) : AllGraphic (List.replicate n '0') :=
  fun _ hc => isGraphic_of_isDigit (isDigit_of_mem_zeros hc)

theorem graphic_sign (negative : Bool) : AllGraphic (if negative then ['-'] else []) := by
  cases negative
  · exact nil
  · exact of_all rfl

theorem graphic_intText (n : Int) : AllGraphic (intText n) := by
  unfold intText
  split
  · exact cons (by decide) (graphic_natText _)
  · exact graphic_natText _

theorem graphic_positional (d : Decimal) : AllGraphic d.positional := by
  intro c hc
  rcases d.plainNumeral_positional.ascii c hc with h | rfl
  · exact isGraphic_of_isDigit h
  · decide

theorem graphic_scientific (d : Decimal) : AllGraphic d.scientific := by
  have hexponent : AllGraphic ('e' :: (if d.leadExponent < 0 then '-' else '+') ::
      (List.replicate (2 - (natText d.leadExponent.natAbs).length) '0' ++
        natText d.leadExponent.natAbs)) := by
    refine cons (by decide) (cons ?_ (append (graphic_zeros _) (graphic_natText _)))
    split <;> decide
  have hdigits := graphic_natText d.digits
  unfold Decimal.scientific
  refine append ?_ hexponent
  split
  · next first second rest heq =>
      rw [heq] at hdigits
      obtain ⟨hfirst, hmore⟩ := List.forall_mem_cons.1 hdigits
      exact cons hfirst (cons (by decide) hmore)
  · exact hdigits

theorem graphic_write (f : FloatFormat) (d : Decimal) : AllGraphic (f.write d) := by
  unfold FloatFormat.write
  split
  · exact graphic_scientific d
  split
  · exact append (graphic_positional d) (of_all rfl)
  · exact graphic_positional d

theorem graphic_numberText (x : Float) : AllGraphic (numberText x) := by
  unfold numberText
  split_ifs
  · unfold doubleText FloatFormat.render
    dsimp only
    split
    · exact of_all rfl
    · refine append (graphic_sign _) ?_
      split_ifs
      · exact of_all rfl
      · exact of_all rfl
      · exact of_all rfl
      · exact graphic_write _ _
  · exact of_all rfl
  · exact of_all rfl
  · exact of_all rfl

/-! ## Strings -/

theorem isGraphic_digitChar {k : Nat} (h : k < 16) : IsGraphic (Nat.digitChar k) := by
  interval_cases k <;> decide

theorem graphic_hexDigits (width n : Nat) : AllGraphic (Text.hexDigits width n) := by
  induction width generalizing n with
  | zero => exact nil
  | succ width ih =>
      exact append (ih _) (cons (isGraphic_digitChar (Nat.mod_lt n (by decide))) nil)

theorem graphic_unitEscape (u : Nat) : AllGraphic (unitEscape u) :=
  cons (by decide) (cons (by decide) (graphic_hexDigits 4 u))

theorem graphic_escapeChar (c : Char) : AllGraphic (escapeChar c) := by
  unfold escapeChar
  split_ifs with _ _ _ _ _ _ _ hplain
  · exact of_all rfl
  · exact of_all rfl
  · exact of_all rfl
  · exact of_all rfl
  · exact of_all rfl
  · exact of_all rfl
  · exact of_all rfl
  · simp only [Bool.and_eq_true, decide_eq_true_eq] at hplain
    exact cons hplain nil
  · exact graphic_unitEscape _
  · exact append (graphic_unitEscape _) (graphic_unitEscape _)

theorem graphic_stringText (s : JsonString) : AllGraphic (stringText s) := by
  have hpoints : AllGraphic (s.points.flatMap escapePoint) := by
    intro c hc
    obtain ⟨p, -, hc⟩ := List.mem_flatMap.1 hc
    cases p with
    | char d => exact graphic_escapeChar d c hc
    | surrogate i => exact graphic_unitEscape _ c hc
  exact append (cons (by decide) hpoints) (cons (by decide) nil)

/-! ## Values -/

theorem graphic_compactItems {xs : List Json} (h : ∀ j ∈ xs, AllGraphic (compact j)) :
    AllGraphic (compactItems xs) := by
  induction xs with
  | nil => exact nil
  | cons j xs ih =>
      obtain ⟨hj, hxs⟩ := List.forall_mem_cons.1 h
      cases xs with
      | nil => exact hj
      | cons k xs => exact append hj (cons (by decide) (cons (by decide) (ih hxs)))

theorem graphic_compactMembers {ms : List (JsonString × Json)}
    (h : ∀ m ∈ ms, AllGraphic (compact m.2)) : AllGraphic (compactMembers ms) := by
  induction ms with
  | nil => exact nil
  | cons m ms ih =>
      obtain ⟨key, j⟩ := m
      obtain ⟨hj, hms⟩ := List.forall_mem_cons.1 h
      have hmember : AllGraphic (stringText key ++ ':' :: ' ' :: compact j) :=
        append (graphic_stringText key) (cons (by decide) (cons (by decide) hj))
      cases ms with
      | nil => exact hmember
      | cons n ms => exact append hmember (cons (by decide) (cons (by decide) (ih hms)))

theorem graphic_compact {depth : Nat} {j : Json} (h : Readable depth j) :
    AllGraphic (compact j) := by
  induction h with
  | null => exact of_all rfl
  | bool _ b => cases b <;> exact of_all rfl
  | integer => exact graphic_intText _
  | double => exact graphic_numberText _
  | string _ s => exact graphic_stringText s
  | array _ ih => exact append (cons (by decide) (graphic_compactItems ih)) (cons (by decide) nil)
  | object _ _ ih =>
      exact append (cons (by decide) (graphic_compactMembers ih)) (cons (by decide) nil)

end TagFormula.Json
