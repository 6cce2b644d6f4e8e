import Mathlib.Tactic.IntervalCases
import TagFormula.Json.Parser
import TagFormula.Json.Printer

/-!
# Strings of JSON read back

What is written for a code point is read as its UTF-16 units: one code point for a
surrogate and for a character of the basic plane, and a pair of surrogates for any other
character (`CodePoint.units`). Since a string holds no pair of surrogates, joining the
pairs that have been read gives back its code points (`CodePoint.join_units`), and so
every string reads back (`Json.string?_stringText`).
-/

namespace TagFormula

namespace CodePoint

/-- The UTF-16 units of a code point, as code points. -/
def units : CodePoint → List CodePoint
  | .char c =>
    if c.toNat < 0x10000 then [.char c]
    else
      [ofNat (0xD800 + (c.toNat - 0x10000) / 0x400), ofNat (0xDC00 + (c.toNat - 0x10000) % 0x400)]
  | p => [p]

theorem toNat_lt (c : Char) : c.toNat < 0x110000 := by
  have h := c.valid
  simp only [UInt32.isValidChar, Nat.isValidChar] at h
  change c.val.toNat < 0x110000
  omega

theorem ofNat_toNat_char (c : Char) : ofNat c.toNat = .char c := by
  have h := c.valid
  simp only [UInt32.isValidChar, Nat.isValidChar] at h
  have hnot : ¬ (0xD800 ≤ c.toNat ∧ c.toNat ≤ 0xDFFF) := by
    change ¬ (0xD800 ≤ c.val.toNat ∧ c.val.toNat ≤ 0xDFFF)
    omega
  rw [ofNat, dif_neg hnot, Char.ofNat_toNat]

theorem ofNat_surrogate (i : Fin 0x800) : ofNat (0xD800 + i.val) = .surrogate i := by
  have h : 0xD800 ≤ 0xD800 + i.val ∧ 0xD800 + i.val ≤ 0xDFFF := by omega
  unfold ofNat
  rw [dif_pos h]
  simp only [Nat.add_sub_cancel_left]

/-- The two units of a character beyond the basic plane are a pair that stands for it. -/
theorem units_of_le {c : Char} (hc : 0x10000 ≤ c.toNat) :
    ∃ high low, units (.char c) = [.surrogate high, .surrogate low] ∧ high.val < 0x400 ∧
      pair? (.surrogate high) (.surrogate low) = some c := by
  have hlt := toNat_lt c
  obtain ⟨n, hn⟩ : ∃ n, c.toNat = 0x10000 + n := ⟨c.toNat - 0x10000, by omega⟩
  have hhigh : n / 0x400 < 0x400 := by omega
  refine ⟨⟨n / 0x400, by omega⟩, ⟨0x400 + n % 0x400, by omega⟩, ?_, hhigh, ?_⟩
  · have hfirst := ofNat_surrogate ⟨n / 0x400, by omega⟩
    have hsecond := ofNat_surrogate ⟨0x400 + n % 0x400, by omega⟩
    rw [units, if_neg (by omega), hn, Nat.add_sub_cancel_left]
    rw [show 0xDC00 + n % 0x400 = 0xD800 + (0x400 + n % 0x400) by omega]
    rw [hfirst, hsecond]
  · have hvalue : 0x10000 + n / 0x400 * 0x400 + (0x400 + n % 0x400 - 0x400) = c.toNat := by omega
    simp only [pair?, hhigh, Nat.le_add_right, and_self, if_true, hvalue, Char.ofNat_toNat]

/-- Code points without pairs are found again from their units. -/
theorem join_units {ps : List CodePoint} (h : Joined ps) : join (ps.flatMap units) = ps := by
  have hone (p : CodePoint) (rest : List CodePoint)
      (hpair : ∀ q ∈ rest.head?, pair? p q = none) : join (p :: rest) = p :: join rest := by
    cases rest with
    | nil => rfl
    | cons q rest => rw [join, hpair q rfl]
  induction ps with
  | nil => rfl
  | cons p ps ih =>
      have hps : Joined ps := by
        cases ps with
        | nil => trivial
        | cons q ps => exact h.2
      rw [List.flatMap_cons]
      cases p with
      | char c =>
          by_cases hc : c.toNat < 0x10000
          · rw [units, if_pos hc, List.singleton_append, hone _ _ (by simp), ih hps]
          · obtain ⟨high, low, hunits, -, hpair⟩ := units_of_le (not_lt.1 hc)
            rw [hunits, List.cons_append, List.singleton_append, join, hpair, ih hps]
      | surrogate i =>
          have hunits : units (surrogate i) = [surrogate i] := rfl
          rw [hunits, List.singleton_append]
          refine (hone _ _ fun q hq => ?_).trans (by rw [ih hps])
          -- The next unit is no second half: it is that of the next code point or a first half.
          cases ps with
          | nil => exact nomatch hq
          | cons p ps =>
              cases p with
              | surrogate j =>
                  rw [← Option.some.inj hq]
                  exact h.1
              | char c =>
                  by_cases hc : c.toNat < 0x10000
                  · rw [List.flatMap_cons, units, if_pos hc] at hq
                    rw [← Option.some.inj hq]
                    exact pair?_char_right _ c
                  · obtain ⟨high, low, hunits, hhigh, -⟩ := units_of_le (not_lt.1 hc)
                    rw [List.flatMap_cons, hunits] at hq
                    rw [← Option.some.inj hq, pair?, if_neg (by omega)]

end CodePoint

namespace Json

/-! ## Escapes -/

theorem hexValue?_digitChar {k : Nat} (h : k < 16) : hexValue? (Nat.digitChar k) = some k := by
  interval_cases k <;> rfl

theorem stringPoints_unitEscape {u : Nat} (hu : u < 0x10000) (seen : List CodePoint) (rest : Text) :
    stringPoints seen (unitEscape u ++ rest) = stringPoints (.ofNat u :: seen) rest := by
  have hunit : unit? (Nat.digitChar (u / 16 / 16 / 16 % 16)) (Nat.digitChar (u / 16 / 16 % 16))
      (Nat.digitChar (u / 16 % 16)) (Nat.digitChar (u % 16)) = some u := by
    have hmod (n : Nat) : n % 16 < 16 := Nat.mod_lt n (by decide)
    simp only [unit?, hexValue?_digitChar (hmod _)]
    congr 1
    omega
  have hdigits : unitEscape u ++ rest = '\\' :: 'u' :: Nat.digitChar (u / 16 / 16 / 16 % 16) ::
      Nat.digitChar (u / 16 / 16 % 16) :: Nat.digitChar (u / 16 % 16) ::
      Nat.digitChar (u % 16) :: rest := rfl
  rw [hdigits, stringPoints, hunit]

/-- A character that stands for itself. -/
theorem stringPoints_plain {c : Char} (hquote : c ≠ '"') (hslash : c ≠ '\\')
    (hcontrol : 0x20 ≤ c.toNat) (seen : List CodePoint) (rest : Text) :
    stringPoints seen (c :: rest) = stringPoints (.char c :: seen) rest := by
  have hnot : ¬ (decide (c = '\\') || decide (c.toNat < 0x20)) = true := by
    simp only [Bool.or_eq_true, decide_eq_true_eq, not_or]
    exact ⟨hslash, by omega⟩
  conv => lhs; unfold stringPoints
  split
  · next heq => exact nomatch heq
  · next heq => exact absurd (List.cons.inj heq).1 hquote
  · next heq => exact absurd (List.cons.inj heq).1 hslash
  · next heq => exact absurd (List.cons.inj heq).1 hslash
  · next heq =>
      obtain ⟨rfl, rfl⟩ := List.cons.inj heq
      rw [if_neg hnot]

theorem stringPoints_escapeChar (c : Char) (seen : List CodePoint) (rest : Text) :
    stringPoints seen (escapeChar c ++ rest) =
      stringPoints ((CodePoint.units (.char c)).reverse ++ seen) rest := by
  have hunits (h : c.toNat < 0x10000) : CodePoint.units (.char c) = [.char c] := by
    rw [CodePoint.units, if_pos h]
  unfold escapeChar
  split_ifs with hquote hslash hn hr ht hf hb hplain hbasic
  · subst hquote; rfl
  · subst hslash; rfl
  · subst hn; rfl
  · subst hr; rfl
  · subst ht; rfl
  · subst hf; rfl
  · subst hb; rfl
  · simp only [Bool.and_eq_true, decide_eq_true_eq] at hplain
    rw [hunits (by omega)]
    exact stringPoints_plain hquote hslash hplain.1 seen rest
  · rw [hunits hbasic, stringPoints_unitEscape hbasic, CodePoint.ofNat_toNat_char]
    rfl
  · have hlt := CodePoint.toNat_lt c
    rw [List.append_assoc, stringPoints_unitEscape (by omega), stringPoints_unitEscape (by omega),
      CodePoint.units, if_neg hbasic]
    rfl

theorem stringPoints_escapePoint (p : CodePoint) (seen : List CodePoint) (rest : Text) :
    stringPoints seen (escapePoint p ++ rest) = stringPoints (p.units.reverse ++ seen) rest := by
  cases p with
  | char c => exact stringPoints_escapeChar c seen rest
  | surrogate i =>
      have hlt : 0xD800 + i.val < 0x10000 := by omega
      have h := stringPoints_unitEscape hlt seen rest
      rw [CodePoint.ofNat_surrogate] at h
      exact h

theorem stringPoints_points (ps seen : List CodePoint) (rest : Text) :
    stringPoints seen (ps.flatMap escapePoint ++ '"' :: rest) =
      .ok (seen.reverse ++ ps.flatMap CodePoint.units, rest) := by
  induction ps generalizing seen with
  | nil => simp [stringPoints]
  | cons p ps ih =>
      rw [List.flatMap_cons, List.append_assoc, stringPoints_escapePoint, ih]
      simp

/-- Every string reads back; its opening quote has been read. -/
theorem string?_stringText (s : JsonString) (rest : Text) :
    string? (s.points.flatMap escapePoint ++ '"' :: rest) = .ok (s, rest) := by
  have hpoints : JsonString.ofPoints (s.points.flatMap CodePoint.units) = s := by
    obtain ⟨ps, hps⟩ := s
    simp only [JsonString.ofPoints, CodePoint.join_units hps]
  rw [string?, stringPoints_points, List.reverse_nil, List.nil_append]
  simp only [hpoints]

end Json

end TagFormula
