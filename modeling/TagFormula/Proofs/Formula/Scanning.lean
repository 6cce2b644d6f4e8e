import TagFormula.Proofs.Formula.Grammar

/-!
# What a scan finds

`Token.numberPart` is the longest number at the start of a text, and empty only where
there is none. Hence a text divides into tokens in at most one way: if it does, a scan
finds these tokens (`Lexes.tokensFrom_eq`), and if a scan meets no character that begins no
token, then what it finds is such a division (`lexes_tokensFrom`). The offsets that a scan
notes down play no part.
-/

namespace TagFormula

theorem isDigit_point : Text.isDigit '.' = false := by decide

theorem Digits.takeWhile_append {t : Text} (h : Digits t) (rest : Text) :
    (t ++ rest).takeWhile Text.isDigit = t ++ rest.takeWhile Text.isDigit :=
  List.takeWhile_append_of_pos h

theorem digits_takeWhile (t : Text) : Digits (t.takeWhile Text.isDigit) := by
  intro c hc
  exact List.all_eq_true.1 List.all_takeWhile c hc

/-- A run of digits ends at a point. -/
theorem Digits.takeWhile_point {t : Text} (h : Digits t) (rest : Text) :
    (t ++ '.' :: rest).takeWhile Text.isDigit = t := by
  rw [h.takeWhile_append, List.takeWhile_cons_of_neg (by simp [isDigit_point]), List.append_nil]

theorem Digits.dropWhile_point {t : Text} (h : Digits t) (rest : Text) :
    (t ++ '.' :: rest).dropWhile Text.isDigit = '.' :: rest := by
  rw [List.dropWhile_append_of_pos h, List.dropWhile_cons_of_neg (by simp [isDigit_point])]

namespace Numeral

theorem ne_nil {t : Text} (h : Numeral t) : t ≠ [] := by
  cases h with
  | whole hw hne => exact hne
  | pointed hw hne hf => simp
  | fraction hf hne => simp

/-- A number starts with a digit or a point. -/
theorem head_eq {t : Text} (h : Numeral t) :
    ∃ c rest, t = c :: rest ∧ (Text.isDigit c = true ∨ c = '.') := by
  cases h with
  | whole hw hne =>
      obtain ⟨c, rest, rfl⟩ := List.exists_cons_of_ne_nil hne
      exact ⟨c, rest, rfl, .inl (hw c (List.mem_cons_self ..))⟩
  | pointed hw hne hf =>
      obtain ⟨c, rest, rfl⟩ := List.exists_cons_of_ne_nil hne
      exact ⟨c, _, rfl, .inl (hw c (List.mem_cons_self ..))⟩
  | fraction hf hne => exact ⟨'.', _, rfl, .inr rfl⟩

end Numeral

namespace Token

/-- The number at the start of a text, where the digits at the start end at a point. -/
theorem numberPart_point {whole : Text} (hw : Digits whole) (rest : Text) :
    numberPart (whole ++ '.' :: rest) =
      if whole.isEmpty && (rest.takeWhile Text.isDigit).isEmpty then []
      else whole ++ '.' :: rest.takeWhile Text.isDigit := by
  rw [numberPart, hw.dropWhile_point, hw.takeWhile_point]
  rfl

/-- Where the digits at the start of a text do not end at a point they are the number. -/
theorem numberPart_of_no_point {t : Text} (h : ∀ rest, t.dropWhile Text.isDigit ≠ '.' :: rest) :
    numberPart t = t.takeWhile Text.isDigit := by
  unfold numberPart
  split
  · next rest heq => exact absurd heq (h rest)
  · rfl

/-- The digits at the start of a text end at a point, or they are the number. -/
theorem exists_point_or_numberPart_eq (t : Text) :
    (∃ whole rest, Digits whole ∧ t = whole ++ '.' :: rest) ∨
      numberPart t = t.takeWhile Text.isDigit := by
  by_cases h : ∃ rest, t.dropWhile Text.isDigit = '.' :: rest
  · obtain ⟨rest, hrest⟩ := h
    refine .inl ⟨_, rest, digits_takeWhile t, ?_⟩
    rw [← hrest, List.takeWhile_append_dropWhile]
  · exact .inr (numberPart_of_no_point fun rest heq => h ⟨rest, heq⟩)

theorem numberPart_prefix (t : Text) : ∃ rest, t = numberPart t ++ rest := by
  rcases exists_point_or_numberPart_eq t with ⟨whole, rest, hw, rfl⟩ | heq
  · rw [numberPart_point hw]
    split
    · exact ⟨_, rfl⟩
    · refine ⟨rest.dropWhile Text.isDigit, ?_⟩
      rw [List.append_assoc, List.cons_append, List.takeWhile_append_dropWhile]
  · refine ⟨t.dropWhile Text.isDigit, ?_⟩
    rw [heq, List.takeWhile_append_dropWhile]

theorem numeral_numberPart {t : Text} (h : numberPart t ≠ []) : Numeral (numberPart t) := by
  rcases exists_point_or_numberPart_eq t with ⟨whole, rest, hw, rfl⟩ | heq
  · rw [numberPart_point hw] at h ⊢
    have hfraction := digits_takeWhile rest
    split at h
    · exact absurd rfl h
    · next hne =>
        rw [if_neg hne]
        cases whole with
        | cons c whole => exact .pointed hw (by simp) hfraction
        | nil => exact .fraction hfraction (by simpa using hne)
  · rw [heq] at h ⊢
    exact .whole (digits_takeWhile t) h

/-- No number at the start of a text is longer than the one that is found. -/
theorem length_le_numberPart {u v : Text} (h : Numeral u) :
    u.length ≤ (numberPart (u ++ v)).length := by
  cases h with
  | whole hw hne =>
      rcases exists_point_or_numberPart_eq (u ++ v) with ⟨whole, rest, hw', heq⟩ | heq
      · have hrun : u ++ v.takeWhile Text.isDigit = whole := by
          rw [← hw.takeWhile_append, heq, hw'.takeWhile_point]
        have hne' : ¬ (whole.isEmpty && (rest.takeWhile Text.isDigit).isEmpty) = true := by
          rw [← hrun]
          simp [hne]
        rw [heq, numberPart_point hw', if_neg hne', ← hrun]
        simp only [List.length_append]
        omega
      · rw [heq, hw.takeWhile_append, List.length_append]
        omega
  | @pointed whole fraction hw hne hf =>
      have hne' : ¬ (whole.isEmpty && ((fraction ++ v).takeWhile Text.isDigit).isEmpty) = true := by
        simp [hne]
      rw [List.append_assoc, List.cons_append, numberPart_point hw, if_neg hne',
        hf.takeWhile_append]
      simp only [List.length_append, List.length_cons]
      omega
  | @fraction fraction hf hne =>
      have hw : Digits [] := by simp [Digits]
      have hpart := numberPart_point hw (fraction ++ v)
      rw [hf.takeWhile_append, if_neg (by simp [hne])] at hpart
      rw [List.cons_append, ← List.nil_append ('.' :: (fraction ++ v)), hpart]
      simp only [List.nil_append, List.length_append, List.length_cons]
      omega

theorem numberPart_eq_nil {c : Char} (hdigit : Text.isDigit c = false) (hpoint : c ≠ '.')
    (t : Text) : numberPart (c :: t) = [] := by
  refine Classical.byContradiction fun hne => ?_
  obtain ⟨rest, hrest⟩ := numberPart_prefix (c :: t)
  obtain ⟨d, ds, hd, hhead⟩ := (numeral_numberPart hne).head_eq
  rw [hd, List.cons_append] at hrest
  rw [← (List.cons.inj hrest).1] at hhead
  rcases hhead with h | h
  · rw [hdigit] at h
    exact absurd h (by simp)
  · exact hpoint h

theorem longestNumeral_numberPart {t rest : Text} (hne : numberPart t ≠ [])
    (hrest : t = numberPart t ++ rest) : LongestNumeral (numberPart t) rest := by
  refine ⟨numeral_numberPart hne, fun u v huv hu => ?_⟩
  rw [← hrest] at huv
  have hle := length_le_numberPart (v := v) hu
  rwa [← huv] at hle

/-- The longest number at the start of a text is the one that is found. -/
theorem numberPart_of_longest {t rest : Text} (h : LongestNumeral t rest) :
    numberPart (t ++ rest) = t := by
  obtain ⟨rest', hrest⟩ := numberPart_prefix (t ++ rest)
  have hge := length_le_numberPart (v := rest) h.1
  have hpos := List.length_pos_iff.2 h.1.ne_nil
  have hne : numberPart (t ++ rest) ≠ [] := List.length_pos_iff.1 (by omega)
  have hle := h.2 _ _ hrest (numeral_numberPart hne)
  exact (List.append_inj_left hrest (by omega)).symm

/-! ## Characters that stand alone -/

theorem isSpace_iff {c : Char} : isSpace c = true ↔ c = ' ' ∨ c = '\t' := by
  simp [isSpace]

/-- A character that a number can start with is not left out. -/
theorem isSpace_eq_false {c : Char} (h : Text.isDigit c = true ∨ c = '.') :
    isSpace c = false := by
  refine Bool.eq_false_iff.2 fun hspace => ?_
  rcases isSpace_iff.1 hspace with rfl | rfl <;> revert h <;> decide

theorem of_mem_symbols {c : Char} {token : Token} (h : (c, token) ∈ symbols) :
    isSpace c = false ∧ Text.isDigit c = false ∧ c ≠ '.' ∧ ofChar c = token := by
  have hall : ∀ s ∈ symbols, isSpace s.1 = false ∧ Text.isDigit s.1 = false ∧ s.1 ≠ '.' ∧
      ofChar s.1 = s.2 := by decide
  exact hall _ h

theorem ofChar_mem_symbols_or_foreign (c : Char) :
    (c, ofChar c) ∈ symbols ∨ ofChar c = foreign c := by
  unfold ofChar
  split <;> simp [symbols]

/-! ## Scans -/

/-- The tokens of a text without their offsets. -/
def tokensFrom (p : Nat) (t : Text) : List Token :=
  (scanFrom p t).map (·.token)

theorem tokensFrom_space {c : Char} (hc : isSpace c = true) (p : Nat) (t : Text) :
    tokensFrom p (c :: t) = tokensFrom (p + 1) t := by
  rw [tokensFrom, scanFrom, if_pos hc, tokensFrom]

theorem tokensFrom_symbol {c : Char} {t : Text} (hspace : isSpace c = false)
    (hpart : numberPart (c :: t) = []) (p : Nat) :
    tokensFrom p (c :: t) = ofChar c :: tokensFrom (p + 1) t := by
  rw [tokensFrom, scanFrom, if_neg (by simp [hspace]), hpart]
  rfl

theorem tokensFrom_number {c : Char} {t rest : Text} (hspace : isSpace c = false)
    (hpart : numberPart (c :: (t ++ rest)) = c :: t) (p : Nat) :
    tokensFrom p (c :: (t ++ rest)) = number (c :: t) :: tokensFrom (p + t.length + 1) rest := by
  rw [tokensFrom, scanFrom, if_neg (by simp [hspace]), hpart]
  simp only [List.drop_left, List.map_cons, tokensFrom]

end Token

open Token

/-- A text that divides into tokens is scanned as these tokens. -/
theorem Lexes.tokensFrom_eq {t : Text} {ts : List Token} (h : Lexes t ts) (p : Nat) :
    tokensFrom p t = ts := by
  induction h generalizing p with
  | nil => simp [tokensFrom]
  | space hc h ih => rw [tokensFrom_space (isSpace_iff.2 hc), ih]
  | symbol hc h ih =>
      obtain ⟨hspace, hdigit, hpoint, hof⟩ := of_mem_symbols hc
      rw [tokensFrom_symbol hspace (numberPart_eq_nil hdigit hpoint _), hof, ih]
  | @number t rest ts ht h ih =>
      have hpart := numberPart_of_longest ht
      obtain ⟨c, cs, rfl, hhead⟩ := ht.1.head_eq
      rw [List.cons_append] at hpart ⊢
      rw [tokensFrom_number (isSpace_eq_false hhead) hpart, ih]

/-- What a scan finds divides the text into tokens, unless a character begins none. -/
theorem lexes_tokensFrom {t : Text} {p : Nat} (h : ∀ c, foreign c ∉ tokensFrom p t) :
    Lexes t (tokensFrom p t) := by
  fun_induction scanFrom p t with
  | case1 p => simpa [tokensFrom] using Lexes.nil
  | case2 p c rest hspace ih =>
      rw [tokensFrom_space hspace] at h ⊢
      exact .space (isSpace_iff.1 hspace) (ih h)
  | case3 p c rest hspace hpart ih =>
      rw [tokensFrom_symbol (Bool.eq_false_iff.2 hspace) hpart] at h ⊢
      rcases ofChar_mem_symbols_or_foreign c with hmem | hforeign
      · exact .symbol hmem (ih fun x hx => h x (List.mem_cons_of_mem _ hx))
      · exact absurd (hforeign ▸ List.mem_cons_self ..) (h c)
  | case4 p c rest hspace d ds hpart ih =>
      obtain ⟨tail, htail⟩ := numberPart_prefix (c :: rest)
      have hlongest := longestNumeral_numberPart (by rw [hpart]; simp) htail
      rw [hpart, List.cons_append] at htail
      obtain ⟨rfl, rfl⟩ := List.cons.inj htail
      rw [tokensFrom_number (Bool.eq_false_iff.2 hspace) hpart] at h ⊢
      rw [List.drop_left] at ih
      rw [hpart] at hlongest
      exact .number hlongest (ih fun x hx => h x (List.mem_cons_of_mem _ hx))

end TagFormula
