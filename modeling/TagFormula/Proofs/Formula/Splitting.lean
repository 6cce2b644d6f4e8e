import TagFormula.Proofs.Formula.Scanning

/-!
# Scanning a text in parts

The tokens of an append are the tokens of its parts, unless a number runs across the
joint. A number consists of digits and points alone, so it is enough that the
characters on the two sides of the joint are not both of this kind (`Parted`). The
parts may otherwise be what they like, and need not be formulas.

As offsets play no part here, tokens are taken from a text that starts at zero.
-/

namespace TagFormula

namespace Token

/-- The tokens of a text. -/
def tokens (t : Text) : List Token :=
  tokensFrom 0 t

/-- A character that numbers are written with. -/
def IsNumeric (c : Char) : Prop :=
  Text.isDigit c = true ∨ c = '.'

/-- No number runs from the end of a text into another one. -/
def Parted (u v : Text) : Prop :=
  ∀ l c d r, u = l ++ [c] → v = d :: r → ¬ (IsNumeric c ∧ IsNumeric d)

theorem parted_nil_left (v : Text) : Parted [] v := by
  intro l c d r hu
  simp at hu

theorem parted_nil_right (u : Text) : Parted u [] :=
  fun _ _ _ _ _ hv => nomatch hv

theorem parted_of_head {d : Char} (hd : ¬ IsNumeric d) (u r : Text) : Parted u (d :: r) := by
  intro l c d' r' _ hv hboth
  rw [← (List.cons.inj hv).1] at hboth
  exact hd hboth.2

theorem parted_of_last {c : Char} (hc : ¬ IsNumeric c) (l v : Text) : Parted (l ++ [c]) v := by
  intro l' c' d r hu _ hboth
  rw [← (List.append_singleton_inj.1 hu).2] at hboth
  exact hc hboth.1

theorem Parted.of_append {a u v : Text} (h : Parted (a ++ u) v) : Parted u v := by
  rintro l c d r rfl hv
  exact h (a ++ l) c d r (List.append_assoc ..).symm hv

/-! ## Numbers at a joint -/

theorem isNumeric_of_mem {t : Text} (h : Numeral t) {c : Char} (hc : c ∈ t) : IsNumeric c := by
  cases h with
  | whole hw hne => exact .inl (hw c hc)
  | pointed hw hne hf =>
      rcases List.mem_append.1 hc with hc | hc
      · exact .inl (hw c hc)
      · rcases List.mem_cons.1 hc with rfl | hc
        · exact .inr rfl
        · exact .inl (hf c hc)
  | fraction hf hne =>
      rcases List.mem_cons.1 hc with rfl | hc
      · exact .inr rfl
      · exact .inl (hf c hc)

/-- Where no number runs across the joint, a number at the start of an append lies in the first
part. -/
theorem exists_append_of_numeral {u v n rest : Text} (h : Parted u v) (hu : u ≠ [])
    (hn : Numeral n) (heq : u ++ v = n ++ rest) : ∃ u', u = n ++ u' := by
  rcases List.append_eq_append_iff.1 heq with ⟨m, rfl, rfl⟩ | ⟨m, rfl, -⟩
  · cases m with
    | nil => exact ⟨[], by simp⟩
    | cons d m =>
        have hc : IsNumeric (u.getLast hu) :=
          isNumeric_of_mem hn (List.mem_append_left _ (List.getLast_mem hu))
        have hd : IsNumeric d := isNumeric_of_mem hn (by simp)
        have hlast := (List.dropLast_concat_getLast hu).symm
        exact absurd ⟨hc, hd⟩ (h u.dropLast (u.getLast hu) d (m ++ rest) hlast rfl)
  · exact ⟨m, rfl⟩

theorem numberPart_append {u v : Text} (h : Parted u v) (hu : u ≠ []) :
    numberPart (u ++ v) = numberPart u := by
  obtain ⟨rest, hrest⟩ := numberPart_prefix (u ++ v)
  obtain ⟨rest', hrest'⟩ := numberPart_prefix u
  by_cases hpart : numberPart (u ++ v) = []
  · -- A number in the first part would also be found in the whole.
    refine hpart.trans (Classical.byContradiction fun hne => ?_)
    have hnumeral := numeral_numberPart (Ne.symm hne)
    have hle := length_le_numberPart (v := rest' ++ v) hnumeral
    rw [← List.append_assoc, ← hrest', hpart, List.length_nil, Nat.le_zero] at hle
    exact hnumeral.ne_nil (List.length_eq_zero_iff.1 hle)
  · have hnumeral := numeral_numberPart hpart
    obtain ⟨u', hu'⟩ := exists_append_of_numeral h hu hnumeral hrest
    have hle : (numberPart (u ++ v)).length ≤ (numberPart u).length := by
      have hle := length_le_numberPart (v := u') hnumeral
      rwa [← hu'] at hle
    have hne : numberPart u ≠ [] := by
      have hpos := List.length_pos_iff.2 hpart
      exact List.length_pos_iff.1 (by omega)
    have hge : (numberPart u).length ≤ (numberPart (u ++ v)).length := by
      have hge := length_le_numberPart (v := rest' ++ v) (numeral_numberPart hne)
      rwa [← List.append_assoc, ← hrest'] at hge
    have heq : numberPart (u ++ v) ++ u' = numberPart u ++ rest' := by rw [← hu', ← hrest']
    exact List.append_inj_left heq (by omega)

/-! ## Tokens -/

/-- The offset at which a text starts does not matter to its tokens. -/
theorem tokensFrom_eq (p : Nat) (t : Text) : tokensFrom p t = tokens t := by
  suffices h : ∀ q, tokensFrom p t = tokensFrom q t from h 0
  fun_induction scanFrom p t with
  | case1 p => intro q; simp [tokensFrom]
  | case2 p c rest hspace ih =>
      intro q
      rw [tokensFrom_space hspace, tokensFrom_space hspace, ih (q + 1)]
  | case3 p c rest hspace hpart ih =>
      intro q
      have hspace' := Bool.eq_false_iff.2 hspace
      rw [tokensFrom_symbol hspace' hpart, tokensFrom_symbol hspace' hpart, ih (q + 1)]
  | case4 p c rest hspace d ds hpart ih =>
      intro q
      have hspace' := Bool.eq_false_iff.2 hspace
      obtain ⟨tail, htail⟩ := numberPart_prefix (c :: rest)
      rw [hpart, List.cons_append] at htail
      obtain ⟨rfl, rfl⟩ := List.cons.inj htail
      rw [List.drop_left] at ih
      rw [tokensFrom_number hspace' hpart, tokensFrom_number hspace' hpart, ih (q + ds.length + 1)]

@[simp] theorem tokens_nil : tokens [] = [] := by
  simp [tokens, tokensFrom]

theorem tokens_space {c : Char} (hc : isSpace c = true) (t : Text) :
    tokens (c :: t) = tokens t := by
  rw [tokens, tokensFrom_space hc, tokensFrom_eq]

theorem tokens_symbol {c : Char} {t : Text} (hspace : isSpace c = false)
    (hpart : numberPart (c :: t) = []) : tokens (c :: t) = ofChar c :: tokens t := by
  rw [tokens, tokensFrom_symbol hspace hpart, tokensFrom_eq]

theorem tokens_number {c : Char} {t rest : Text} (hspace : isSpace c = false)
    (hpart : numberPart (c :: (t ++ rest)) = c :: t) :
    tokens (c :: (t ++ rest)) = number (c :: t) :: tokens rest := by
  rw [tokens, tokensFrom_number hspace hpart, tokensFrom_eq]

/-- The tokens of the parts of a text, one part after the other. -/
theorem tokens_append {u v : Text} (h : Parted u v) : tokens (u ++ v) = tokens u ++ tokens v := by
  suffices hfrom : ∀ p : Nat, tokens (u ++ v) = tokensFrom p u ++ tokens v from hfrom 0
  intro p
  fun_induction scanFrom p u with
  | case1 p => simp [tokensFrom]
  | case2 p c rest hspace ih =>
      rw [List.cons_append, tokens_space hspace, tokensFrom_space hspace]
      exact ih (h.of_append (a := [c]))
  | case3 p c rest hspace hpart ih =>
      have hspace' := Bool.eq_false_iff.2 hspace
      have hwhole := numberPart_append h (by simp)
      rw [hpart, List.cons_append] at hwhole
      rw [List.cons_append, tokens_symbol hspace' hwhole, tokensFrom_symbol hspace' hpart,
        List.cons_append]
      exact congrArg _ (ih (h.of_append (a := [c])))
  | case4 p c rest hspace d ds hpart ih =>
      have hspace' := Bool.eq_false_iff.2 hspace
      have hwhole := numberPart_append h (by simp)
      obtain ⟨tail, htail⟩ := numberPart_prefix (c :: rest)
      rw [hpart, List.cons_append] at htail
      obtain ⟨rfl, rfl⟩ := List.cons.inj htail
      rw [hpart, List.cons_append, List.append_assoc] at hwhole
      rw [List.drop_left] at ih
      rw [List.cons_append, List.append_assoc, tokens_number hspace' hwhole,
        tokensFrom_number hspace' hpart, List.cons_append]
      exact congrArg _ (ih (h.of_append (a := c :: ds)))

/-! ## Single tokens -/

/-- A number by itself is one token. -/
theorem lexes_of_numeral {t : Text} (h : Numeral t) : Lexes t [number t] := by
  have hlongest : LongestNumeral t [] := by
    refine ⟨h, fun u v huv _ => ?_⟩
    rw [← List.append_nil t, huv, List.length_append]
    exact Nat.le_add_right _ _
  have hlexes : Lexes (t ++ []) [number t] := .number hlongest .nil
  rwa [List.append_nil] at hlexes

theorem tokens_of_numeral {t : Text} (h : Numeral t) : tokens t = [number t] :=
  (lexes_of_numeral h).tokensFrom_eq 0

/-- A character that is neither left out nor part of a number is a token, whatever follows. -/
theorem tokens_cons {c : Char} (hspace : isSpace c = false) (hc : ¬ IsNumeric c) (t : Text) :
    tokens (c :: t) = ofChar c :: tokens t := by
  have hdigit : Text.isDigit c = false := Bool.eq_false_iff.2 fun h => hc (.inl h)
  exact tokens_symbol hspace (numberPart_eq_nil hdigit (fun h => hc (.inr h)) t)

theorem tokens_spaces (n : Nat) : tokens (List.replicate n ' ') = [] := by
  induction n with
  | zero => exact tokens_nil
  | succ n ih => rw [List.replicate_succ, tokens_space (by decide), ih]

end Token

end TagFormula
