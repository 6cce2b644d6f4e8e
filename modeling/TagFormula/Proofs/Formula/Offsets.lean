import TagFormula.Proofs.Formula.Splitting

/-!
# Tokens and where they start

`LexesFrom p t ps` says how a text divides into tokens when nothing is left out: each
token comes with the offset at which it starts, and a character that begins no token is
kept in its place. Every text divides in exactly one way, which is what a scan finds
(`lexesFrom_iff`), so a fault can be reported at a place that is one of the text and not of
the scanner.
-/

namespace TagFormula

open Token

/-- No token begins with this character where the rest of the text follows it. -/
structure BeginsNoToken (c : Char) (rest : Text) : Prop where
  not_space : c ≠ ' ' ∧ c ≠ '\t'
  not_symbol : ∀ token, (c, token) ∉ symbols
  not_numeral : ∀ n v, c :: rest = n ++ v → ¬ Numeral n

/-- A text whose first character is at the offset `p` divides into tokens and characters that
begin none, each with the offset at which it starts. -/
inductive LexesFrom : Nat → Text → List Positioned → Prop
  | nil (p : Nat) : LexesFrom p [] []
  | space {p : Nat} {c : Char} {t : Text} {ps : List Positioned} (hc : c = ' ' ∨ c = '\t')
      (h : LexesFrom (p + 1) t ps) : LexesFrom p (c :: t) ps
  | symbol {p : Nat} {c : Char} {token : Token} {t : Text} {ps : List Positioned}
      (hc : (c, token) ∈ symbols) (h : LexesFrom (p + 1) t ps) :
      LexesFrom p (c :: t) (⟨p, token⟩ :: ps)
  | number {p : Nat} {n rest : Text} {ps : List Positioned} (hn : LongestNumeral n rest)
      (h : LexesFrom (p + n.length) rest ps) : LexesFrom p (n ++ rest) (⟨p, .number n⟩ :: ps)
  | foreign {p : Nat} {c : Char} {t : Text} {ps : List Positioned} (hc : BeginsNoToken c t)
      (h : LexesFrom (p + 1) t ps) : LexesFrom p (c :: t) (⟨p, .foreign c⟩ :: ps)

/-! ## Scans keep the offsets -/

namespace Token

theorem scanFrom_space {c : Char} (hc : isSpace c = true) (p : Nat) (t : Text) :
    scanFrom p (c :: t) = scanFrom (p + 1) t := by
  rw [scanFrom, if_pos hc]

theorem scanFrom_symbol {c : Char} {t : Text} (hspace : isSpace c = false)
    (hpart : numberPart (c :: t) = []) (p : Nat) :
    scanFrom p (c :: t) = ⟨p, ofChar c⟩ :: scanFrom (p + 1) t := by
  rw [scanFrom, if_neg (by simp [hspace]), hpart]

theorem scanFrom_number {n rest : Text} (hn : Numeral n) (hpart : numberPart (n ++ rest) = n)
    (p : Nat) : scanFrom p (n ++ rest) = ⟨p, number n⟩ :: scanFrom (p + n.length) rest := by
  obtain ⟨c, cs, rfl, hhead⟩ := hn.head_eq
  rw [List.cons_append] at hpart ⊢
  rw [scanFrom, if_neg (by simp [isSpace_eq_false hhead]), hpart]
  simp only [List.drop_left, List.length_cons, Nat.add_assoc]

theorem ofChar_of_not_mem_symbols {c : Char} (h : ∀ token, (c, token) ∉ symbols) :
    ofChar c = foreign c :=
  (ofChar_mem_symbols_or_foreign c).resolve_left (h _)

theorem not_mem_symbols_of_foreign {c : Char} (h : ofChar c = foreign c) (token : Token) :
    (c, token) ∉ symbols := by
  intro hmem
  have hof := (of_mem_symbols hmem).2.2.2
  rw [h] at hof
  simp [symbols, ← hof] at hmem

/-- Where a scan finds no number, there is none. -/
theorem not_numeral_of_numberPart {t n v : Text} (hpart : numberPart t = []) (heq : t = n ++ v) :
    ¬ Numeral n := by
  intro hn
  have hle := length_le_numberPart (v := v) hn
  rw [← heq, hpart, List.length_nil, Nat.le_zero] at hle
  exact hn.ne_nil (List.length_eq_zero_iff.1 hle)

end Token

theorem BeginsNoToken.numberPart_eq {c : Char} {rest : Text} (h : BeginsNoToken c rest) :
    numberPart (c :: rest) = [] := by
  refine Classical.byContradiction fun hne => ?_
  obtain ⟨v, hv⟩ := numberPart_prefix (c :: rest)
  exact h.not_numeral _ v hv (numeral_numberPart hne)

theorem LexesFrom.scanFrom_eq {p : Nat} {t : Text} {ps : List Positioned} (h : LexesFrom p t ps) :
    scanFrom p t = ps := by
  induction h with
  | nil p => exact scanFrom_nil p
  | space hc h ih => rw [scanFrom_space (isSpace_iff.2 hc), ih]
  | symbol hc h ih =>
      obtain ⟨hspace, hdigit, hpoint, hof⟩ := of_mem_symbols hc
      rw [scanFrom_symbol hspace (numberPart_eq_nil hdigit hpoint _), hof, ih]
  | number hn h ih => rw [scanFrom_number hn.1 (numberPart_of_longest hn), ih]
  | @foreign p c t ps hc h ih =>
      have hspace : isSpace c = false :=
        Bool.eq_false_iff.2 fun hspace => (isSpace_iff.1 hspace).elim hc.not_space.1 hc.not_space.2
      rw [scanFrom_symbol hspace hc.numberPart_eq, ofChar_of_not_mem_symbols hc.not_symbol, ih]

theorem lexesFrom_scanFrom (p : Nat) (t : Text) : LexesFrom p t (scanFrom p t) := by
  fun_induction scanFrom p t with
  | case1 p => exact .nil p
  | case2 p c rest hspace ih => exact .space (isSpace_iff.1 hspace) ih
  | case3 p c rest hspace hpart ih =>
      rcases ofChar_mem_symbols_or_foreign c with hmem | hforeign
      · exact .symbol hmem ih
      · have hc : ¬ (c = ' ' ∨ c = '\t') := fun h => hspace (isSpace_iff.2 h)
        rw [hforeign]
        exact .foreign {
          not_space := not_or.1 hc
          not_symbol := not_mem_symbols_of_foreign hforeign
          not_numeral := fun _ _ heq => not_numeral_of_numberPart hpart heq } ih
  | case4 p c rest hspace d ds hpart ih =>
      obtain ⟨tail, htail⟩ := numberPart_prefix (c :: rest)
      have hlongest := longestNumeral_numberPart (by rw [hpart]; simp) htail
      rw [hpart] at hlongest
      rw [hpart, List.cons_append] at htail
      obtain ⟨rfl, rfl⟩ := List.cons.inj htail
      rw [List.drop_left] at ih ⊢
      exact .number hlongest ih

/-- A text divides in exactly one way. -/
theorem lexesFrom_iff {p : Nat} {t : Text} {ps : List Positioned} :
    LexesFrom p t ps ↔ scanFrom p t = ps :=
  ⟨LexesFrom.scanFrom_eq, fun h => h ▸ lexesFrom_scanFrom p t⟩

end TagFormula
