import Mathlib.Tactic.SplitIfs
import TagFormula.Text.Blank
import TagFormula.Text.Lines
import TagFormula.Text.Utf8

/-!
# Bytes and lines behind a line feed

A line feed separates: the bytes behind it are read as if nothing stood in front of them,
whatever that is, and they are split into lines on their own. In UTF-8 no line feed
belongs to another character, so an unfinished character in front of it is given up
(`utf8Decode_lineFeed`), and of the boundaries of lines only the carriage return looks at
what follows, which is the line feed itself (`lines_lineFeed`).
-/

namespace TagFormula.Text

/-! ## UTF-8 -/

theorem low_of_lead? {b : Nat} {l : Lead} (h : lead? b = some l) : 0x80 ≤ l.low := by
  unfold lead? at h
  split_ifs at h <;> simp only [Option.some.injEq] at h <;> subst h <;> simp

/-- Behind a line feed reading starts anew. -/
theorem utf8DecodeFrom_lineFeed (xs : List UInt8) (owed bits low high : Nat)
    (hlow : 0 < owed → 0x80 ≤ low) :
    ∃ t, ∀ ys, utf8DecodeFrom owed bits low high (xs ++ 10 :: ys) = t ++ '\n' :: utf8Decode ys := by
  induction xs generalizing owed bits low high with
  | nil =>
      refine ⟨if owed = 0 then [] else ['\uFFFD'], fun ys => ?_⟩
      have hnot : ¬ (0 < owed ∧ low ≤ (10 : UInt8).toNat ∧ (10 : UInt8).toNat ≤ high) := by
        rintro ⟨hpos, hle, -⟩
        have hten : (10 : UInt8).toNat = 10 := rfl
        have := hlow hpos
        omega
      rw [List.nil_append, utf8DecodeFrom, if_neg hnot]
      rfl
  | cons b xs ih =>
      obtain ⟨t, ht⟩ := ih 0 0 0 0 fun h => absurd h (Nat.lt_irrefl 0)
      simp only [List.cons_append, utf8DecodeFrom]
      by_cases hmore : 0 < owed ∧ low ≤ b.toNat ∧ b.toNat ≤ high
      · simp only [if_pos hmore]
        by_cases hlast : owed = 1
        · simp only [if_pos hlast, ht]
          exact ⟨_ :: t, fun ys => rfl⟩
        · simp only [if_neg hlast]
          exact ih _ _ _ _ fun _ => Nat.le_refl _
      · simp only [if_neg hmore]
        by_cases hascii : b.toNat < 0x80
        · simp only [if_pos hascii, ht]
          exact ⟨(if owed = 0 then [] else ['\uFFFD']) ++ Char.ofNat b.toNat :: t,
            fun ys => (List.append_assoc _ (_ :: t) _).symm⟩
        · simp only [if_neg hascii]
          cases hlead : lead? b.toNat with
          | none =>
              simp only [ht]
              exact ⟨(if owed = 0 then [] else ['\uFFFD']) ++ '\uFFFD' :: t,
                fun ys => (List.append_assoc _ (_ :: t) _).symm⟩
          | some l =>
              obtain ⟨u, hu⟩ := ih l.following l.bits l.low l.high
                fun _ => low_of_lead? hlead
              simp only [hu]
              exact ⟨_ ++ u, fun ys => (List.append_assoc ..).symm⟩

theorem utf8Decode_lineFeed (xs : List UInt8) :
    ∃ t, ∀ ys, utf8Decode (xs ++ 10 :: ys) = t ++ '\n' :: utf8Decode ys :=
  utf8DecodeFrom_lineFeed xs 0 0 0 0 nofun

theorem utf8EncodeChar_ascii {c : Char} (h : c.toNat < 0x80) :
    String.utf8EncodeChar c = [UInt8.ofNat c.toNat] := by
  have hle : c.val.toNat ≤ 0x7F := Nat.le_of_lt_succ h
  rw [String.utf8EncodeChar.eq_1, if_pos hle]
  rfl

/-- ASCII text is read as it was written. -/
theorem utf8Decode_utf8Encode_ascii {t : Text} (h : ∀ c ∈ t, c.toNat < 0x80) (rest : List UInt8) :
    utf8Decode (utf8Encode t ++ rest) = t ++ utf8Decode rest := by
  induction t with
  | nil => rfl
  | cons c t ih =>
      obtain ⟨hc, ht⟩ := List.forall_mem_cons.1 h
      have hbyte : (UInt8.ofNat c.toNat).toNat = c.toNat := by
        rw [UInt8.toNat_ofNat']
        omega
      have hencode : utf8Encode (c :: t) = UInt8.ofNat c.toNat :: utf8Encode t := by
        rw [utf8Encode, List.flatMap_cons, utf8EncodeChar_ascii hc]
        rfl
      rw [hencode, List.cons_append, utf8Decode_cons_ascii (by rwa [hbyte]), hbyte,
        Char.ofNat_toNat, ih ht, List.cons_append]

/-! ## Lines -/

theorem linesAfter_of_endsLine {c : Char} (hc : endsLine c = true) (line : Text) {rest : Text}
    (h : c = '\r' → rest.head? ≠ some '\n') :
    linesAfter line (c :: rest) = line.reverse :: linesAfter [] rest := by
  conv => lhs; unfold linesAfter
  split
  · next heq => exact nomatch heq
  · next heq =>
      obtain ⟨rfl, rfl⟩ := List.cons.inj heq
      exact absurd rfl (h rfl)
  · next heq =>
      obtain ⟨rfl, rfl⟩ := List.cons.inj heq
      rw [if_pos hc]

theorem linesAfter_of_not_endsLine {c : Char} (hc : endsLine c = false) (line rest : Text) :
    linesAfter line (c :: rest) = linesAfter (c :: line) rest := by
  conv => lhs; unfold linesAfter
  split
  · next heq => exact nomatch heq
  · next heq =>
      obtain ⟨rfl, rfl⟩ := List.cons.inj heq
      exact absurd hc (by decide)
  · next heq =>
      obtain ⟨rfl, rfl⟩ := List.cons.inj heq
      rw [if_neg (by simp [hc])]

/-- Behind a line feed lines begin anew. -/
theorem linesAfter_lineFeed (line s t : Text) :
    linesAfter line (s ++ '\n' :: t) = linesAfter line (s ++ ['\n']) ++ lines t := by
  have hfeed (line u : Text) : linesAfter line ('\n' :: u) = line.reverse :: lines u :=
    linesAfter_of_endsLine rfl line fun h => absurd h (by decide)
  fun_induction linesAfter line s with
  | case1 line _ => rw [List.nil_append, List.nil_append, hfeed, hfeed]; rfl
  | case2 line _ => rw [List.nil_append, List.nil_append, hfeed, hfeed]; rfl
  | case3 line rest ih => simp only [List.cons_append, linesAfter, ih]
  | case4 line c rest hne hc ih =>
      by_cases hlast : c = '\r' ∧ rest = []
      · obtain ⟨rfl, rfl⟩ := hlast
        rfl
      · have hnext (u : Text) : c = '\r' → (rest ++ '\n' :: u).head? ≠ some '\n' := by
          rintro rfl hhead
          cases rest with
          | nil => exact hlast ⟨rfl, rfl⟩
          | cons d rest => exact hne rest rfl (by rw [Option.some.inj hhead])
        rw [List.cons_append, List.cons_append, linesAfter_of_endsLine hc line (hnext t),
          linesAfter_of_endsLine hc line (hnext []), ih, List.cons_append]
  | case5 line c rest hne hc ih =>
      have hc' := eq_false_of_ne_true hc
      rw [List.cons_append, List.cons_append, linesAfter_of_not_endsLine hc',
        linesAfter_of_not_endsLine hc', ih]

theorem lines_lineFeed (s t : Text) : lines (s ++ '\n' :: t) = lines (s ++ ['\n']) ++ lines t :=
  linesAfter_lineFeed [] s t

/-- A text that breaks no line is one line. -/
theorem lines_unbroken {s : Text} (h : ∀ c ∈ s, endsLine c = false) : lines (s ++ ['\n']) = [s] := by
  have hafter (line : Text) : linesAfter line (s ++ ['\n']) = [line.reverse ++ s] := by
    induction s generalizing line with
    | nil =>
        rw [List.nil_append, linesAfter_of_endsLine rfl line fun h => absurd h (by decide)]
        simp [linesAfter]
    | cons c s ih =>
        obtain ⟨hc, hs⟩ := List.forall_mem_cons.1 h
        rw [List.cons_append, linesAfter_of_not_endsLine hc, ih hs]
        simp
  exact hafter []

/-! ## Blanks -/

theorem strip_of_ends {c d : Char} {t : Text} (hc : isBlankChar c = false)
    (hd : isBlankChar d = false) : strip (c :: t ++ [d]) = c :: t ++ [d] := by
  rw [strip, List.cons_append, List.dropWhile_cons_of_neg (by simp [hc]), stripEnd, ← List.cons_append,
    List.reverse_append, List.reverse_singleton, List.singleton_append,
    List.dropWhile_cons_of_neg (by simp [hd])]
  simp

end TagFormula.Text
