import TagFormula.Text.Basic

/-!
# Code points

A code point is a character or a surrogate. Surrogates are halves: a high one and
the low one behind it stand for one character beyond U+FFFF. A text never holds
surrogates, but text that is written unit by unit may, and then one may lack its
partner.

`join` puts the characters in the place of the pairs. What it gives is `Joined`,
so every surrogate that is left stands alone (`joined_join`). Where characters
are wanted, `text` puts U+FFFD for a surrogate, and `text?` refuses it.
-/

namespace TagFormula

/-- A code point. -/
inductive CodePoint where
  /-- A character. -/
  | char (c : Char)
  /-- A surrogate, counted from U+D800 on. -/
  | surrogate (index : Fin 0x800)
deriving DecidableEq, Repr

namespace CodePoint

/-- The code point of a number below 0x110000. -/
def ofNat (n : Nat) : CodePoint :=
  if h : 0xD800 ≤ n ∧ n ≤ 0xDFFF then .surrogate ⟨n - 0xD800, by omega⟩
  else .char (Char.ofNat n)

/-- The number of a code point. -/
def toNat : CodePoint → Nat
  | char c => c.toNat
  | surrogate index => 0xD800 + index.val

/-- The character, if it is one. -/
def char? : CodePoint → Option Char
  | char c => some c
  | surrogate _ => none

/-- Whether a code point is a surrogate. -/
def isSurrogate : CodePoint → Bool
  | char _ => false
  | surrogate _ => true

/-- The character that two code points stand for, if they are a pair of
surrogates. -/
def pair? : CodePoint → CodePoint → Option Char
  | surrogate high, surrogate low =>
    if high.val < 0x400 ∧ 0x400 ≤ low.val then
      some (Char.ofNat (0x10000 + high.val * 0x400 + (low.val - 0x400)))
    else none
  | _, _ => none

/-- Code points with characters in the place of the pairs. -/
def join : List CodePoint → List CodePoint
  | a :: b :: rest =>
    match pair? a b with
    | some c => char c :: join rest
    | none => a :: join (b :: rest)
  | ps => ps

/-- No two neighbours are a pair. -/
def Joined : List CodePoint → Prop
  | a :: b :: rest => pair? a b = none ∧ Joined (b :: rest)
  | _ => True

/-- Whether code points do not come behind others when both are put into order by
their numbers. -/
def atMost : List CodePoint → List CodePoint → Bool
  | [], _ => true
  | _ :: _, [] => false
  | a :: as, b :: bs => if a.toNat = b.toNat then atMost as bs else decide (a.toNat < b.toNat)

/-- The characters of code points, with U+FFFD for every surrogate. -/
def text (ps : List CodePoint) : Text :=
  ps.map fun p => p.char?.getD '\uFFFD'

/-- The characters of code points, if there is no surrogate among them. -/
def text? (ps : List CodePoint) : Option Text :=
  ps.mapM char?

/-! ## Pairs -/

@[simp] theorem pair?_char_left (c : Char) (p : CodePoint) : pair? (char c) p = none := by
  cases p <;> rfl

@[simp] theorem pair?_char_right (p : CodePoint) (c : Char) : pair? p (char c) = none := by
  cases p <;> rfl

theorem joined_cons {a : CodePoint} {ps : List CodePoint}
    (ha : ∀ b ∈ ps.head?, pair? a b = none) (h : Joined ps) : Joined (a :: ps) := by
  cases ps with
  | nil => trivial
  | cons b rest => exact ⟨ha b rfl, h⟩

/-- Joining keeps the first code point, unless it is half of a pair. -/
theorem head?_join (b : CodePoint) (rest : List CodePoint) :
    ∃ p, (join (b :: rest)).head? = some p ∧ (p = b ∨ ∃ c, p = char c) := by
  cases rest with
  | nil => exact ⟨b, rfl, .inl rfl⟩
  | cons d rest =>
    unfold join
    split
    · exact ⟨_, rfl, .inr ⟨_, rfl⟩⟩
    · exact ⟨b, rfl, .inl rfl⟩

/-- Joining leaves no pair. -/
theorem joined_join (ps : List CodePoint) : Joined (join ps) := by
  fun_induction join ps with
  | case1 a b rest c h ih => exact joined_cons (by simp) ih
  | case2 a b rest h ih =>
    refine joined_cons ?_ ih
    obtain ⟨p, hp, hb | ⟨c, hc⟩⟩ := head?_join b rest
    · intro q hq
      rw [hp] at hq
      cases hq
      exact hb ▸ h
    · intro q hq
      rw [hp] at hq
      cases hq
      exact hc ▸ pair?_char_right a c
  | case3 ps h =>
    match ps, h with
    | [], _ => trivial
    | [_], _ => trivial
    | a :: b :: rest, h => exact (h a b rest rfl).elim

/-- Characters hold no pair. -/
theorem joined_map_char (t : Text) : Joined (t.map char) := by
  induction t with
  | nil => trivial
  | cons c t ih => exact joined_cons (by simp) ih

/-- Code points without pairs stay as they are. -/
theorem join_of_joined {ps : List CodePoint} (h : Joined ps) : join ps = ps := by
  fun_induction join ps with
  | case1 a b rest c hc ih => simp [hc, Joined] at h
  | case2 a b rest hc ih => rw [ih h.2]
  | case3 ps _ => rfl

@[simp] theorem text_map_char (t : Text) : text (t.map char) = t := by
  simp [text, char?, Function.comp_def]

@[simp] theorem toNat_ofNat_surrogate {n : Nat} (h₀ : 0xD800 ≤ n) (h₁ : n ≤ 0xDFFF) :
    (ofNat n).toNat = n := by
  simp only [ofNat, h₀, h₁, and_self, dite_true, toNat]
  omega

end CodePoint

end TagFormula
