import TagFormula.Text.LowerCase

/-!
# The lower case of a piece

The lower case of a character does not depend on the characters around it, unless it is a capital
sigma. So the lower case of a text falls into the lower cases of its pieces, each of them taken
between what stands before and behind it (`lower_append_append`). On its own a piece has the same
lower case just when its capital sigmas take the same forms (`lowerWithin_eq_lower_iff`). A sigma
at the end of a piece may take the final form there and another in the whole.
-/

namespace TagFormula.Text

/-! ## Where one text occurs in another -/

theorem occursIn_iff {part t : Text} : occursIn part t = true ↔ part <:+: t := by
  induction t with
  | nil => rw [occursIn, List.isEmpty_iff, List.infix_nil]
  | cons c t ih =>
      rw [occursIn, Bool.or_eq_true, List.isPrefixOf_iff_prefix, ih, List.infix_cons_iff]

/-! ## Pieces of a text -/

/-- A capital sigma between two texts takes the final form. -/
def isFinalSigma (before after : Text) : Bool :=
  reachesCased before.reverse && !reachesCased after

/-- The lower case of a character between two texts. -/
def lowerBetween (before : Text) (c : Char) (after : Text) : Text :=
  if c = 'Σ' then [if isFinalSigma before after then 'ς' else 'σ']
  else if c = 'İ' then ['i', '\u0307']
  else [lowerChar c]

/-- The lower case of a piece between two texts. -/
def lowerWithin (before : Text) (piece : Text) (after : Text) : Text :=
  match piece with
  | [] => []
  | c :: rest => lowerBetween before c (rest ++ after) ++ lowerWithin (before ++ [c]) rest after

/-- The capital sigmas of a piece between two texts take the forms that they take in the piece on
its own. -/
def KeepsForms (before piece after : Text) : Prop :=
  ∀ l r, piece = l ++ 'Σ' :: r → isFinalSigma l r = isFinalSigma (before ++ l) (r ++ after)

variable {before after before' after' piece : Text}

theorem lowerAfter_append (seen s t : Text) :
    lowerAfter seen (s ++ t) =
      lowerWithin seen.reverse s t ++ lowerAfter (s.reverse ++ seen) t := by
  induction s generalizing seen with
  | nil => rfl
  | cons c s ih =>
      rw [List.cons_append, lowerAfter, ih, lowerWithin, lowerBetween, isFinalSigma,
        List.reverse_reverse, List.reverse_cons, List.reverse_cons, List.append_assoc,
        List.append_assoc, List.singleton_append]

theorem lowerWithin_nil_right (before piece : Text) :
    lowerWithin before piece [] = lowerAfter before.reverse piece := by
  have h := lowerAfter_append before.reverse piece []
  rw [List.append_nil, List.reverse_reverse, lowerAfter, List.append_nil] at h
  exact h.symm

theorem lower_eq_lowerWithin (t : Text) : lower t = lowerWithin [] t [] :=
  (lowerWithin_nil_right [] t).symm

/-- The lower case of a text, piece by piece. -/
theorem lower_append_append (l t r : Text) :
    lower (l ++ t ++ r) =
      lowerWithin [] l (t ++ r) ++ lowerWithin l t r ++ lowerWithin (l ++ t) r [] := by
  rw [lower, List.append_assoc, lowerAfter_append, lowerAfter_append, lowerWithin_nil_right]
  simp

/-! ## What a piece depends on -/

theorem length_lowerBetween (before after before' after' : Text) (c : Char) :
    (lowerBetween before c after).length = (lowerBetween before' c after').length := by
  unfold lowerBetween
  split
  · rfl
  split <;> rfl

/-- What stands around a piece has no part in how long its lower case is. -/
theorem length_lowerWithin (before piece after : Text) :
    (lowerWithin before piece after).length = (lower piece).length := by
  rw [lower_eq_lowerWithin]
  suffices h : ∀ before', (lowerWithin before piece after).length =
      (lowerWithin before' piece []).length from h []
  induction piece generalizing before with
  | nil => exact fun _ => rfl
  | cons c piece ih =>
      intro before'
      rw [lowerWithin, lowerWithin, List.length_append, List.length_append, ih (before ++ [c]),
        length_lowerBetween]

/-- Only the form of a capital sigma depends on where it stands. -/
theorem lowerBetween_eq_iff {c : Char} :
    lowerBetween before c after = lowerBetween before' c after' ↔
      (c = 'Σ' → isFinalSigma before after = isFinalSigma before' after') := by
  by_cases hc : c = 'Σ'
  · cases h : isFinalSigma before after <;> cases h' : isFinalSigma before' after' <;>
      simp [lowerBetween, hc, h, h']
  · simp [lowerBetween, hc]

theorem lowerWithin_eq_iff :
    lowerWithin before piece after = lowerWithin before' piece after' ↔
      ∀ l r, piece = l ++ 'Σ' :: r →
        isFinalSigma (before ++ l) (r ++ after) = isFinalSigma (before' ++ l) (r ++ after') := by
  induction piece generalizing before before' with
  | nil => simp [lowerWithin]
  | cons c piece ih =>
      rw [lowerWithin, lowerWithin, List.append_eq_append_iff_of_size_eq_left
        (length_lowerBetween before _ before' _ c), lowerBetween_eq_iff, ih]
      constructor
      · rintro ⟨hc, hrest⟩ l r heq
        cases l with
        | nil =>
            obtain ⟨rfl, rfl⟩ := List.cons.inj heq
            simpa using hc rfl
        | cons d l =>
            obtain ⟨rfl, rfl⟩ := List.cons.inj heq
            simpa using hrest l r rfl
      · intro h
        refine ⟨?_, fun l r heq => ?_⟩
        · rintro rfl
          simpa using h [] piece rfl
        · subst heq
          simpa using h (c :: l) r rfl

/-- A piece has the same lower case on its own when its capital sigmas keep their forms. -/
theorem lowerWithin_eq_lower_iff :
    lowerWithin before piece after = lower piece ↔ KeepsForms before piece after := by
  rw [lower_eq_lowerWithin, eq_comm, lowerWithin_eq_iff]
  simp only [List.nil_append, List.append_nil, KeepsForms]

theorem keepsForms_of_notMem (h : 'Σ' ∉ piece) : KeepsForms before piece after := by
  rintro l r rfl
  exact absurd (List.mem_append_right l List.mem_cons_self) h

instance : Decidable (KeepsForms before piece after) :=
  decidable_of_iff _ lowerWithin_eq_lower_iff

/-- What stands in the lower case of a text in the place of a piece. -/
theorem take_drop_lower (l t r : Text) :
    ((lower (l ++ t ++ r)).drop (lower l).length).take (lower t).length = lowerWithin l t r := by
  rw [lower_append_append, ← length_lowerWithin [] l (t ++ r), ← length_lowerWithin l t r,
    List.append_assoc, List.drop_left, List.take_left]

end TagFormula.Text
