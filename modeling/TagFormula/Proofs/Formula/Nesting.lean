import TagFormula.Proofs.Formula.Preparation

/-!
# Parentheses that pair up

The parentheses of a text are checked with a counter. The texts that pass are those of a
grammar, in which every opening parenthesis stands together with its partner and with a
text of the same kind between them (`WellNested`).

In the middle of a text the counter has some parentheses open. So the induction is about
texts that close a number of them (`Closes`): well nested parts, with a closing parenthesis
without a partner between one part and the next.
-/

namespace TagFormula.Formula

/-- Every parenthesis of a text has a partner. -/
inductive WellNested : Text → Prop where
  | nil : WellNested []
  | other {c : Char} {t : Text} (ho : c ≠ '(') (hc : c ≠ ')') (ht : WellNested t) :
    WellNested (c :: t)
  | group {s t : Text} (hs : WellNested s) (ht : WellNested t) :
    WellNested ('(' :: (s ++ ')' :: t))

/-- A text that closes as many parentheses that were open before it. -/
inductive Closes : Nat → Text → Prop where
  | nested {t : Text} (h : WellNested t) : Closes 0 t
  | closing {depth : Nat} {s t : Text} (hs : WellNested s) (ht : Closes depth t) :
    Closes (depth + 1) (s ++ ')' :: t)

theorem balance_opening (depth : Nat) (t : Text) :
    balance depth ('(' :: t) = balance (depth + 1) t := by
  rw [balance_cons]
  rfl

theorem balance_closing (depth : Nat) (t : Text) :
    balance (depth + 1) (')' :: t) = balance depth t := by
  rw [balance_cons]
  rfl

theorem balance_other {c : Char} (ho : c ≠ '(') (hc : c ≠ ')') (depth : Nat) (t : Text) :
    balance depth (c :: t) = balance depth t := by
  rw [balance_cons, balance_of_forall (List.forall_mem_singleton.2 ⟨ho, hc⟩)]
  rfl

theorem WellNested.balance_eq {t : Text} (h : WellNested t) (depth : Nat) :
    balance depth t = some depth := by
  induction h generalizing depth with
  | nil => rfl
  | other ho hc ht ih => rw [balance_other ho hc, ih]
  | group hs ht ihs iht =>
    rw [balance_opening, balance_append, ihs]
    exact (balance_closing depth _).trans (iht depth)

theorem WellNested.append {s t : Text} (hs : WellNested s) (ht : WellNested t) :
    WellNested (s ++ t) := by
  induction hs with
  | nil => exact ht
  | other ho hc hs ih => exact .other ho hc ih
  | @group u v hu hv ihu ihv =>
    rw [List.cons_append, List.append_assoc, List.cons_append]
    exact .group hu ihv

theorem Closes.append_left {depth : Nat} {s t : Text} (hs : WellNested s) (ht : Closes depth t) :
    Closes depth (s ++ t) := by
  cases ht with
  | nested ht => exact .nested (hs.append ht)
  | closing hu ht =>
    rw [← List.append_assoc]
    exact .closing (hs.append hu) ht

theorem closes_of_balance {depth : Nat} {t : Text} (h : balance depth t = some 0) :
    Closes depth t := by
  induction t generalizing depth with
  | nil =>
    obtain rfl : depth = 0 := Option.some.inj h
    exact .nested .nil
  | cons c t ih =>
    by_cases ho : c = '('
    · subst ho
      rw [balance_opening] at h
      -- The first parenthesis that is closed is the one just opened.
      cases ih h with
      | @closing _ s u hs hu =>
        simpa using Closes.append_left (.group hs .nil) hu
    by_cases hc : c = ')'
    · subst hc
      cases depth with
      | zero => cases h
      | succ depth =>
        rw [balance_closing] at h
        exact .closing .nil (ih h)
    · rw [balance_other ho hc] at h
      exact Closes.append_left (.other ho hc .nil) (ih h)

/-- The counter finds nothing wrong just in the texts of the grammar. -/
theorem balance_eq_some_iff {t : Text} : balance 0 t = some 0 ↔ WellNested t := by
  refine ⟨fun h => ?_, fun h => h.balance_eq 0⟩
  cases closes_of_balance h with
  | nested ht => exact ht

end TagFormula.Formula
