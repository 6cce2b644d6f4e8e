import TagFormula.Formula.Parser
import TagFormula.Proofs.Formula.Grammar

/-!
# What has been read

`Opens frames ts` says what the open contexts stand for: they are what the tokens `ts`
leave open, and every left operand in them derives from the category that its operator
asks for. `Spells reading ts` says the same of a place in a text. After an operand the
tokens end with a derivation of an atom, whatever contexts are open around it.

Closing contexts keeps this up (`Opens.close`): a context and its operand become one
derivation, and what remains open waits for something at least as loose. So the tokens
read so far are always spelled out by the state, and where the text ends the state holds
a derivation of all of it.
-/

namespace TagFormula

open TagFormula.Expr

/-- The category of the operand that a context waits for. -/
def Frame.awaits : Frame → Category
  | signed _ => .unary
  | binary op _ => op.right
  | group => .addition

/-- The category of the operand that is expected in open contexts. -/
def awaits : List Frame → Category
  | [] => .addition
  | f :: _ => f.awaits

/-- The contexts that tokens leave open. -/
inductive Opens : List Frame → List Token → Prop
  | nil : Opens [] []
  | signed {frames : List Frame} {ts : List Token} (sign : Sign) (h : Opens frames ts) :
      Opens (.signed sign :: frames) (ts ++ [sign.token])
  | binary {frames : List Frame} {ts us : List Token} {a : Expr} (op : Operator)
      (h : Opens frames ts) (ha : Derives op.left us a)
      (hle : (awaits frames).rank ≤ op.left.rank) :
      Opens (.binary op a :: frames) (ts ++ (us ++ [op.token]))
  | group {frames : List Frame} {ts : List Token} (h : Opens frames ts) :
      Opens (.group :: frames) (ts ++ [.opening])

/-- The tokens that have been read up to a place. -/
def Spells : Reading → List Token → Prop
  | .before frames, ts => Opens frames ts
  | .after frames e, ts => ∃ us vs, ts = us ++ vs ∧ Opens frames us ∧ Derives .atom vs e

theorem Operator.rank_right_le (op : Operator) : op.right.rank ≤ Category.unary.rank := by
  cases op <;> decide

/-- Every context takes a signed operand. -/
theorem rank_awaits_le (frames : List Frame) : (awaits frames).rank ≤ Category.unary.rank := by
  cases frames with
  | nil => decide
  | cons f frames =>
      cases f with
      | signed sign => exact Nat.le_refl _
      | binary op a => exact op.rank_right_le
      | group => exact rank_awaits_le []

/-! ## Closing contexts -/

theorem close_cons_of_le {n : Nat} {f : Frame} (h : n ≤ f.level) (frames : List Frame) (e : Expr) :
    close n (f :: frames) e = close n frames (f.fill e) :=
  if_pos h

theorem close_cons_of_lt {n : Nat} {f : Frame} (h : f.level < n) (frames : List Frame) (e : Expr) :
    close n (f :: frames) e = (f :: frames, e) :=
  if_neg (Nat.not_le.2 h)

/-- A context that binds less closely than an operator waits for something at least as
loose as the left operand of the operator. -/
theorem rank_awaits_le_of_lt {f : Frame} {op : Operator} (h : f.level < op.level) :
    f.awaits.rank ≤ op.left.rank := by
  cases f with
  | signed sign =>
      cases op <;> simp_all [Frame.level, Operator.level, Frame.awaits, Operator.left,
        Category.rank]
  | binary op' a =>
      cases op <;> cases op' <;> simp_all [Frame.level, Operator.level, Frame.awaits,
        Operator.left, Operator.right, Category.rank]
  | group => cases op <;> simp [Frame.awaits, Operator.left, Category.rank]

/-- Where a sign is closed before an operator, the operator takes a signed operand. -/
theorem rank_left_le_unary {op : Operator} {sign : Sign}
    (h : op.level ≤ (Frame.signed sign).level) : op.left.rank ≤ Category.unary.rank := by
  cases op <;> simp_all [Frame.level, Operator.level, Operator.left, Category.rank]

/-- Where an operator is closed before another, the other takes its result. -/
theorem rank_left_le_result {op op' : Operator} {a : Expr}
    (h : op.level ≤ (Frame.binary op' a).level) : op.left.rank ≤ op'.result.rank := by
  cases op <;> cases op' <;> simp_all [Frame.level, Operator.level, Operator.left,
    Operator.result, Category.rank]

/-- What fits as the left operand of an operator is replaced by its result. -/
theorem rank_awaits_le_result {frames : List Frame} {op : Operator}
    (h : (awaits frames).rank ≤ op.left.rank) : (awaits frames).rank ≤ op.result.rank := by
  cases op with
  | add | sub | mul | div => exact h
  | pow => exact Nat.le_trans (rank_awaits_le frames) (by decide)

/-- Before an operator the contexts that bind at least as closely are closed. What they
were opened for is then part of the left operand of the operator. -/
theorem Opens.close {frames : List Frame} {us : List Token} (h : Opens frames us) (op : Operator)
    {c : Category} {vs : List Token} {e : Expr} (he : Derives c vs e)
    (hc : (awaits frames).rank ≤ c.rank) (hop : op.left.rank ≤ c.rank) :
    ∃ frames' e' us' vs', Expr.close op.level frames e = (frames', e') ∧
      us ++ vs = us' ++ vs' ∧ Opens frames' us' ∧ Derives op.left vs' e' ∧
      (awaits frames').rank ≤ op.left.rank := by
  induction h generalizing c vs e with
  | nil =>
      refine ⟨[], e, [], vs, rfl, rfl, .nil, he.lift hop, ?_⟩
      cases op <;> decide
  | @signed frames ts sign h ih =>
      by_cases hle : op.level ≤ (Frame.signed sign).level
      · rw [close_cons_of_le hle, List.append_assoc]
        exact ih (he.lift hc).signed (rank_awaits_le frames) (rank_left_le_unary hle)
      · have hlt := Nat.not_le.1 hle
        exact ⟨_, e, _, vs, close_cons_of_lt hlt frames e, rfl, .signed sign h, he.lift hop,
          rank_awaits_le_of_lt hlt⟩
  | @binary frames ts ls a op' h ha hfits ih =>
      by_cases hle : op.level ≤ (Frame.binary op' a).level
      · have hwhole : Derives op'.result (ls ++ op'.token :: vs) (.binary op' a e) :=
          ha.binary (he.lift hc)
        have hassoc : ts ++ (ls ++ [op'.token]) ++ vs = ts ++ (ls ++ op'.token :: vs) := by simp
        rw [close_cons_of_le hle, hassoc]
        exact ih hwhole (rank_awaits_le_result hfits) (rank_left_le_result hle)
      · have hlt := Nat.not_le.1 hle
        exact ⟨_, e, _, vs, close_cons_of_lt hlt frames e, rfl, .binary op' h ha hfits,
          he.lift hop, rank_awaits_le_of_lt hlt⟩
  | @group frames ts h ih =>
      have hlt : Frame.group.level < op.level := by cases op <;> decide
      exact ⟨_, e, _, vs, close_cons_of_lt hlt frames e, rfl, .group h, he.lift hop,
        rank_awaits_le_of_lt hlt⟩

/-! ## Reading on -/

/-- An operand that is bound as closely as an atom is a left operand of every operator. -/
theorem Opens.operator {frames : List Frame} {us vs : List Token} {e : Expr}
    (h : Opens frames us) (he : Derives .atom vs e) (op : Operator) :
    Spells (Reading.step?.operator frames e op) (us ++ vs ++ [op.token]) := by
  have hc : (awaits frames).rank ≤ Category.atom.rank :=
    Nat.le_trans (rank_awaits_le frames) (by decide)
  have hop : op.left.rank ≤ Category.atom.rank := by cases op <;> decide
  obtain ⟨frames', e', us', vs', hclose, heq, hopens, he', hle⟩ := h.close op he hc hop
  rw [heq, List.append_assoc, Reading.step?.operator, hclose]
  exact .binary op hopens he' hle

/-- Closing everything up to the innermost parenthesis leaves a formula. -/
theorem Opens.close_one {frames : List Frame} {us vs : List Token} {e : Expr}
    (h : Opens frames us) (he : Derives .atom vs e) :
    ∃ frames' e' us' vs', Expr.close 1 frames e = (frames', e') ∧ us ++ vs = us' ++ vs' ∧
      Opens frames' us' ∧ Derives .addition vs' e' := by
  have hc : (awaits frames).rank ≤ Category.atom.rank :=
    Nat.le_trans (rank_awaits_le frames) (by decide)
  obtain ⟨frames', e', us', vs', hclose, heq, hopens, he', -⟩ :=
    h.close .add he hc (by decide)
  exact ⟨frames', e', us', vs', hclose, heq, hopens, he'⟩

theorem Opens.closing {frames frames' : List Frame} {us vs : List Token} {e e' : Expr}
    (h : Opens frames us) (he : Derives .atom vs e)
    (hclose : Expr.close 1 frames e = (.group :: frames', e')) :
    Spells (.after frames' e') (us ++ vs ++ [.closing]) := by
  obtain ⟨frames'', e'', us', vs', hclose', heq, hopens, he'⟩ := h.close_one he
  rw [hclose] at hclose'
  obtain ⟨rfl, rfl⟩ := Prod.mk.inj hclose'
  cases hopens with
  | @group _ ts h =>
      refine ⟨ts, _, ?_, h, .group he'⟩
      rw [heq]
      simp

/-- Reading one more token adds it to what is spelled out. -/
theorem Spells.step {r r' : Reading} {ts : List Token} {token : Token} (h : Spells r ts)
    (hstep : r.step? token = some r') : Spells r' (ts ++ [token]) := by
  cases r with
  | before frames =>
      have hopens : Opens frames ts := h
      cases token with
      | number literal =>
          rw [← Option.some.inj hstep]
          exact ⟨ts, [.number literal], rfl, hopens, .number literal⟩
      | plus => rw [← Option.some.inj hstep]; exact .signed .pos hopens
      | minus => rw [← Option.some.inj hstep]; exact .signed .neg hopens
      | opening => rw [← Option.some.inj hstep]; exact .group hopens
      | times | slash | caret | closing | foreign => exact nomatch hstep
  | after frames e =>
      obtain ⟨us, vs, rfl, hopens, he⟩ := h
      cases token with
      | plus => rw [← Option.some.inj hstep]; exact hopens.operator he .add
      | minus => rw [← Option.some.inj hstep]; exact hopens.operator he .sub
      | times => rw [← Option.some.inj hstep]; exact hopens.operator he .mul
      | slash => rw [← Option.some.inj hstep]; exact hopens.operator he .div
      | caret => rw [← Option.some.inj hstep]; exact hopens.operator he .pow
      | closing =>
          rw [Reading.step?] at hstep
          split at hstep
          · next frames' e' hclose =>
              rw [← Option.some.inj hstep]
              exact hopens.closing he hclose
          · exact nomatch hstep
      | number | opening | foreign => exact nomatch hstep

/-- Reading tokens one after the other adds them to what is spelled out. -/
theorem Spells.steps {r r' : Reading} {ts us : List Token} (h : Spells r ts)
    (hsteps : us.foldlM Reading.step? r = some r') : Spells r' (ts ++ us) := by
  induction us generalizing r ts with
  | nil =>
      rw [List.append_nil, ← Option.some.inj hsteps]
      exact h
  | cons u us ih =>
      rw [List.foldlM_cons] at hsteps
      obtain ⟨r₁, hstep, hrest⟩ := Option.bind_eq_some_iff.1 hsteps
      have hread := ih (h.step hstep) hrest
      rwa [List.append_assoc] at hread

/-- Where a formula may end, the tokens read so far derive it. -/
theorem Spells.finish {r : Reading} {ts : List Token} {e : Expr} (h : Spells r ts)
    (hfinish : r.finish? = some e) : Derives .addition ts e := by
  cases r with
  | before frames => exact nomatch hfinish
  | after frames e₀ =>
      obtain ⟨us, vs, rfl, hopens, he⟩ := h
      obtain ⟨frames', e', us', vs', hclose, heq, hopens', he'⟩ := hopens.close_one he
      rw [Reading.finish?, hclose] at hfinish
      cases hopens' with
      | nil =>
          rw [heq, ← Option.some.inj hfinish]
          exact he'
      | signed | binary | group => exact nomatch hfinish

end TagFormula
