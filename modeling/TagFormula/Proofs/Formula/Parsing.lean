import TagFormula.Proofs.Formula.Contexts
import TagFormula.Proofs.Formula.Scanning

/-!
# Parsing by the grammar

`Reads c ts e` is what parsing does with tokens that derive from a category: wherever
an operand of the category may stand, they are read as an operand, with contexts left
open that come to the same as the tree `e` once they are closed. How far they have to be
closed depends on the category (`Category.level`); for an atom nothing is left open.

That every derivation is read in this way is an induction on the derivation. Together
with what the parser spells out (`Spells`) it follows that the parser finds exactly the
trees of the grammar, so that a text has at most one tree.
-/

namespace TagFormula

open TagFormula.Expr

/-- How closely everything is bound that derives from a category. -/
def Category.level : Category → Nat
  | addition => 1
  | multiplication => 2
  | unary | exponentiation => 3
  | atom => 4

/-- The innermost context binds less closely than a level. -/
def Settled (n : Nat) (frames : List Frame) : Prop :=
  ∀ f ∈ frames.head?, f.level < n

/-- An operand of a category may stand in contexts that the operators in it do not
close. -/
def Category.Fits (c : Category) (frames : List Frame) : Prop :=
  c.level ≤ 2 → Settled c.level frames

/-- Tokens are read as an operand of a category with a tree. -/
def Reads (c : Category) (ts : List Token) (e : Expr) : Prop :=
  ∀ frames, c.Fits frames → ∃ frames' e',
    ts.foldlM Reading.step? (.before frames) = some (.after frames' e') ∧
      ∀ n ≤ c.level, close n frames' e' = close n frames e

/-! ## Settled contexts -/

theorem Frame.level_le (f : Frame) : f.level ≤ 3 := by
  cases f with
  | signed sign => exact Nat.le_refl 3
  | binary op a => cases op <;> simp [Frame.level, Operator.level]
  | group => exact Nat.zero_le 3

theorem Frame.level_binary (op : Operator) (a : Expr) :
    (Frame.binary op a).level = op.result.level := by
  cases op <;> rfl

theorem settled_cons {n : Nat} {f : Frame} (h : f.level < n) (frames : List Frame) :
    Settled n (f :: frames) := by
  intro g hg
  rwa [← Option.some.inj hg]

theorem Settled.mono {m n : Nat} {frames : List Frame} (h : Settled m frames) (hle : m ≤ n) :
    Settled n frames :=
  fun f hf => Nat.lt_of_lt_of_le (h f hf) hle

theorem Settled.close_eq {n : Nat} {frames : List Frame} (h : Settled n frames) (e : Expr) :
    close n frames e = (frames, e) := by
  cases frames with
  | nil => rfl
  | cons f frames => exact close_cons_of_lt (h f rfl) frames e

theorem Category.Fits.mono {c d : Category} {frames : List Frame} (h : c.Fits frames)
    (hle : c.level ≤ d.level) : d.Fits frames :=
  fun hd => (h (Nat.le_trans hle hd)).mono hle

/-! ## Operands -/

namespace Reads

/-- What is read as an operand of a category is also read as one of a looser category. -/
theorem mono {c d : Category} {ts : List Token} {e : Expr} (h : Reads d ts e)
    (hle : c.level ≤ d.level) : Reads c ts e := by
  intro frames hfits
  obtain ⟨frames', e', hread, hclose⟩ := h frames (hfits.mono hle)
  exact ⟨frames', e', hread, fun n hn => hclose n (Nat.le_trans hn hle)⟩

theorem signed (sign : Sign) {ts : List Token} {e : Expr} (h : Reads .unary ts e) :
    Reads .unary (sign.token :: ts) (.signed sign e) := by
  intro frames _
  have hstep : (Reading.before frames).step? sign.token =
      some (.before (.signed sign :: frames)) := by
    cases sign <;> rfl
  obtain ⟨frames', e', hread, hclose⟩ := h (.signed sign :: frames) fun hle => by
    exact absurd hle (by decide)
  refine ⟨frames', e', ?_, fun n hn => ?_⟩
  · rw [List.foldlM_cons, hstep]
    exact hread
  · rw [hclose n hn, close_cons_of_le hn]
    rfl

theorem binary (op : Operator) {ls rs : List Token} {a b : Expr} (hl : Reads op.left ls a)
    (hr : Reads op.right rs b) : Reads op.result (ls ++ op.token :: rs) (.binary op a b) := by
  intro frames hfits
  have hleft : op.left.Fits frames := hfits.mono (by cases op <;> decide)
  have hsettled : Settled op.level frames := by
    cases op with
    | add | sub | mul | div => exact hfits (by decide)
    | pow => exact fun f _ => Nat.lt_succ_of_le f.level_le
  obtain ⟨frames₁, e₁, hread₁, hclose₁⟩ := hl frames hleft
  -- The operator finds its left operand complete, and the contexts as they were before it.
  have hoperand : close op.level frames₁ e₁ = (frames, a) := by
    rw [hclose₁ op.level (by cases op <;> decide), hsettled.close_eq]
  have hstep : (Reading.after frames₁ e₁).step? op.token =
      some (.before (.binary op a :: frames)) := by
    have hoperator : Reading.step?.operator frames₁ e₁ op = .before (.binary op a :: frames) := by
      rw [Reading.step?.operator, hoperand]
    rw [← hoperator]
    cases op <;> rfl
  have hright : op.right.Fits (.binary op a :: frames) := by
    intro hle
    refine settled_cons ?_ frames
    rw [Frame.level_binary]
    cases op <;> revert hle <;> decide
  obtain ⟨frames₂, e₂, hread₂, hclose₂⟩ := hr (.binary op a :: frames) hright
  refine ⟨frames₂, e₂, ?_, fun n hn => ?_⟩
  · rw [List.foldlM_append, hread₁, Option.bind_eq_bind, Option.bind_some, List.foldlM_cons, hstep]
    exact hread₂
  · have hle : op.result.level ≤ op.right.level := by cases op <;> decide
    rw [← Frame.level_binary op a] at hn hle
    rw [hclose₂ n (Nat.le_trans hn hle), close_cons_of_le hn]
    rfl

theorem number (literal : Text) : Reads .atom [.number literal] (.number literal) :=
  fun frames _ => ⟨frames, .number literal, rfl, fun _ _ => rfl⟩

theorem group {ts : List Token} {e : Expr} (h : Reads .addition ts e) :
    Reads .atom (.opening :: (ts ++ [.closing])) e := by
  intro frames _
  have hsettled : Settled 1 (Frame.group :: frames) := settled_cons Nat.one_pos frames
  obtain ⟨frames', e', hread, hclose⟩ := h (.group :: frames) fun _ => hsettled
  have hone := hclose 1 (Nat.le_refl 1)
  rw [hsettled.close_eq] at hone
  have hstep : (Reading.after frames' e').step? .closing = some (.after frames e) := by
    rw [Reading.step?, hone]
  refine ⟨frames, e, ?_, fun _ _ => rfl⟩
  have hopen : (Reading.before frames).step? .opening = some (.before (.group :: frames)) := rfl
  rw [List.foldlM_cons, hopen, Option.bind_eq_bind, Option.bind_some, List.foldlM_append, hread,
    Option.bind_eq_bind, Option.bind_some, List.foldlM_cons, hstep]
  rfl

end Reads

/-- Every derivation is read. -/
theorem Derives.reads {c : Category} {ts : List Token} {e : Expr} (h : Derives c ts e) :
    Reads c ts e := by
  induction h with
  | term h ih => exact ih.mono (by decide)
  | add hl hr ihl ihr => exact .binary .add ihl ihr
  | sub hl hr ihl ihr => exact .binary .sub ihl ihr
  | factor h ih => exact ih.mono (by decide)
  | mul hl hr ihl ihr => exact .binary .mul ihl ihr
  | div hl hr ihl ihr => exact .binary .div ihl ihr
  | power h ih => exact ih.mono (by decide)
  | neg h ih => exact .signed .neg ih
  | pos h ih => exact .signed .pos ih
  | base h ih => exact ih.mono (by decide)
  | pow hl hr ihl ihr => exact .binary .pow ihl ihr
  | number literal => exact .number literal
  | group h ih => exact ih.group

/-! ## Texts -/

namespace Expr

theorem parseFrom_eq_ok_iff {last : Nat} {r : Reading} {ps : List Positioned} {e : Expr} :
    parseFrom last r ps = .ok e ↔
      ∃ r', (ps.map (·.token)).foldlM Reading.step? r = some r' ∧ r'.finish? = some e := by
  induction ps generalizing last r with
  | nil =>
      rw [parseFrom]
      cases hfinish : r.finish? with
      | none => simp [hfinish]
      | some e' => simp [hfinish]
  | cons p ps ih =>
      rw [parseFrom, List.map_cons, List.foldlM_cons]
      cases hstep : r.step? p.token with
      | none => simp
      | some r' => simp [ih]

/-- A parser that stops calls the text malformed. -/
theorem eq_malformed_of_parseFrom {last : Nat} {r : Reading} {ps : List Positioned}
    {err : FormulaError} (h : parseFrom last r ps = .error err) :
    ∃ fault p, err = .malformed fault (some p) := by
  induction ps generalizing last r with
  | nil =>
      rw [parseFrom] at h
      split at h
      · exact nomatch h
      · exact ⟨_, _, (Except.error.inj h).symm⟩
  | cons p ps ih =>
      rw [parseFrom] at h
      split at h
      · exact ih h
      · exact ⟨_, _, (Except.error.inj h).symm⟩

theorem parse_eq_ok_iff {t : Text} {e : Expr} : parse t = .ok e ↔ HasTree t e := by
  rw [parse, parseFrom_eq_ok_iff]
  constructor
  · rintro ⟨r, hread, hfinish⟩
    have hstart : Spells (.before []) [] := Opens.nil
    have hderives : Derives .addition (Token.tokensFrom 0 t) e :=
      (hstart.steps hread).finish hfinish
    exact ⟨_, lexes_tokensFrom hderives.foreign_not_mem, hderives⟩
  · rintro ⟨ts, hlexes, hderives⟩
    have htokens : (Token.scan t).map (·.token) = ts := hlexes.tokensFrom_eq 0
    have hstart : Settled 1 [] := fun f hf => nomatch hf
    obtain ⟨frames, e', hread, hclose⟩ := hderives.reads [] fun _ => hstart
    refine ⟨_, htokens ▸ hread, ?_⟩
    rw [Reading.finish?, hclose 1 (Nat.le_refl 1), hstart.close_eq]

/-- A text is parsed to a tree exactly when the tree is that of a derivation of the text.
Hence a text has at most one tree, and a text without a derivation is malformed. -/
theorem parse_iff_derivation (t : Text) :
    (∀ e, parse t = .ok e ↔ HasTree t e) ∧
      (∀ e e', HasTree t e → HasTree t e' → e = e') ∧
      ((¬ ∃ e, HasTree t e) → ∃ fault p, parse t = .error (.malformed fault (some p))) := by
  refine ⟨fun e => parse_eq_ok_iff, ?_, ?_⟩
  · intro e e' he he'
    have heq := (parse_eq_ok_iff.2 he).symm.trans (parse_eq_ok_iff.2 he')
    exact Except.ok.inj heq
  · intro hno
    cases hparse : parse t with
    | ok e => exact absurd ⟨e, parse_eq_ok_iff.1 hparse⟩ hno
    | error err =>
        obtain ⟨fault, p, rfl⟩ := eq_malformed_of_parseFrom hparse
        exact ⟨fault, p, rfl⟩

-- A sign stands above the power that follows it.
example : parse "-2^2".toList =
    .ok (.signed .neg (.binary .pow (.number ['2']) (.number ['2']))) := by cbv

end Expr

end TagFormula
