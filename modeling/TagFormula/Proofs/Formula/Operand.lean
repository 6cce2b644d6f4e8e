import TagFormula.Proofs.Formula.Values

/-!
# A tag stands for its value

Tags are replaced by the text of their values, and the text is read as it stands. So
the question is whether the value of a tag is read as one operand, as it would be in
parentheses. It is, for all values without a sign, as long as the tag is kept apart from
digits, points and other tags (`Separated`). A minus sign can be read as something else:
behind an operand as a subtraction, and before a power as the sign of the power. Where
neither can happen (`SignsApart`) the parentheses make no difference to the value of a
formula or to the code of its error, which is `value_as_operand`.

The proof follows the text from tag to tag. Up to the end of each part the parser is in
the same place for both texts, except right behind a signed value, where it is in places
that only a power can tell apart (`ReadAlike`).
-/

namespace TagFormula

open Formula TagFormula.Expr Token

namespace Cell

/-! ## What may stand next to a tag -/

/-- The cell keeps a tag next to it apart from digits, points and other tags. -/
def Separates : Cell → Prop
  | char c => c.isDigit = false ∧ c ≠ '.'
  | tag _ => False

/-- Every tag is kept apart from digits, points and other tags on both sides. -/
structure Separated (cells : List Cell) : Prop where
  left : ∀ l c s r, cells = l ++ c :: tag s :: r → c.Separates
  right : ∀ l s c r, cells = l ++ tag s :: c :: r → c.Separates

/-- An operand may end with this cell. -/
def EndsOperand : Cell → Prop
  | char c => c.isDigit = true ∨ c = '.' ∨ c = ')'
  | tag _ => True

theorem mem_of_not_endsOperand {c : Char} (hallowed : isAllowed c = true) (hspace : c ≠ ' ')
    (h : ¬ (char c).EndsOperand) : c ∈ ['+', '-', '*', '/', '^', '('] := by
  have hdigit : ¬ c.isDigit = true := fun hc => h (.inl hc)
  have hpoint : c ≠ '.' := fun hc => h (.inr (.inl hc))
  have hclosing : c ≠ ')' := fun hc => h (.inr (.inr hc))
  have hcases := (cases_of_isAllowed hallowed).resolve_left hdigit
  simp only [List.mem_cons, List.not_mem_nil, or_false] at hcases ⊢
  tauto

/-- Spaces aside, no operand ends right before a tag with a signed value, and no power follows it
unless it dangles at the end. -/
structure SignsApart (cells : List Cell) : Prop where
  before : ∀ l c n s r, cells = l ++ c :: (List.replicate n (char ' ') ++ tag s :: r) →
    s.IsSigned → ¬ c.EndsOperand
  after : ∀ l s n r, cells = l ++ tag s :: (List.replicate n (char ' ') ++ char '^' :: r) →
    s.IsSigned → ∀ c ∈ r, c.IsBlank

/-- A row in arithmetic, without a dangling operator, in which parentheses around the values make
no difference. -/
structure Readable (cells : List Cell) : Prop where
  valid : ∀ s, tag s ∈ cells → s.Valid
  allowed : ∀ c, char c ∈ cells → isAllowed c = true
  separated : Separated cells
  before : ∀ l c n s r, cells = l ++ c :: (List.replicate n (char ' ') ++ tag s :: r) →
    s.IsSigned → ¬ c.EndsOperand
  power : ∀ l s n r, cells = l ++ tag s :: (List.replicate n (char ' ') ++ char '^' :: r) →
    ¬ s.IsSigned

theorem Separated.of_append_left {l r : List Cell} (h : Separated (l ++ r)) : Separated l where
  left l' c s r' heq := h.left l' c s (r' ++ r) (by rw [heq]; simp)
  right l' s c r' heq := h.right l' s c (r' ++ r) (by rw [heq]; simp)

theorem Readable.of_append_left {l r : List Cell} (h : Readable (l ++ r)) : Readable l where
  valid s hs := h.valid s (List.mem_append_left _ hs)
  allowed c hc := h.allowed c (List.mem_append_left _ hc)
  separated := h.separated.of_append_left
  before l' c n s r' heq := h.before l' c n s (r' ++ r) (by rw [heq]; simp)
  power l' s n r' heq := h.power l' s n (r' ++ r) (by rw [heq]; simp)

/-- Without its dangling operator, a row of arithmetic is readable. -/
theorem Stripped.readable {cells cells' : List Cell} (h : Stripped cells cells')
    (hvalid : ∀ s, tag s ∈ cells → s.Valid) (hsep : Separated cells) (hsigns : SignsApart cells)
    (hallowed : ∀ c, char c ∈ cells' → isAllowed c = true) : Readable cells' := by
  obtain ⟨rest, hrest⟩ := h.prefix
  refine ⟨fun s hs => hvalid s (hrest ▸ List.mem_append_left _ hs), hallowed,
    (hrest ▸ hsep).of_append_left, ?_, ?_⟩
  · intro l c n s r heq
    exact hsigns.before l c n s (r ++ rest) (by rw [hrest, heq]; simp)
  · intro l s n r heq hs
    have hblank := hsigns.after l s n (r ++ rest) (by rw [hrest, heq]; simp) hs
    cases h with
    | @dangling _ op blanks heq' hop hblanks =>
        -- The operator that dangles would stand behind the power.
        have hrest' : rest = char op :: blanks.map char :=
          List.append_cancel_left (hrest.symm.trans heq')
        have hop' : Text.isBlankChar op = true := hblank (char op) (by simp [hrest'])
        rw [not_blank_of_trailing hop] at hop'
        exact nomatch hop'
    | whole hno =>
        -- The power would dangle itself.
        have hnil : rest = [] := by simpa using hrest
        rw [hnil, List.append_nil] at hblank
        obtain ⟨blanks, rfl, hblanks⟩ := exists_text_of_blank hblank
        have hop := hno (l ++ tag s :: List.replicate n (char ' ')) '^' blanks
          (by rw [heq]; simp) hblanks
        exact nomatch hop

/-! ## From tag to tag -/

/-- The last tag of a row, and the characters behind it. -/
theorem exists_last_tag (cells : List Cell) :
    (∃ run : Text, cells = run.map char) ∨
      ∃ (l : List Cell) (s : Suggestion) (run : Text), cells = l ++ tag s :: run.map char := by
  induction cells using List.reverseRecOn with
  | nil => exact .inl ⟨[], rfl⟩
  | append_singleton cells c ih =>
      cases c with
      | tag s => exact .inr ⟨cells, s, [], rfl⟩
      | char c =>
          rcases ih with ⟨run, rfl⟩ | ⟨l, s, run, rfl⟩
          · exact .inl ⟨run ++ [c], by simp⟩
          · exact .inr ⟨l, s, run ++ [c], by simp⟩

namespace Readable

variable {l r : List Cell} {s : Suggestion} {run : Text}

/-- No number runs into the value of a tag. -/
theorem parted_left (h : Readable (l ++ tag s :: r)) (f : Suggestion → Text) (v : Text) :
    Parted (filled f l) v := by
  rcases List.eq_nil_or_concat l with rfl | ⟨l', c, rfl⟩
  · exact parted_nil_left v
  rw [List.concat_eq_append] at h ⊢
  have hc := h.separated.left l' c s r (by simp)
  cases c with
  | char c =>
      have hallowed := h.allowed c (by simp)
      rw [filled_append]
      exact parted_of_last (not_isNumeric hallowed hc.1 hc.2) _ v
  | tag s => exact absurd hc id

/-- No number runs out of the value of a tag. -/
theorem parted_right (h : Readable (l ++ tag s :: run.map char)) (u : Text) : Parted u run := by
  cases run with
  | nil => exact parted_nil_right u
  | cons c run =>
      have hc := h.separated.right l s (char c) (run.map char) rfl
      have hallowed := h.allowed c (by simp)
      exact parted_of_head (not_isNumeric hallowed hc.1 hc.2) u run

/-- The text is read up to a tag, then the value, then the characters behind it. -/
theorem read_filled (h : Readable (l ++ tag s :: run.map char)) (f : Suggestion → Text)
    (q : Reading) :
    q.read (filled f (l ++ tag s :: run.map char)) =
      ((q.read (filled f l)).bind (·.read (f s))).bind (·.read run) := by
  have htext : filled f (l ++ tag s :: run.map char) = filled f l ++ (f s ++ run) := by
    rw [filled_append, filled_cons, filled_map_char]
    rfl
  rw [htext, Reading.read_append (h.parted_left f _), Option.bind_assoc]
  exact congrArg _ (funext fun q' => Reading.read_append (h.parted_right _) q')

/-- Before a tag with a signed value an operand is expected. -/
theorem exists_before (h : Readable (l ++ tag s :: r)) (hs : s.IsSigned)
    (f : Suggestion → Text) {q : Reading} (hq : (Reading.before []).read (filled f l) = some q) :
    ∃ frames, q = Reading.before frames := by
  obtain ⟨l', m, rfl, hm, hlast⟩ := exists_trailing (· = char ' ') l
  obtain ⟨n, rfl⟩ : ∃ n, m = List.replicate n (char ' ') :=
    ⟨m.length, List.eq_replicate_of_mem hm⟩
  have hspaces : filled f (List.replicate n (char ' ')) = List.replicate n ' ' := by
    rw [← List.map_replicate, filled_map_char]
  rw [filled_append, hspaces] at hq
  rcases List.eq_nil_or_concat l' with rfl | ⟨l'', c, rfl⟩
  · rw [filled_nil, List.nil_append, Reading.read, tokens_spaces] at hq
    exact ⟨[], (Option.some.inj hq).symm⟩
  rw [List.concat_eq_append] at h hq hlast
  have hends := h.before l'' c n s r (by simp) hs
  cases c with
  | tag v => exact absurd trivial hends
  | char c =>
      have hspace : c ≠ ' ' := fun heq => hlast l'' (char c) rfl (congrArg char heq)
      have hmem := mem_of_not_endsOperand (h.allowed c (by simp)) hspace hends
      have htext : filled f (l'' ++ [char c]) ++ List.replicate n ' ' =
          filled f l'' ++ c :: List.replicate n ' ' := by
        rw [filled_append]
        simp [written]
      rw [htext] at hq
      exact Reading.exists_before_of_read hmem hq

end Readable

/-- Two texts for a row are read alike: to the same place, or to two places behind a signed value
at the end of the row. -/
inductive ReadAlike (cells : List Cell) : Prop
  | same (h : (Reading.before []).read (filled Suggestion.plain cells) =
      (Reading.before []).read (filled Suggestion.bracketed cells))
  | behind {l : List Cell} {s : Suggestion} {n : Nat} {q q' : Reading}
      (heq : cells = l ++ tag s :: List.replicate n (char ' '))
      (hplain : (Reading.before []).read (filled Suggestion.plain cells) = some q)
      (hbracketed : (Reading.before []).read (filled Suggestion.bracketed cells) = some q')
      (h : Reading.AfterValue q q')

/-- Characters behind a signed value that do not start with a power. -/
theorem read_eq_of_afterValue {q q' : Reading} (h : Reading.AfterValue q q') {run : Text}
    (hallowed : ∀ c ∈ run, isAllowed c = true)
    (hpower : ∀ n rest, run ≠ List.replicate n ' ' ++ '^' :: rest) :
    q.read run = q'.read run ∨
      (∃ n, run = List.replicate n ' ') ∧ q.read run = some q ∧ q'.read run = some q' := by
  induction run with
  | nil =>
      refine .inr ⟨⟨0, rfl⟩, ?_, ?_⟩ <;> rw [Reading.read, tokens_nil] <;> rfl
  | cons c run ih =>
      by_cases hspace : c = ' '
      · subst hspace
        have hskip (q : Reading) : q.read (' ' :: run) = q.read run := by
          rw [Reading.read, tokens_space (by decide), Reading.read]
        rw [hskip, hskip]
        refine (ih (fun d hd => hallowed d (List.mem_cons_of_mem _ hd)) ?_).imp_right ?_
        · intro n rest heq
          exact hpower (n + 1) rest (by rw [heq, List.replicate_succ, List.cons_append])
        · rintro ⟨⟨n, rfl⟩, hread⟩
          exact ⟨⟨n + 1, by rw [List.replicate_succ]⟩, hread⟩
      · have hc := isSpace_of_isAllowed (hallowed c (List.mem_cons_self ..)) hspace
        obtain ⟨token, ts, htokens, hcaret⟩ := Reading.exists_tokens_cons hc run
        have hne : token ≠ .caret := by
          intro heq
          exact hpower 0 run (by rw [hcaret heq]; rfl)
        refine .inl ?_
        rw [Reading.read, Reading.read, htokens, List.foldlM_cons, List.foldlM_cons, h.step?_eq hne]

namespace Readable

variable {l : List Cell} {s : Suggestion} {run : Text}

/-- A tag without a sign is read to one place, and only where an operand is expected. -/
theorem readAlike_of_numeral (h : Readable (l ++ tag s :: run.map char)) (hl : ReadAlike l)
    (hlit : PlainNumeral s.plain) : ReadAlike (l ++ tag s :: run.map char) := by
  have hplain (q : Reading) : q.read s.plain = q.step? (.number s.plain) :=
    Reading.read_numeral hlit q
  have hbracketed (q : Reading) : q.read s.bracketed = q.step? (.number s.plain) :=
    Reading.read_numeral_parenthesized hlit q
  refine .same ?_
  rw [h.read_filled, h.read_filled]
  cases hl with
  | same heq =>
      rw [heq]
      simp only [hplain, hbracketed]
  | behind _ hq hq' hafter =>
      obtain ⟨hnone, hnone'⟩ := hafter.step?_number s.plain
      rw [hq, hq', Option.bind_some, Option.bind_some, hplain, hbracketed, hnone, hnone']

/-- A tag with a sign is read to two places, which the characters behind it do not tell apart. -/
theorem readAlike_of_signed (h : Readable (l ++ tag s :: run.map char)) (hl : ReadAlike l)
    {lit : Text} (hplain : s.plain = '-' :: lit) (hlit : PlainNumeral lit) :
    ReadAlike (l ++ tag s :: run.map char) := by
  have hsigned : s.IsSigned := ⟨lit, hplain⟩
  cases hl with
  | @behind l' v n _ _ heq _ _ _ =>
      exact absurd trivial (h.before l' (tag v) n s (run.map char) (by simp [heq]) hsigned)
  | same heq =>
      cases hq : (Reading.before []).read (filled Suggestion.plain l) with
      | none =>
          refine .same ?_
          rw [h.read_filled, h.read_filled, ← heq, hq]
          rfl
      | some q =>
          obtain ⟨frames, rfl⟩ := h.exists_before hsigned _ hq
          obtain ⟨r, r', hr, hr', hafter⟩ := Reading.read_signed hlit frames
          have hread : (Reading.before []).read
              (filled Suggestion.plain (l ++ tag s :: run.map char)) = r.read run := by
            rw [h.read_filled, hq, Option.bind_some, hplain, hr, Option.bind_some]
          have hread' : (Reading.before []).read
              (filled Suggestion.bracketed (l ++ tag s :: run.map char)) = r'.read run := by
            rw [h.read_filled, ← heq, hq, Option.bind_some, Suggestion.bracketed, hplain, hr',
              Option.bind_some]
          have hallowed : ∀ c ∈ run, isAllowed c = true := fun c hc => h.allowed c (by simp [hc])
          have hpower : ∀ n rest, run ≠ List.replicate n ' ' ++ '^' :: rest := by
            intro n rest heq'
            exact h.power l s n (rest.map char) (by simp [heq']) hsigned
          rcases read_eq_of_afterValue hafter hallowed hpower with
            hsame | ⟨⟨n, rfl⟩, hstay, hstay'⟩
          · exact .same (by rw [hread, hread', hsame])
          · exact .behind (by rw [List.map_replicate]) (hread.trans hstay) (hread'.trans hstay')
              hafter

end Readable

/-- Whether values stand in parentheses or not, a readable row is read alike. The recursion goes
from the last tag to the cells before it. -/
theorem Readable.readAlike {cells : List Cell} (h : Readable cells) : ReadAlike cells := by
  rcases exists_last_tag cells with ⟨run, rfl⟩ | ⟨l, s, run, rfl⟩
  · exact .same (by rw [filled_map_char, filled_map_char])
  have hl : ReadAlike l := h.of_append_left.readAlike
  rcases (h.valid s (by simp)).plain_form with hlit | ⟨lit, hplain, hlit⟩
  · exact h.readAlike_of_numeral hl hlit
  · exact h.readAlike_of_signed hl hplain hlit
termination_by cells.length
decreasing_by
  simp only [*, List.length_append, List.length_cons]
  omega

/-! ## Values -/

theorem parse_eq_ok_iff_read {t : Text} {e : Expr} :
    parse t = .ok e ↔ ((Reading.before []).read t).bind Reading.finish? = some e := by
  rw [parse, parseFrom_eq_ok_iff, Option.bind_eq_some_iff]
  rfl

/-- Texts with the same tree, or both without one, have the same value or the same code. -/
theorem agree_of_parse_iff {t u : Text} (h : ∀ e, parse t = .ok e ↔ parse u = .ok e) :
    Agree (evaluateExpression t) (evaluateExpression u) := by
  rw [evaluateExpression, evaluateExpression]
  cases ht : parse t with
  | ok e =>
      rw [(h e).1 ht]
      cases hresult : e.result with
      | ok n => exact .inl ⟨n, hresult, hresult⟩
      | error a => exact .inr ⟨a, a, hresult, hresult, rfl⟩
  | error a =>
      cases hu : parse u with
      | ok e =>
          rw [(h e).2 hu] at ht
          exact nomatch ht
      | error b =>
          obtain ⟨fault, p, rfl⟩ := eq_malformed_of_parseFrom ht
          obtain ⟨fault', p', rfl⟩ := eq_malformed_of_parseFrom hu
          exact .inr ⟨_, _, rfl, rfl, rfl⟩

theorem ReadAlike.parse_eq_ok_iff {cells : List Cell} (h : ReadAlike cells) (e : Expr) :
    parse (filled Suggestion.plain cells) = .ok e ↔
      parse (filled Suggestion.bracketed cells) = .ok e := by
  rw [parse_eq_ok_iff_read, parse_eq_ok_iff_read]
  cases h with
  | same h => rw [h]
  | behind heq hq hq' hafter =>
      rw [hq, hq', Option.bind_some, Option.bind_some, hafter.finish?_eq]

/-- A readable row has the same value with and without parentheses, or neither is a formula. -/
theorem Readable.agree {cells : List Cell} (h : Readable cells) :
    Agree (evaluateExpression (filled Suggestion.plain cells))
      (evaluateExpression (filled Suggestion.bracketed cells)) :=
  agree_of_parse_iff h.readAlike.parse_eq_ok_iff

end Cell

namespace Buffer

open Cell

namespace Layout

variable {b : Buffer} {cells : List Cell}

/-- Without tags there is nothing to fill in. -/
theorem filled_of_tags_eq_nil (h : b.Layout cells) (hnil : b.tags = []) (f : Suggestion → Text) :
    b.filled f = b.text := by
  rcases exists_last_tag cells with ⟨run, rfl⟩ | ⟨l, s, run, rfl⟩
  · rw [h.filled_eq, filled_map_char, h.text_eq, contents_map_char]
  · have hmem : Tag.ofSuggestion s (extent l) ∈ b.tags := h.mem_tags_iff.2 ⟨l, _, rfl, rfl⟩
    rw [hnil] at hmem
    exact nomatch hmem

/-- A text that is not blank is not blank with its variables filled in. -/
theorem filled_not_blank (h : b.Layout cells) {f : Suggestion → Text} (hf : SolidIn cells f)
    (hblank : Text.isBlank b.text = false) : Text.isBlank (b.filled f) = false := by
  rcases exists_last_tag cells with ⟨run, rfl⟩ | ⟨l, s, run, rfl⟩
  · rwa [h.filled_eq, filled_map_char, ← contents_map_char run, ← h.text_eq]
  · have hs := (hf s (by simp)).not_blank
    rw [h.filled_eq, filled_append, filled_cons, Text.isBlank_append, Text.isBlank_append, written,
      hs, Bool.false_and, Bool.and_false]

theorem alike_calculate (h : b.Layout cells) (hsep : Separated cells) (hsigns : SignsApart cells)
    (hblank : Text.isBlank b.text = false) :
    (Formula.calculate b.text b.tags).Alike
      (Formula.calculate (b.filled Suggestion.bracketed) []) := by
  have hplain : SolidIn cells Suggestion.plain := fun s hs => (h.wellFormed.valid s hs).solid_plain
  have hbracketed : SolidIn cells Suggestion.bracketed := fun s hs =>
    (h.wellFormed.valid s hs).solid_bracketed
  have hnone : substitute (b.filled Suggestion.bracketed) [] =
      .ok (b.filled Suggestion.bracketed) := by
    rw [substitute, Tag.descending, List.mergeSort_nil]
    rfl
  obtain ⟨cells', hstripped⟩ := exists_stripped cells
  rw [calculate_eq_conclude, calculate_eq_conclude,
    prepare_eq_settle hblank (h.substitute_eq (List.Perm.refl _)),
    prepare_eq_settle (h.filled_not_blank hbracketed hblank) hnone, h.filled_eq, h.filled_eq]
  refine alike_settled hstripped hplain hbracketed fun hallowed => ?_
  exact (hstripped.readable h.wellFormed.valid hsep hsigns hallowed).agree

end Layout

/-- After every run of edits in which each tag is kept apart from digits, points and other tags, no
signed value stands behind an operand or before a power, and the text is not blank unless it has
no tags: the formula has the value, or the error code, of the formula in which every tag is
replaced by its value in parentheses. -/
theorem value_as_operand (ops : List Operation) (hsep : Separated (after ops).cells)
    (hsigns : SignsApart (after ops).cells)
    (hblank : Text.isBlank (after ops).text = true → (after ops).tags = []) :
    let e := Formula.calculate (after ops).text (after ops).tags
    let e' := Formula.calculate ((after ops).filled Suggestion.bracketed) []
    e.number? = e'.number? ∧ e.error?.map (·.code) = e'.error?.map (·.code) := by
  obtain ⟨cells, h⟩ := layout_after ops
  rw [h.cells_eq] at hsep hsigns
  intro e e'
  have halike : e.Alike e' := by
    cases hb : Text.isBlank (after ops).text with
    | false => exact h.alike_calculate hsep hsigns hb
    | true =>
        have hnil := hblank hb
        have he : e = e' := by
          simp only [e, e', hnil, h.filled_of_tags_eq_nil hnil]
        exact he ▸ .refl e
  exact ⟨halike.number, halike.code⟩

/-! ## Formulas with one tag -/

/-- A formula with one tag, and text on both sides. -/
def single (u : Text) (s : ValidSuggestion) (v : Text) : List Operation :=
  [.insertText 0 u, .insertTag s u.length, .insertText (u.length + s.val.name.length) v]

theorem layout_single (u : Text) (s : ValidSuggestion) (v : Text) :
    (after (single u s v)).Layout (u.map char ++ tag s.val :: v.map char) := by
  have htext : (empty.perform (.insertText 0 u)).Layout (u.map char ++ []) := by
    simpa using layout_empty.perform_insertText (l := []) (r := []) u
  have htag : ((empty.perform (.insertText 0 u)).perform (.insertTag s u.length)).Layout
      ((u.map char ++ [tag s.val]) ++ []) := by
    simpa using htext.perform_insertTag s (by simp)
  have hrest := htag.perform_insertText v
  simpa [single, after] using hrest

/-- A row with one tag is parted at the tag in one way. -/
theorem eq_of_single {u v : Text} {s t : Suggestion} {l r : List Cell}
    (h : u.map char ++ tag s :: v.map char = l ++ tag t :: r) :
    l = u.map char ∧ t = s ∧ r = v.map char := by
  induction u generalizing l with
  | nil =>
      cases l with
      | nil =>
          obtain ⟨ht, hr⟩ := List.cons.inj h
          exact ⟨rfl, (tag.inj ht).symm, hr.symm⟩
      | cons c l =>
          have hmem : tag t ∈ v.map char := by rw [(List.cons.inj h).2]; simp
          simp at hmem
  | cons x u ih =>
      cases l with
      | nil => exact nomatch (List.cons.inj h).1
      | cons c l =>
          obtain ⟨hc, hrest⟩ := List.cons.inj h
          obtain ⟨rfl, ht, hr⟩ := ih hrest
          exact ⟨by rw [← hc, List.map_cons], ht, hr⟩

theorem separated_single {u v : Text} {s : Suggestion}
    (hu : u.getLast?.all (fun x => !x.isDigit && x != '.') = true)
    (hv : v.head?.all (fun x => !x.isDigit && x != '.') = true) :
    Separated (u.map char ++ tag s :: v.map char) where
  left l c t r heq := by
    have heq' : u.map char ++ tag s :: v.map char = (l ++ [c]) ++ tag t :: r := by rw [heq]; simp
    obtain ⟨hl, -, -⟩ := eq_of_single heq'
    have hlast := congrArg List.getLast? hl
    rw [List.getLast?_concat, List.getLast?_map] at hlast
    obtain ⟨x, hx, rfl⟩ := Option.map_eq_some_iff.1 hlast.symm
    simpa [Separates, hx] using hu
  right l t c r heq := by
    obtain ⟨-, -, hr⟩ := eq_of_single heq
    have hhead := congrArg List.head? hr
    rw [List.head?_cons, List.head?_map] at hhead
    obtain ⟨x, hx, rfl⟩ := Option.map_eq_some_iff.1 hhead.symm
    simpa [Separates, hx] using hv

/-- A sign between other operators than a power is kept apart. -/
theorem signsApart_single {u v : Text} {s : Suggestion}
    (hu : ∀ x ∈ u.getLast?, x ≠ ' ' ∧ ¬ (char x).EndsOperand)
    (hv : ∀ x ∈ v.head?, x ≠ ' ' ∧ x ≠ '^') :
    SignsApart (u.map char ++ tag s :: v.map char) where
  before l c n t r heq _ := by
    have heq' : u.map char ++ tag s :: v.map char =
        (l ++ c :: List.replicate n (char ' ')) ++ tag t :: r := by rw [heq]; simp
    obtain ⟨hl, -, -⟩ := eq_of_single heq'
    have hlast := congrArg List.getLast? hl
    rw [List.getLast?_map] at hlast
    cases n with
    | zero =>
        rw [List.replicate_zero, List.getLast?_concat] at hlast
        obtain ⟨x, hx, rfl⟩ := Option.map_eq_some_iff.1 hlast.symm
        exact (hu x hx).2
    | succ n =>
        have hspace : (l ++ c :: List.replicate (n + 1) (char ' ')).getLast? = some (char ' ') := by
          rw [List.replicate_succ', ← List.cons_append, ← List.append_assoc, List.getLast?_concat]
        rw [hspace] at hlast
        obtain ⟨x, hx, hxs⟩ := Option.map_eq_some_iff.1 hlast.symm
        exact absurd (char.inj hxs) (hu x hx).1
  after l t n r heq _ := by
    obtain ⟨-, -, hr⟩ := eq_of_single heq
    have hhead := congrArg List.head? hr
    rw [List.head?_map] at hhead
    cases n with
    | zero =>
        obtain ⟨x, hx, hxs⟩ := Option.map_eq_some_iff.1 hhead.symm
        exact absurd (char.inj hxs) (hv x hx).2
    | succ n =>
        obtain ⟨x, hx, hxs⟩ := Option.map_eq_some_iff.1 hhead.symm
        exact absurd (char.inj hxs) (hv x hx).1

/-- A value with a sign. -/
def loss : ValidSuggestion :=
  ⟨⟨1, "A".toList, -3⟩, (Suggestion.faults_eq_nil_iff _).1 (by decide +kernel)⟩

theorem value_as_operand_in_product :
    let b := after (single "2*".toList loss "+1".toList)
    Separated b.cells ∧ SignsApart b.cells ∧ Text.isBlank b.text = false ∧
      b.filled Suggestion.bracketed = "2*(-3)+1".toList ∧
      (Formula.calculate b.text b.tags).number? =
        (Formula.calculate "2*(-3)+1".toList []).number? := by
  intro b
  have h := layout_single "2*".toList loss "+1".toList
  have hsep : Separated b.cells := by
    rw [h.cells_eq]
    exact separated_single (by decide) (by decide)
  have hsigns : SignsApart b.cells := by
    rw [h.cells_eq]
    exact signsApart_single (by simp [EndsOperand]) (by simp)
  have htext : b.text = "2*A+1".toList := h.text_eq
  have hblank : Text.isBlank b.text = false := by rw [htext]; decide
  have hfilled : b.filled Suggestion.bracketed = "2*(-3)+1".toList := by
    rw [h.filled_eq]
    decide +kernel
  have hvalue := value_as_operand _ hsep hsigns (by rw [hblank]; exact nofun)
  rw [hfilled] at hvalue
  exact ⟨hsep, hsigns, hblank, hfilled, hvalue.1⟩

/-- A value whose name is blank. -/
def gap : ValidSuggestion :=
  ⟨⟨2, " ".toList, 5⟩, (Suggestion.faults_eq_nil_iff _).1 (by decide +kernel)⟩

/-- Each tag is kept apart, but the formula has another value with its values in parentheses. -/
def Regroups (b : Buffer) : Prop :=
  Separated b.cells ∧
    (Formula.calculate b.text b.tags).number? ≠
      (Formula.calculate (b.filled Suggestion.bracketed) []).number?

theorem regroups_single {u v : Text} {s : ValidSuggestion}
    (hu : u.getLast?.all (fun x => !x.isDigit && x != '.') = true)
    (hv : v.head?.all (fun x => !x.isDigit && x != '.') = true)
    (hne : let b := after (single u s v)
      (Formula.calculate b.text b.tags).number?.map Number.plain? ≠
        (Formula.calculate (b.filled Suggestion.bracketed) []).number?.map Number.plain?) :
    Regroups (after (single u s v)) := by
  refine ⟨?_, fun heq => hne (congrArg (·.map Number.plain?) heq)⟩
  rw [(layout_single u s v).cells_eq]
  exact separated_single hu hv

/-- Before a power, behind an operand, and where the name is blank, parentheses do make a
difference. -/
theorem value_regroups :
    Regroups (after (single [] loss "^0".toList)) ∧
      Regroups (after (single "2 ".toList loss [])) ∧
      Regroups (after (single [] gap [])) :=
  ⟨regroups_single (by decide) (by decide) (by decide +kernel),
    regroups_single (by decide) (by decide) (by decide +kernel),
    regroups_single (by decide) (by decide) (by decide +kernel)⟩

end Buffer

end TagFormula
