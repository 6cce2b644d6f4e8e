import Mathlib.Data.List.Induction
import TagFormula.Formula.Evaluation
import TagFormula.Proofs.Buffer.Rendering

/-!
# Preparing a formula does not look into its variables

After substitution the text is checked for balance, a dangling operator is dropped, and
what is left may be blank or hold characters that do not belong to arithmetic. The
variables of a row can be written in many ways without a difference to any of these
steps. It is enough that every variable is written as a `Solid` text: with characters
of arithmetic, balanced in itself, and not ending in a blank or an operator. So a
dangling operator is one of the row, not of a value, and dropping it leaves a shorter
row (`Stripped`).

Two ways of writing the variables then give the same outcome as soon as what reaches
the parser is evaluated alike (`Cell.alike_settled`).
-/

namespace TagFormula

namespace Formula

/-! ## Balance -/

/-- The number of open parentheses behind a text that begins inside `depth` of them, if no closing
one lacks its partner. -/
def balance (depth : Nat) (t : Text) : Option Nat :=
  (balanceFrom 0 depth t).toOption

/-- Where a text begins matters only to the position that is reported. -/
theorem toOption_balanceFrom (p depth : Nat) (t : Text) :
    (balanceFrom p depth t).toOption = balance depth t := by
  suffices h : ∀ q, (balanceFrom p depth t).toOption = (balanceFrom q depth t).toOption from h 0
  intro q
  induction t generalizing p q depth with
  | nil => rfl
  | cons c t ih =>
      by_cases ho : c = '('
      · simp only [balanceFrom, if_pos ho]
        exact ih _ _ _
      by_cases hc : c = ')'
      · cases depth with
        | zero => simp only [balanceFrom, if_neg ho, if_pos hc, Except.toOption]
        | succ depth =>
            simp only [balanceFrom, if_neg ho, if_pos hc]
            exact ih _ _ _
      · simp only [balanceFrom, if_neg ho, if_neg hc]
        exact ih _ _ _

theorem balance_cons (depth : Nat) (c : Char) (t : Text) :
    balance depth (c :: t) = (balance depth [c]).bind (balance · t) := by
  simp only [balance, balanceFrom]
  split
  · exact toOption_balanceFrom _ _ _
  split
  · cases depth with
    | zero => rfl
    | succ depth => exact toOption_balanceFrom _ _ _
  · exact toOption_balanceFrom _ _ _

theorem balance_append (depth : Nat) (s t : Text) :
    balance depth (s ++ t) = (balance depth s).bind (balance · t) := by
  induction s generalizing depth with
  | nil => rfl
  | cons c s ih =>
      rw [List.cons_append, balance_cons, balance_cons depth c s, Option.bind_assoc]
      exact congrArg _ (funext fun d => ih d)

/-- Characters other than parentheses leave the balance alone. -/
theorem balance_of_forall {t : Text} (h : ∀ c ∈ t, c ≠ '(' ∧ c ≠ ')') (depth : Nat) :
    balance depth t = some depth := by
  induction t with
  | nil => rfl
  | cons c t ih =>
      obtain ⟨ho, hc⟩ := h c (List.mem_cons_self ..)
      have hone : balance depth [c] = some depth := by
        simp only [balance, balanceFrom, if_neg ho, if_neg hc]
        rfl
      rw [balance_cons, hone]
      exact ih fun d hd => h d (List.mem_cons_of_mem _ hd)

theorem checkParentheses_eq_ok_iff {t : Text} :
    checkParentheses t = .ok () ↔ balance 0 t = some 0 := by
  rw [checkParentheses, balance]
  cases balanceFrom 0 0 t with
  | error p => simp [Except.toOption]
  | ok depth => cases depth <;> simp [Except.toOption]

theorem code_of_checkParentheses {t : Text} (h : balance 0 t ≠ some 0) :
    ∃ err, checkParentheses t = .error err ∧ err.code = "unbalanced_parentheses" := by
  cases hcheck : checkParentheses t with
  | ok _ => exact absurd (checkParentheses_eq_ok_iff.1 hcheck) h
  | error err =>
      refine ⟨err, rfl, ?_⟩
      rw [checkParentheses] at hcheck
      split at hcheck
      · exact nomatch hcheck
      · rw [← Except.error.inj hcheck]
        rfl
      · rw [← Except.error.inj hcheck]
        rfl

/-! ## Dangling operators -/

theorem not_blank_of_trailing {c : Char} (h : isTrailingOperator c = true) :
    Text.isBlankChar c = false := by
  have hcases : c = '+' ∨ c = '-' ∨ c = '*' ∨ c = '/' ∨ c = '^' := by
    simpa [isTrailingOperator, or_assoc] using h
  rcases hcases with rfl | rfl | rfl | rfl | rfl <;> decide

theorem stripEnd_concat {c : Char} (hc : Text.isBlankChar c = false) (t blanks : Text)
    (hblanks : Text.isBlank blanks = true) :
    Text.stripEnd (t ++ c :: blanks) = t ++ [c] := by
  have happend : t ++ c :: blanks = (t ++ [c]) ++ blanks := by simp
  rw [happend, Text.stripEnd_append_blank hblanks, Text.stripEnd, List.reverse_append,
    List.reverse_singleton, List.singleton_append, List.dropWhile_cons_of_neg (by simp [hc])]
  simp

theorem stripTrailingOperator_concat {c : Char} (hc : Text.isBlankChar c = false)
    (t blanks : Text) (hblanks : Text.isBlank blanks = true) :
    stripTrailingOperator (t ++ c :: blanks) =
      if isTrailingOperator c then t else t ++ c :: blanks := by
  rw [stripTrailingOperator, stripEnd_concat hc t blanks hblanks, List.getLast?_concat]
  simp only [List.dropLast_concat]

theorem stripTrailingOperator_of_blank {t : Text} (h : Text.isBlank t = true) :
    stripTrailingOperator t = t := by
  have hstrip := Text.stripEnd_append_blank (t := []) h
  rw [List.nil_append] at hstrip
  rw [stripTrailingOperator, hstrip]
  rfl

/-! ## Characters of arithmetic -/

theorem isAllowed_of_mem {t : Text} (h : invalidCharacters t = []) {c : Char} (hc : c ∈ t) :
    isAllowed c = true := by
  refine Classical.byContradiction fun hno => ?_
  have hinvalid : c ∈ invalidCharacters t := by
    rw [invalidCharacters, List.mem_eraseDups, List.mem_filter]
    exact ⟨hc, by simpa using hno⟩
  rw [h] at hinvalid
  exact nomatch hinvalid

/-! ## Solid texts -/

/-- A text that preparation passes over. -/
structure Solid (t : Text) : Prop where
  allowed : ∀ c ∈ t, isAllowed c = true
  balanced : ∀ depth, balance depth t = some depth
  last : ∃ l c, t = l ++ [c] ∧ Text.isBlankChar c = false ∧ isTrailingOperator c = false

theorem Solid.ne_nil {t : Text} (h : Solid t) : t ≠ [] := by
  obtain ⟨l, c, rfl, -⟩ := h.last
  simp

theorem Solid.not_blank {t : Text} (h : Solid t) : Text.isBlank t = false := by
  obtain ⟨l, c, rfl, hc, -⟩ := h.last
  rw [Text.isBlank_append, Text.isBlank_cons, hc]
  simp

end Formula

namespace Cell

open Formula

/-- Every variable of the row is written as a solid text. -/
def SolidIn (cells : List Cell) (f : Suggestion → Text) : Prop :=
  ∀ s, tag s ∈ cells → Solid (f s)

/-- The cell is a blank character. -/
def IsBlank : Cell → Prop
  | char c => Text.isBlankChar c = true
  | tag _ => False

/-- The row without a dangling operator and the blanks after it. -/
inductive Stripped (cells : List Cell) : List Cell → Prop
  | dangling {l : List Cell} {op : Char} {blanks : Text}
      (heq : cells = l ++ char op :: blanks.map char) (hop : isTrailingOperator op = true)
      (hblanks : Text.isBlank blanks = true) : Stripped cells l
  | whole (hno : ∀ (l : List Cell) (op : Char) (blanks : Text),
      cells = l ++ char op :: blanks.map char → Text.isBlank blanks = true →
        isTrailingOperator op = false) : Stripped cells cells

theorem exists_stripped (cells : List Cell) : ∃ cells', Stripped cells cells' := by
  by_cases h : ∃ (l : List Cell) (op : Char) (blanks : Text),
      cells = l ++ char op :: blanks.map char ∧ isTrailingOperator op = true ∧
        Text.isBlank blanks = true
  · obtain ⟨l, op, blanks, heq, hop, hblanks⟩ := h
    exact ⟨l, .dangling heq hop hblanks⟩
  · refine ⟨cells, .whole fun l op blanks heq hblanks => Bool.eq_false_iff.2 fun hop => ?_⟩
    exact h ⟨l, op, blanks, heq, hop, hblanks⟩

theorem Stripped.prefix {cells cells' : List Cell} (h : Stripped cells cells') :
    ∃ rest, cells = cells' ++ rest := by
  cases h with
  | dangling heq hop hblanks => exact ⟨_, heq⟩
  | whole hno => exact ⟨[], (List.append_nil _).symm⟩

/-- The cells with a property that stand at the end of a row. -/
theorem exists_trailing (p : Cell → Prop) (cells : List Cell) :
    ∃ l m, cells = l ++ m ∧ (∀ c ∈ m, p c) ∧ ∀ l' c, l = l' ++ [c] → ¬ p c := by
  induction cells using List.reverseRecOn with
  | nil => exact ⟨[], [], rfl, by simp, by simp⟩
  | append_singleton cells c ih =>
      by_cases hc : p c
      · obtain ⟨l, m, rfl, hm, hlast⟩ := ih
        refine ⟨l, m ++ [c], by simp, fun d hd => ?_, hlast⟩
        rcases List.mem_append.1 hd with hd | hd
        · exact hm d hd
        · rwa [List.mem_singleton.1 hd]
      · refine ⟨cells ++ [c], [], by simp, by simp, fun l' c' heq => ?_⟩
        rwa [← (List.append_singleton_inj.1 heq).2]

/-- Blank cells are the characters of a blank text. -/
theorem exists_text_of_blank {cells : List Cell} (h : ∀ c ∈ cells, c.IsBlank) :
    ∃ blanks : Text, cells = blanks.map char ∧ Text.isBlank blanks = true := by
  induction cells with
  | nil => exact ⟨[], rfl, rfl⟩
  | cons c cells ih =>
      obtain ⟨blanks, rfl, hblanks⟩ := ih fun d hd => h d (List.mem_cons_of_mem _ hd)
      cases c with
      | char c =>
          have hc : Text.isBlankChar c = true := h (char c) (List.mem_cons_self ..)
          exact ⟨c :: blanks, rfl, by rw [Text.isBlank_cons, hc, hblanks]; rfl⟩
      | tag s => exact absurd (h (tag s) (List.mem_cons_self ..)) id

section

variable {f g : Suggestion → Text} {cells cells' : List Cell}

theorem SolidIn.of_append_left {l r : List Cell} (h : SolidIn (l ++ r) f) : SolidIn l f :=
  fun s hs => h s (List.mem_append_left _ hs)

theorem Stripped.solidIn (h : Stripped cells cells') (hf : SolidIn cells f) :
    SolidIn cells' f := by
  obtain ⟨rest, rfl⟩ := h.prefix
  exact hf.of_append_left

/-- Dropping a dangling operator from the text drops it from the row. -/
theorem Stripped.stripTrailingOperator_filled (h : Stripped cells cells')
    (hf : SolidIn cells f) : stripTrailingOperator (filled f cells) = filled f cells' := by
  cases h with
  | @dangling _ op blanks heq hop hblanks =>
      have htext : filled f cells = filled f cells' ++ op :: blanks := by
        rw [heq, filled_append, filled_cons, filled_map_char]
        rfl
      rw [htext, stripTrailingOperator_concat (not_blank_of_trailing hop) _ _ hblanks, if_pos hop]
  | whole hno =>
      obtain ⟨l, m, heq, hm, hlast⟩ := exists_trailing IsBlank cells
      obtain ⟨blanks, rfl, hblanks⟩ := exists_text_of_blank hm
      rcases List.eq_nil_or_concat l with hnil | ⟨l', c, hl⟩
      · have htext : filled f cells = blanks := by
          rw [heq, hnil, List.nil_append, filled_map_char]
        rw [htext]
        exact stripTrailingOperator_of_blank hblanks
      rw [List.concat_eq_append] at hl
      cases c with
      | char c =>
          have hc : Text.isBlankChar c = false := Bool.eq_false_iff.2 (hlast l' (char c) hl)
          have heq' : cells = l' ++ char c :: blanks.map char := by rw [heq, hl]; simp
          have htext : filled f cells = filled f l' ++ c :: blanks := by
            rw [heq', filled_append, filled_cons, filled_map_char]
            rfl
          rw [htext, stripTrailingOperator_concat hc _ _ hblanks,
            hno l' c blanks heq' hblanks]
          rfl
      | tag s =>
          have heq' : cells = l' ++ tag s :: blanks.map char := by rw [heq, hl]; simp
          obtain ⟨w, c, hw, hc, hop⟩ := (hf s (by rw [heq']; simp)).last
          have htext : filled f cells = (filled f l' ++ w) ++ c :: blanks := by
            rw [heq', filled_append, filled_cons, filled_map_char, written, hw]
            simp
          rw [htext, stripTrailingOperator_concat hc _ _ hblanks, hop]
          rfl

theorem balance_filled (hf : SolidIn cells f) (hg : SolidIn cells g) (depth : Nat) :
    balance depth (filled f cells) = balance depth (filled g cells) := by
  induction cells generalizing depth with
  | nil => rfl
  | cons c cells ih =>
      have ih' := ih (fun s hs => hf s (List.mem_cons_of_mem _ hs))
        fun s hs => hg s (List.mem_cons_of_mem _ hs)
      rw [filled_cons, filled_cons, balance_append, balance_append]
      cases c with
      | char c => exact congrArg _ (funext ih')
      | tag s =>
          have hfs : balance depth ((tag s).written f) = some depth :=
            (hf s (List.mem_cons_self ..)).balanced depth
          have hgs : balance depth ((tag s).written g) = some depth :=
            (hg s (List.mem_cons_self ..)).balanced depth
          rw [hfs, hgs]
          exact ih' depth

theorem isBlank_filled (hf : SolidIn cells f) (hg : SolidIn cells g) :
    Text.isBlank (filled f cells) = Text.isBlank (filled g cells) := by
  induction cells with
  | nil => rfl
  | cons c cells ih =>
      have ih' := ih (fun s hs => hf s (List.mem_cons_of_mem _ hs))
        fun s hs => hg s (List.mem_cons_of_mem _ hs)
      rw [filled_cons, filled_cons, Text.isBlank_append, Text.isBlank_append, ih']
      cases c with
      | char c => rfl
      | tag s =>
          have hfs : Text.isBlank ((tag s).written f) = false :=
            (hf s (List.mem_cons_self ..)).not_blank
          have hgs : Text.isBlank ((tag s).written g) = false :=
            (hg s (List.mem_cons_self ..)).not_blank
          rw [hfs, hgs]

theorem filter_filled (hf : SolidIn cells f) :
    (filled f cells).filter (fun c => !isAllowed c) =
      (filled (fun _ => []) cells).filter (fun c => !isAllowed c) := by
  induction cells with
  | nil => rfl
  | cons c cells ih =>
      have ih' := ih fun s hs => hf s (List.mem_cons_of_mem _ hs)
      rw [filled_cons, filled_cons, List.filter_append, List.filter_append, ih']
      cases c with
      | char c => rfl
      | tag s =>
          have hnil : (f s).filter (fun c => !isAllowed c) = [] := by
            refine List.filter_eq_nil_iff.2 fun c hc => ?_
            simp [(hf s (List.mem_cons_self ..)).allowed c hc]
          exact congrArg (· ++ _) hnil

/-- Characters that are not allowed are characters of the row. -/
theorem invalidCharacters_filled (hf : SolidIn cells f) (hg : SolidIn cells g) :
    invalidCharacters (filled f cells) = invalidCharacters (filled g cells) := by
  rw [invalidCharacters, invalidCharacters, filter_filled hf, filter_filled hg]

/-- Where all characters are allowed, those of the row are. -/
theorem isAllowed_of_invalidCharacters (h : invalidCharacters (filled f cells) = []) {c : Char}
    (hc : char c ∈ cells) : isAllowed c = true :=
  isAllowed_of_mem h (List.mem_flatMap.2 ⟨char c, hc, List.mem_singleton_self c⟩)

end

end Cell

/-! ## Outcomes -/

namespace Formula

/-- What preparation makes of a text in which the tags have been replaced. -/
def settle (t : Text) : Except FormulaError (Option Text) := do
  checkParentheses t
  let expression := stripTrailingOperator t
  if Text.isBlank expression then return none
  match invalidCharacters expression with
  | [] => return some expression
  | characters => throw (.invalidCharacters characters)

/-- The outcome of a formula that has been prepared. -/
def conclude : Except FormulaError (Option Text) → Evaluation
  | .ok none => .blank
  | .ok (some expression) =>
    match evaluateExpression expression with
    | .ok number => .value number expression
    | .error error => .failure error (some expression)
  | .error error => .failure error none

theorem calculate_eq_conclude (t : Text) (tags : List Tag) :
    calculate t tags = conclude (prepare t tags) := rfl

theorem prepare_eq_settle {t out : Text} {tags : List Tag} (hblank : Text.isBlank t = false)
    (h : substitute t tags = .ok out) : prepare t tags = settle out := by
  rw [prepare, hblank, h]
  rfl

theorem settle_of_unbalanced {t : Text} (h : balance 0 t ≠ some 0) :
    ∃ err, settle t = .error err ∧ err.code = "unbalanced_parentheses" := by
  obtain ⟨err, hcheck, hcode⟩ := code_of_checkParentheses h
  exact ⟨err, by rw [settle, hcheck]; rfl, hcode⟩

theorem settle_of_balanced {t : Text} (h : balance 0 t = some 0) :
    settle t =
      if Text.isBlank (stripTrailingOperator t) then .ok none
      else
        match invalidCharacters (stripTrailingOperator t) with
        | [] => .ok (some (stripTrailingOperator t))
        | characters => .error (.invalidCharacters characters) := by
  rw [settle, checkParentheses_eq_ok_iff.2 h]
  rfl

/-- The same value, or errors with the same code. -/
def Agree (x y : Except FormulaError Number) : Prop :=
  (∃ n, x = .ok n ∧ y = .ok n) ∨ ∃ a b, x = .error a ∧ y = .error b ∧ a.code = b.code

end Formula

/-- The same value, or the same error code, or neither. -/
structure Evaluation.Alike (e e' : Evaluation) : Prop where
  number : e.number? = e'.number?
  code : e.error?.map FormulaError.code = e'.error?.map FormulaError.code

theorem Evaluation.Alike.refl (e : Evaluation) : e.Alike e :=
  ⟨rfl, rfl⟩

namespace Cell

open Formula

/-- Preparation gives the same outcome for two solid ways of writing the variables, if the
expressions that it comes to are evaluated alike. -/
theorem alike_settled {f g : Suggestion → Text} {cells cells' : List Cell}
    (h : Stripped cells cells') (hf : SolidIn cells f) (hg : SolidIn cells g)
    (hagree : (∀ c, char c ∈ cells' → isAllowed c = true) →
      Agree (evaluateExpression (filled f cells')) (evaluateExpression (filled g cells'))) :
    (conclude (settle (filled f cells))).Alike (conclude (settle (filled g cells))) := by
  have hbalance := balance_filled hf hg 0
  by_cases hzero : balance 0 (filled f cells) = some 0
  · have hblank := isBlank_filled (h.solidIn hf) (h.solidIn hg)
    have hinvalid := invalidCharacters_filled (h.solidIn hf) (h.solidIn hg)
    rw [settle_of_balanced hzero, settle_of_balanced (hbalance ▸ hzero),
      h.stripTrailingOperator_filled hf, h.stripTrailingOperator_filled hg, ← hblank, ← hinvalid]
    split
    · exact .refl _
    cases hchars : invalidCharacters (filled f cells') with
    | cons c chars => exact .refl _
    | nil =>
        simp only [conclude]
        obtain ⟨n, hx, hy⟩ | ⟨a, b, hx, hy, hcode⟩ :=
          hagree fun c hc => isAllowed_of_invalidCharacters hchars hc
        · rw [hx, hy]
          exact ⟨rfl, rfl⟩
        · rw [hx, hy]
          exact ⟨rfl, congrArg some hcode⟩
  · obtain ⟨a, ha, hcode⟩ := settle_of_unbalanced hzero
    obtain ⟨b, hb, hcode'⟩ := settle_of_unbalanced (hbalance ▸ hzero)
    rw [ha, hb]
    exact ⟨rfl, congrArg some (hcode.trans hcode'.symm)⟩

end Cell

end TagFormula
