import TagFormula.Proofs.Formula.Literals
import TagFormula.Proofs.Formula.Parsing
import TagFormula.Proofs.Formula.Values

/-!
# Preparation is transparent to formulas

What the parser accepts passes through preparation as it is. The parentheses of a
derivation are nested, and they are the parentheses of the text. A derivation ends in a
number or a closing parenthesis, so the text ends in a character that is neither blank nor
an operator, spaces aside; nothing of it is dropped, and it is not blank. An operator put
behind it, with any blanks, is the one that is dropped.

Both facts are shown for lists of tokens first, by induction on the derivation, and carried
over to texts by induction on how they divide into tokens.
-/

namespace TagFormula

namespace Token

/-! ## Tokens of a derivation -/

/-- The number of open parentheses behind a token, if it does not close one too many. -/
def depthAfter (depth : Nat) : Token → Option Nat
  | opening => some (depth + 1)
  | closing => if depth = 0 then none else some (depth - 1)
  | _ => some depth

/-- The tokens that an operand can end with. -/
inductive EndsOperand : Token → Prop
  | number (literal : Text) : EndsOperand (number literal)
  | closing : EndsOperand closing

end Token

namespace Derives

open Token

variable {c : Category} {ts : List Token} {e : Expr}

/-- An operator between two parts that are nested in themselves. -/
theorem foldlM_depthAfter_operator {ls rs : List Token} (op : Operator)
    (hl : ∀ depth, ls.foldlM depthAfter depth = some depth)
    (hr : ∀ depth, rs.foldlM depthAfter depth = some depth) (depth : Nat) :
    (ls ++ op.token :: rs).foldlM depthAfter depth = some depth := by
  have hop : depthAfter depth op.token = some depth := by
    cases op <;> rfl
  rw [List.foldlM_append, hl]
  show (op.token :: rs).foldlM depthAfter depth = some depth
  rw [List.foldlM_cons, hop]
  exact hr depth

/-- The parentheses of a derivation are nested. -/
theorem foldlM_depthAfter (h : Derives c ts e) (depth : Nat) :
    ts.foldlM depthAfter depth = some depth := by
  induction h generalizing depth with
  | term h ih => exact ih depth
  | factor h ih => exact ih depth
  | power h ih => exact ih depth
  | base h ih => exact ih depth
  | add hl hr ihl ihr => exact foldlM_depthAfter_operator .add ihl ihr depth
  | sub hl hr ihl ihr => exact foldlM_depthAfter_operator .sub ihl ihr depth
  | mul hl hr ihl ihr => exact foldlM_depthAfter_operator .mul ihl ihr depth
  | div hl hr ihl ihr => exact foldlM_depthAfter_operator .div ihl ihr depth
  | pow hl hr ihl ihr => exact foldlM_depthAfter_operator .pow ihl ihr depth
  | neg h ih => exact ih depth
  | pos h ih => exact ih depth
  | number literal => rfl
  | @group ts e h ih =>
      show (ts ++ [closing]).foldlM depthAfter (depth + 1) = some depth
      rw [List.foldlM_append, ih]
      rfl

/-- A derivation ends with the end of an operand. -/
theorem exists_last (h : Derives c ts e) :
    ∃ front last, ts = front ++ [last] ∧ EndsOperand last := by
  have hbehind {rs : List Token} (ls : List Token) (token : Token)
      (hr : ∃ front last, rs = front ++ [last] ∧ EndsOperand last) :
      ∃ front last, ls ++ token :: rs = front ++ [last] ∧ EndsOperand last := by
    obtain ⟨front, last, rfl, hlast⟩ := hr
    exact ⟨ls ++ token :: front, last, by simp, hlast⟩
  induction h with
  | term h ih => exact ih
  | factor h ih => exact ih
  | power h ih => exact ih
  | base h ih => exact ih
  | add hl hr ihl ihr => exact hbehind _ .plus ihr
  | sub hl hr ihl ihr => exact hbehind _ .minus ihr
  | mul hl hr ihl ihr => exact hbehind _ .times ihr
  | div hl hr ihl ihr => exact hbehind _ .slash ihr
  | pow hl hr ihl ihr => exact hbehind _ .caret ihr
  | neg h ih => exact hbehind [] .minus ih
  | pos h ih => exact hbehind [] .plus ih
  | number literal => exact ⟨[], _, rfl, .number literal⟩
  | @group ts e h ih => exact ⟨.opening :: ts, _, rfl, .closing⟩

/-- The numbers of the tree are among the tokens. -/
theorem number_mem (h : Derives c ts e) {literal : Text} (hlit : literal ∈ e.literals) :
    .number literal ∈ ts := by
  have hbinary {ls rs : List Token} (token : Token)
      (h : .number literal ∈ ls ∨ .number literal ∈ rs) :
      .number literal ∈ ls ++ token :: rs := by
    rcases h with h | h
    · exact List.mem_append_left _ h
    · exact List.mem_append_right _ (List.mem_cons_of_mem _ h)
  induction h with
  | term h ih => exact ih hlit
  | factor h ih => exact ih hlit
  | power h ih => exact ih hlit
  | base h ih => exact ih hlit
  | add hl hr ihl ihr => exact hbinary .plus ((List.mem_append.1 hlit).imp ihl ihr)
  | sub hl hr ihl ihr => exact hbinary .minus ((List.mem_append.1 hlit).imp ihl ihr)
  | mul hl hr ihl ihr => exact hbinary .times ((List.mem_append.1 hlit).imp ihl ihr)
  | div hl hr ihl ihr => exact hbinary .slash ((List.mem_append.1 hlit).imp ihl ihr)
  | pow hl hr ihl ihr => exact hbinary .caret ((List.mem_append.1 hlit).imp ihl ihr)
  | neg h ih => exact List.mem_cons_of_mem _ (ih hlit)
  | pos h ih => exact List.mem_cons_of_mem _ (ih hlit)
  | number lit => exact List.mem_singleton.2 (congrArg Token.number (List.mem_singleton.1 hlit))
  | group h ih => exact List.mem_cons_of_mem _ (List.mem_append_left _ (ih hlit))

end Derives

/-! ## Texts that divide into tokens -/

namespace Formula

/-- Characters of numbers are no parentheses, no blanks and no operators. -/
theorem solid_numeric {c : Char} (h : Token.IsNumeric c) :
    c ≠ '(' ∧ c ≠ ')' ∧ Text.isBlankChar c = false ∧ isTrailingOperator c = false := by
  rcases h with h | rfl
  · have hne (d : Char) (hd : Text.isDigit d = false) : c ≠ d := by
      rintro rfl
      exact Bool.false_ne_true (hd.symm.trans h)
    refine ⟨hne '(' (by decide), hne ')' (by decide), Text.not_blank_of_isDigit h, ?_⟩
    simp only [isTrailingOperator, hne '+' (by decide), hne '-' (by decide), hne '*' (by decide),
      hne '/' (by decide), hne '^' (by decide), decide_false, Bool.or_false]
  · decide

end Formula

namespace Lexes

open Token Formula

variable {t : Text} {ts : List Token}

theorem numeral_of_mem (h : Lexes t ts) {literal : Text} (hmem : .number literal ∈ ts) :
    Numeral literal := by
  induction h with
  | nil => exact nomatch hmem
  | space hc h ih => exact ih hmem
  | symbol hc h ih =>
      rcases List.mem_cons.1 hmem with rfl | hmem
      · simp [symbols] at hc
      · exact ih hmem
  | number hn h ih =>
      rcases List.mem_cons.1 hmem with heq | hmem
      · exact Token.number.inj heq ▸ hn.1
      · exact ih hmem

/-- The parentheses of a text are those of its tokens. -/
theorem balance_eq (h : Lexes t ts) (depth : Nat) :
    balance depth t = ts.foldlM depthAfter depth := by
  induction h generalizing depth with
  | nil => rfl
  | @space c t ts hc h ih =>
      have hone : balance depth [c] = some depth :=
        balance_of_forall (by rintro d hd; rw [List.mem_singleton.1 hd]; grind) depth
      rw [balance_cons, hone]
      exact ih depth
  | @symbol c token t ts hc h ih =>
      have hone : balance depth [c] = depthAfter depth token := by
        simp only [symbols, List.mem_cons, Prod.mk.injEq, List.not_mem_nil, or_false] at hc
        rcases hc with ⟨rfl, rfl⟩ | ⟨rfl, rfl⟩ | ⟨rfl, rfl⟩ | ⟨rfl, rfl⟩ | ⟨rfl, rfl⟩ |
          ⟨rfl, rfl⟩ | ⟨rfl, rfl⟩
        all_goals cases depth <;> rfl
      rw [balance_cons, hone, List.foldlM_cons]
      exact congrArg _ (funext ih)
  | @number n rest ts hn h ih =>
      have hone : balance depth n = some depth :=
        balance_of_forall (fun c hc =>
          have hsolid := solid_numeric (isNumeric_of_mem hn.1 hc)
          ⟨hsolid.1, hsolid.2.1⟩) depth
      rw [balance_append, hone]
      exact ih depth

/-- A text without tokens is blank. -/
theorem isBlank_of_nil (h : Lexes t []) : Text.isBlank t = true := by
  generalize hts : ([] : List Token) = ts at h
  induction h with
  | nil => rfl
  | space hc h ih =>
      rw [Text.isBlank_cons, ih hts]
      rcases hc with rfl | rfl <;> rfl
  | symbol hc h ih => exact nomatch hts
  | number hn h ih => exact nomatch hts

/-- Where the last token ends an operand, the text ends in a solid character, blanks aside. -/
theorem exists_last_char (h : Lexes t ts) {front : List Token} {last : Token}
    (hts : ts = front ++ [last]) (hlast : EndsOperand last) :
    ∃ (u : Text) (c : Char) (blanks : Text), t = u ++ c :: blanks ∧
      Text.isBlank blanks = true ∧ Text.isBlankChar c = false ∧ isTrailingOperator c = false := by
  induction h generalizing front with
  | nil => simp at hts
  | @space s t ts hs h ih =>
      obtain ⟨u, c, blanks, rfl, hrest⟩ := ih hts
      exact ⟨s :: u, c, blanks, rfl, hrest⟩
  | @symbol s token t ts hs h ih =>
      cases front with
      | cons first front =>
          obtain ⟨u, c, blanks, rfl, hrest⟩ := ih (List.cons.inj hts).2
          exact ⟨s :: u, c, blanks, rfl, hrest⟩
      | nil =>
          obtain ⟨rfl, rfl⟩ := List.cons.inj hts
          refine ⟨[], s, t, rfl, h.isBlank_of_nil, ?_⟩
          cases hlast with
          | number literal => simp [symbols] at hs
          | closing =>
              have hclosing : s = ')' := by simpa [symbols] using hs
              rw [hclosing]
              decide
  | @number n rest ts hn h ih =>
      cases front with
      | cons first front =>
          obtain ⟨u, c, blanks, rfl, hrest⟩ := ih (List.cons.inj hts).2
          exact ⟨n ++ u, c, blanks, (List.append_assoc ..).symm, hrest⟩
      | nil =>
          obtain ⟨-, rfl⟩ := List.cons.inj hts
          have hne := hn.1.ne_nil
          have hsolid := solid_numeric (isNumeric_of_mem hn.1 (List.getLast_mem hne))
          refine ⟨n.dropLast, n.getLast hne, rest, ?_, h.isBlank_of_nil, hsolid.2.2⟩
          rw [← List.singleton_append, ← List.append_assoc, List.dropLast_concat_getLast]

end Lexes

/-! ## Formulas -/

namespace Formula

section

variable {e : Text} {tree : Expr}

theorem balance_of_hasTree (h : HasTree e tree) (depth : Nat) : balance depth e = some depth := by
  obtain ⟨ts, hlexes, hderives⟩ := h
  rw [hlexes.balance_eq, hderives.foldlM_depthAfter]

theorem exists_last_char_of_hasTree (h : HasTree e tree) :
    ∃ (u : Text) (c : Char) (blanks : Text), e = u ++ c :: blanks ∧
      Text.isBlank blanks = true ∧ Text.isBlankChar c = false ∧ isTrailingOperator c = false := by
  obtain ⟨ts, hlexes, hderives⟩ := h
  obtain ⟨front, last, hts, hlast⟩ := hderives.exists_last
  exact hlexes.exists_last_char hts hlast

theorem not_blank_of_hasTree (h : HasTree e tree) : Text.isBlank e = false := by
  obtain ⟨u, c, blanks, rfl, -, hc, -⟩ := exists_last_char_of_hasTree h
  rw [Text.isBlank_append, Text.isBlank_cons, hc, Bool.false_and, Bool.and_false]

theorem stripTrailingOperator_of_hasTree (h : HasTree e tree) : stripTrailingOperator e = e := by
  obtain ⟨u, c, blanks, rfl, hblanks, hc, hop⟩ := exists_last_char_of_hasTree h
  rw [stripTrailingOperator_concat hc u blanks hblanks, if_neg (by simp [hop])]

theorem isArithmetic_of_hasTree (h : HasTree e tree) {err : FormulaError}
    (herr : tree.result = .error err) : err.IsArithmetic := by
  obtain ⟨ts, hlexes, hderives⟩ := h
  exact Expr.isArithmetic_of_result
    (fun _ hlit => hlexes.numeral_of_mem (hderives.number_mem hlit)) herr

end

/-- A blank is no parenthesis. -/
theorem balance_of_blank {w : Text} (h : Text.isBlank w = true) (depth : Nat) :
    balance depth w = some depth := by
  refine balance_of_forall (fun c hc => ?_) depth
  have hblank := List.all_eq_true.1 h c hc
  exact ⟨by rintro rfl; revert hblank; decide, by rintro rfl; revert hblank; decide⟩

/-- An operator changes no balance. -/
theorem balance_operator {op : Char} (h : isTrailingOperator op = true) (depth : Nat) :
    balance depth [op] = some depth := by
  refine balance_of_forall (fun c hc => ?_) depth
  rw [List.mem_singleton.1 hc]
  exact ⟨by rintro rfl; revert h; decide, by rintro rfl; revert h; decide⟩

theorem invalidCharacters_eq_nil {t : Text} (h : ∀ c ∈ t, isAllowed c = true) :
    invalidCharacters t = [] := by
  have hfilter : t.filter (fun c => !isAllowed c) = [] :=
    List.filter_eq_nil_iff.2 fun c hc => by simp [h c hc]
  rw [invalidCharacters, hfilter]
  rfl

/-- A text without tags that comes down to `e` by dropping a dangling operator. -/
theorem prepare_of_stripped {t e : Text} (ht : Text.isBlank t = false)
    (hbalance : balance 0 t = some 0) (hstrip : stripTrailingOperator t = e)
    (he : Text.isBlank e = false) (hallowed : ∀ c ∈ e, isAllowed c = true) :
    prepare t [] = .ok (some e) := by
  have hsubstitute : substitute t [] = .ok t := by
    rw [substitute, Tag.descending, List.mergeSort_nil]
    rfl
  rw [prepare_eq_settle ht hsubstitute, settle_of_balanced hbalance, hstrip, he,
    invalidCharacters_eq_nil hallowed]
  rfl

/-- A formula in the characters of arithmetic is prepared to itself. -/
theorem prepare_of_hasTree {e : Text} {tree : Expr} (h : HasTree e tree)
    (hallowed : ∀ c ∈ e, isAllowed c = true) : prepare e [] = .ok (some e) :=
  prepare_of_stripped (not_blank_of_hasTree h) (balance_of_hasTree h 0)
    (stripTrailingOperator_of_hasTree h) (not_blank_of_hasTree h) hallowed

/-- What the parser accepts in the characters of arithmetic is prepared to itself, and so is
the same text with an operator and any blanks behind it. Its value is that of the text as it
stands: a number, or an error of arithmetic. -/
theorem preparation_transparent {e : Text} {tree : Expr} (hparse : Expr.parse e = .ok tree)
    (hallowed : ∀ c ∈ e, isAllowed c = true) {op : Char} (hop : isTrailingOperator op = true)
    {w : Text} (hw : Text.isBlank w = true) :
    prepare e [] = .ok (some e) ∧ prepare (e ++ op :: w) [] = .ok (some e) ∧
      evaluate e [] = (evaluateExpression e).map some ∧
      evaluate (e ++ op :: w) [] = (evaluateExpression e).map some ∧
      ((∃ n, evaluateExpression e = .ok n) ∨
        ∃ err, evaluateExpression e = .error err ∧ err.IsArithmetic) := by
  have htree := Expr.parse_eq_ok_iff.1 hparse
  have hblank := not_blank_of_hasTree htree
  have hbalance := balance_of_hasTree htree 0
  have hself := prepare_of_hasTree htree hallowed
  have hbalance' : balance 0 (e ++ op :: w) = some 0 := by
    rw [balance_append, hbalance]
    show balance 0 (op :: w) = some 0
    rw [balance_cons, balance_operator hop]
    exact balance_of_blank hw 0
  have hstrip : stripTrailingOperator (e ++ op :: w) = e := by
    rw [stripTrailingOperator_concat (not_blank_of_trailing hop) e w hw, if_pos hop]
  have hdangling : prepare (e ++ op :: w) [] = .ok (some e) :=
    prepare_of_stripped (by rw [Text.isBlank_append, hblank, Bool.false_and]) hbalance' hstrip
      hblank hallowed
  refine ⟨hself, hdangling, ?_, ?_, ?_⟩
  · rw [evaluate, hself]
  · rw [evaluate, hdangling]
  · rw [evaluateExpression, hparse]
    dsimp only
    cases hresult : tree.result with
    | ok n => exact .inl ⟨n, rfl⟩
    | error err => exact .inr ⟨err, rfl, isArithmetic_of_hasTree htree hresult⟩

/-- A quotient with a zero divisor, behind which a minus sign dangles. -/
theorem preparation_transparent_division_by_zero :
    Expr.parse "(1. + .5) / 0 ".toList = .ok
        (.binary .div (.binary .add (.number "1.".toList) (.number ".5".toList))
          (.number "0".toList)) ∧
      evaluate "(1. + .5) / 0 -\t\n".toList [] =
        (evaluateExpression "(1. + .5) / 0 ".toList).map some := by
  have hparse : Expr.parse "(1. + .5) / 0 ".toList = .ok
      (.binary .div (.binary .add (.number "1.".toList) (.number ".5".toList))
        (.number "0".toList)) := by
    decide +kernel
  have hallowed : ∀ c ∈ "(1. + .5) / 0 ".toList, isAllowed c = true :=
    List.all_eq_true.1 (by decide +kernel)
  have hop : isTrailingOperator '-' = true := by decide
  have hw : Text.isBlank "\t\n".toList = true := by decide +kernel
  exact ⟨hparse, (preparation_transparent hparse hallowed hop hw).2.2.2.1⟩

end Formula

end TagFormula
