import TagFormula.Proofs.Formula.Transparency

/-!
# The stack holds what the recursion computes

Run on any stack, the postorder of a tree leaves the stack as it was with the value of the
tree on top, or stops with the error that the recursion meets first
(`runNodes_postorder_eq`). In between a node always finds the operands that it takes, for if
it were short of one the run would not end as the recursion does
(`operands_le_of_runNodes`).

In a tree that has been parsed every number is a numeral, and can be read. So what is left
to go wrong is arithmetic.
-/

namespace TagFormula

/-- The number of operands that a node takes off the stack. -/
def Node.operands : Node → Nat
  | number _ => 0
  | signed _ => 1
  | binary _ => 2

namespace Expr

/-- A node fails for the stack just where it is short of operands. -/
theorem runNode_eq_unbalanced_iff {node : Node} {stack : List Float} :
    runNode node stack = .error .unbalancedStack ↔ stack.length < node.operands := by
  cases node with
  | number literal =>
    refine iff_of_false (fun h => ?_) (Nat.not_lt_zero _)
    rw [runNode] at h
    cases hread : readLiteral literal with
    | ok x =>
      rw [hread] at h
      cases h
    | error err =>
      rw [hread] at h
      cases h
  | signed sign =>
    cases stack with
    | nil => exact iff_of_true rfl Nat.one_pos
    | cons x stack =>
      refine iff_of_false (fun h => ?_) (Nat.not_lt.2 ?_)
      · cases h
      · exact Nat.succ_le_succ (Nat.zero_le _)
  | binary op =>
    rcases stack with _ | ⟨y, _ | ⟨x, stack⟩⟩
    · exact iff_of_true rfl Nat.two_pos
    · exact iff_of_true rfl Nat.one_lt_two
    · refine iff_of_false (fun h => ?_) (Nat.not_lt.2 ?_)
      · rw [runNode] at h
        cases happly : op.apply x y with
        | ok z =>
          rw [happly] at h
          cases h
        | error err =>
          rw [happly] at h
          cases h
      · exact Nat.succ_le_succ (Nat.succ_le_succ (Nat.zero_le _))

/-- The value of a tree is put on top of the stack. -/
theorem runNodes_postorder_eq (e : Expr) (stack : List Float) :
    runNodes e.postorder stack = (e.eval.map (· :: stack)).mapError .formula := by
  rw [runNodes_postorder]
  cases e.eval <;> rfl

theorem run_eq_mapError (e : Expr) : e.run = e.eval.mapError .formula := by
  rw [run_eq_eval]
  cases e.eval <;> rfl

/-- Every node of a tree finds its operands on the stack, whatever lies below them. -/
theorem operands_le_of_runNodes {e : Expr} {front back : List Node} {node : Node}
    {below stack : List Float} (heq : e.postorder = front ++ node :: back)
    (hfront : runNodes front below = .ok stack) : node.operands ≤ stack.length := by
  refine Nat.not_lt.1 fun hshort => ?_
  have hrun := runNodes_postorder_eq e below
  rw [heq, runNodes_append, hfront] at hrun
  have hstuck : runNodes (node :: back) stack = .error .unbalancedStack := by
    rw [runNodes, runNode_eq_unbalanced_iff.2 hshort]
  have hstops := hstuck.symm.trans hrun
  cases heval : e.eval with
  | ok x =>
    rw [heval] at hstops
    cases hstops
  | error err =>
    rw [heval] at hstops
    cases hstops

/-- The numbers of a tree are those of its postorder. -/
theorem mem_postorder_iff {e : Expr} {literal : Text} :
    .number literal ∈ e.postorder ↔ literal ∈ e.literals := by
  induction e with
  | number literal' => simp [literals]
  | signed sign operand ih => simp [literals, ih]
  | binary op left right ihl ihr => simp [literals, ihl, ihr]

theorem numeral_of_mem_literals {t : Text} {e : Expr} (h : HasTree t e) {literal : Text}
    (hlit : literal ∈ e.literals) : Numeral literal := by
  obtain ⟨ts, hlexes, hderives⟩ := h
  exact hlexes.numeral_of_mem (hderives.number_mem hlit)

end Expr

namespace Formula

open TagFormula.Expr

theorem evaluateExpression_of_parse {t : Text} {e : Expr} (h : parse t = .ok e) :
    evaluateExpression t = e.eval.bind fun x =>
      if Binary64.isFinite x then .ok (.ofFloat x) else .error (.notFinite .result) := by
  rw [evaluateExpression, h]
  dsimp only
  rw [result, run_eq_eval]
  cases e.eval <;> rfl

/-- Whatever tree a text is parsed to, running its postorder on a stack comes to the same as
the recursion that takes the left operand first, then the right one, then the operation. No
node is short of operands, one operand is left at the end, and the error is the first one of
the recursion, which is an error of arithmetic since every number can be read. -/
theorem stack_agrees {t : Text} {e : Expr} (h : parse t = .ok e) :
    (∀ front node back stack, e.postorder = front ++ node :: back →
        runNodes front [] = .ok stack → node.operands ≤ stack.length) ∧
      (∀ stack, runNodes e.postorder [] = .ok stack → ∃ x, e.eval = .ok x ∧ stack = [x]) ∧
      e.run = e.eval.mapError .formula ∧
      evaluateExpression t = (e.eval.bind fun x =>
        if Binary64.isFinite x then .ok (.ofFloat x) else .error (.notFinite .result)) ∧
      (∀ literal, .number literal ∈ e.postorder → ∃ x, Literal.double? literal = some x) ∧
      ∀ err, evaluateExpression t = .error err →
        err.code = "division_by_zero" ∨ err.code = "non_finite_result" := by
  have htree := parse_eq_ok_iff.1 h
  refine ⟨fun _ _ _ _ => operands_le_of_runNodes, ?_, run_eq_mapError e,
    evaluateExpression_of_parse h, ?_, ?_⟩
  · intro stack hstack
    rw [runNodes_postorder_eq] at hstack
    cases heval : e.eval with
    | ok x =>
      rw [heval] at hstack
      exact ⟨x, rfl, (Except.ok.inj hstack).symm⟩
    | error err =>
      rw [heval] at hstack
      cases hstack
  · intro literal hlit
    exact Literal.double?_numeral (numeral_of_mem_literals htree (mem_postorder_iff.1 hlit))
  · intro err herr
    rw [evaluateExpression, h] at herr
    obtain rfl | ⟨cause, rfl⟩ := isArithmetic_of_hasTree htree herr
    · exact .inl rfl
    · exact .inr rfl

/-- A division by zero, and behind it a power that is not reached. -/
def twoFaults : Expr :=
  .binary .add (.binary .div (.number ['٣']) (.number ['.', '0']))
    (.binary .pow (.number ['9']) (.number "9999".toList))

theorem stack_agrees_with_two_faults :
    parse "٣/.0 + 9^9999".toList = .ok twoFaults ∧
      twoFaults.run = .error (.formula .divisionByZero) ∧
      evaluateExpression "٣/.0 + 9^9999".toList = .error .divisionByZero := by
  have hparse : parse "٣/.0 + 9^9999".toList = .ok twoFaults := by
    decide +kernel
  have heval : twoFaults.eval = .error .divisionByZero := by
    decide +kernel
  obtain ⟨-, -, hrun, hevaluate, -⟩ := stack_agrees hparse
  rw [heval] at hrun hevaluate
  exact ⟨hparse, hrun, hevaluate⟩

end Formula

end TagFormula
