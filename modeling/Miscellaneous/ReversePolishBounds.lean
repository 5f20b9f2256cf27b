import Miscellaneous.ReversePolishEvaluation
import Mathlib.Tactic

/-!
# How large the numbers on the stack become

While `expCalculate` evaluates the postfix string of an expression, every number
on its stack is the value of a sub-expression.  With `k` operands, which are
single digits, such a value is at most `9 ^ k` in absolute value: sums and
products stay below the product of the two bounds, and quotients below the
dividend.  Nine operands are too few to leave the range of `int`.
-/

namespace Miscellaneous.ReversePolish

open PostfixTrees

def exactArithmetic : Arithmetic where
  add a b := .ok (a + b)
  sub a b := .ok (a - b)
  mul a b := .ok (a * b)
  div a b := if b = 0 then .error .divisionByZero else .ok (a.tdiv b)

/-- The value over numbers without bounds; none only if a divisor is zero. -/
def Expr.exactValue (expr : Expr) : Except Fault ℤ :=
  expr.tree.eval operandValue exactArithmetic.apply

theorem exactValue_nested (digit : Fin 10) (n : ℕ) :
    (nested digit n).exactValue = .ok (digit.val : ℤ) := by
  induction n with
  | zero =>
      exact congrArg Except.ok (operandValue_digitOperand digit)
  | succ n ih => exact ih

/-! ## One operation -/

theorem exactArithmetic_apply_fault {op : Operator} {a b : ℤ} {fault : Fault}
    (hfault : exactArithmetic.apply op a b = .error fault) :
    op = .divide ∧ b = 0 := by
  cases op with
  | plus => cases hfault
  | minus => cases hfault
  | times => cases hfault
  | divide =>
      unfold Arithmetic.apply exactArithmetic at hfault
      by_cases hb : b = 0
      · exact ⟨rfl, hb⟩
      · simp only [hb, if_false] at hfault
        cases hfault

theorem abs_tdiv_le (a b : ℤ) : |a.tdiv b| ≤ |a| := by
  rw [Int.abs_eq_natAbs, Int.abs_eq_natAbs, Int.natAbs_tdiv]
  exact_mod_cast Nat.div_le_self _ _

/-- The bound of a product is above those of the factors and of their sum. -/
theorem pow_add_pow_le {base : ℤ} (hbase : 2 ≤ base) {m n : ℕ} (hm : 0 < m)
    (hn : 0 < n) : base ^ m + base ^ n ≤ base ^ (m + n) := by
  have hleft : 2 ≤ base ^ m :=
    hbase.trans (le_self_pow₀ (by omega) (by omega))
  have hright : 2 ≤ base ^ n :=
    hbase.trans (le_self_pow₀ (by omega) (by omega))
  rw [pow_add]
  nlinarith

theorem exactArithmetic_apply_le {op : Operator} {a b result : ℤ} {m n : ℕ}
    (hm : 0 < m) (hn : 0 < n) (ha : |a| ≤ 9 ^ m) (hb : |b| ≤ 9 ^ n)
    (hresult : exactArithmetic.apply op a b = .ok result) :
    |result| ≤ 9 ^ (m + n) := by
  have hsum : |a| + |b| ≤ 9 ^ (m + n) :=
    (add_le_add ha hb).trans (pow_add_pow_le (by decide) hm hn)
  unfold Arithmetic.apply exactArithmetic at hresult
  cases op with
  | plus =>
      cases hresult
      exact (abs_add_le a b).trans hsum
  | minus =>
      cases hresult
      exact (abs_sub a b).trans hsum
  | times =>
      cases hresult
      rw [abs_mul, pow_add]
      exact mul_le_mul ha hb (abs_nonneg b) (by positivity)
  | divide =>
      simp only at hresult
      split_ifs at hresult
      cases hresult
      have hdivisor := abs_nonneg b
      have hquotient := abs_tdiv_le a b
      omega

/-- A result in the range of `int` is the result of the `int` operation. -/
theorem intArithmetic_apply {op : Operator} {a b result : ℤ}
    (hresult : exactArithmetic.apply op a b = .ok result)
    (hrange : |result| < 2 ^ 31) :
    intArithmetic.apply op a b = .ok result := by
  have hfits : intResult result = .ok result := by
    have hbounds := abs_lt.mp hrange
    unfold intResult
    exact if_pos ⟨hbounds.1.le, hbounds.2⟩
  unfold Arithmetic.apply exactArithmetic at hresult
  unfold Arithmetic.apply intArithmetic
  cases op with
  | plus =>
      cases hresult
      exact hfits
  | minus =>
      cases hresult
      exact hfits
  | times =>
      cases hresult
      exact hfits
  | divide =>
      simp only at hresult ⊢
      split_ifs at hresult ⊢
      cases hresult
      exact hfits

/-- An `int` operation without a fault gives the exact result. -/
theorem exactArithmetic_apply_of_int {op : Operator} {a b result : ℤ}
    (hresult : intArithmetic.apply op a b = .ok result) :
    exactArithmetic.apply op a b = .ok result := by
  have hfits {value : ℤ} (hvalue : intResult value = .ok result) :
      value = result := by
    unfold intResult at hvalue
    split_ifs at hvalue
    cases hvalue
    rfl
  unfold Arithmetic.apply intArithmetic at hresult
  unfold Arithmetic.apply exactArithmetic
  cases op with
  | plus => exact congrArg Except.ok (hfits hresult)
  | minus => exact congrArg Except.ok (hfits hresult)
  | times => exact congrArg Except.ok (hfits hresult)
  | divide =>
      simp only at hresult ⊢
      split_ifs at hresult ⊢
      exact congrArg Except.ok (hfits hresult)

/-! ## Sub-expressions -/

def Digits (tree : ExprTree) : Prop :=
  ∀ operand ∈ tree.operands, |operandValue operand| ≤ 9

theorem Digits.subtree {tree part : ExprTree} (hdigits : Digits tree)
    (hpart : part ∈ tree.subtrees) : Digits part :=
  fun operand hoperand => hdigits operand
    ((OpTree.operands_sublist_of_mem_subtrees hpart).subset hoperand)

theorem Digits.node {op : Operator} {left right : ExprTree}
    (hdigits : Digits (.node op left right)) : Digits left ∧ Digits right := by
  constructor
  · intro operand hoperand
    exact hdigits operand (List.mem_append_left _ hoperand)
  · intro operand hoperand
    exact hdigits operand (List.mem_append_right _ hoperand)

/-- An expression is without a value only where a divisor is zero. -/
theorem exists_zero_divisor {tree : ExprTree} {fault : Fault}
    (hfault : tree.eval operandValue exactArithmetic.apply = .error fault) :
    ∃ left right, .node .divide left right ∈ tree.subtrees ∧
      right.eval operandValue exactArithmetic.apply = .ok 0 := by
  induction tree generalizing fault with
  | leaf operand => cases hfault
  | node op left right ihleft ihright =>
      cases hleft : left.eval operandValue exactArithmetic.apply with
      | error first =>
          rcases ihleft hleft with ⟨dividend, divisor, hmem, hzero⟩
          exact ⟨dividend, divisor,
            List.mem_cons_of_mem _ (List.mem_append_left _ hmem), hzero⟩
      | ok a =>
          cases hright : right.eval operandValue exactArithmetic.apply with
          | error first =>
              rcases ihright hright with ⟨dividend, divisor, hmem, hzero⟩
              exact ⟨dividend, divisor,
                List.mem_cons_of_mem _ (List.mem_append_right _ hmem), hzero⟩
          | ok b =>
              rw [OpTree.eval, hleft, hright] at hfault
              rcases exactArithmetic_apply_fault hfault with ⟨rfl, rfl⟩
              exact ⟨left, right, OpTree.self_mem_subtrees _, hright⟩

theorem abs_eval_le {tree : ExprTree} (hdigits : Digits tree) {result : ℤ}
    (hresult : tree.eval operandValue exactArithmetic.apply = .ok result) :
    |result| ≤ 9 ^ tree.operands.length := by
  induction tree generalizing result with
  | leaf operand =>
      cases hresult
      exact hdigits operand (List.mem_singleton_self _)
  | node op left right ihleft ihright =>
      rcases OpTree.eval_node_eq_ok.mp hresult with
        ⟨a, b, hleft, hright, hoperation⟩
      have ha := ihleft hdigits.node.1 hleft
      have hb := ihright hdigits.node.2 hright
      rw [OpTree.operands, List.length_append]
      exact exactArithmetic_apply_le left.operands_length_pos
        right.operands_length_pos ha hb hoperation

/-- With at most nine operands no operation leaves the range of `int`. -/
theorem eval_intArithmetic {tree : ExprTree} (hdigits : Digits tree)
    (hfew : tree.operands.length ≤ 9) {result : ℤ}
    (hresult : tree.eval operandValue exactArithmetic.apply = .ok result) :
    tree.eval operandValue intArithmetic.apply = .ok result := by
  have hbound := abs_eval_le hdigits hresult
  induction tree generalizing result with
  | leaf operand => exact hresult
  | node op left right ihleft ihright =>
      rcases OpTree.eval_node_eq_ok.mp hresult with
        ⟨a, b, hleft, hright, hoperation⟩
      have hparts : left.operands.length + right.operands.length ≤ 9 := by
        rwa [OpTree.operands, List.length_append] at hfew
      have hrange : |result| < 2 ^ 31 := by
        have hpow : (9 : ℤ) ^ (OpTree.node op left right).operands.length ≤
            9 ^ 9 := pow_le_pow_right₀ (by decide) hfew
        have hnine : (9 : ℤ) ^ 9 < 2 ^ 31 := by decide
        omega
      exact OpTree.eval_node_eq_ok.mpr ⟨a, b,
        ihleft hdigits.node.1 (by omega) hleft
          (abs_eval_le hdigits.node.1 hleft),
        ihright hdigits.node.2 (by omega) hright
          (abs_eval_le hdigits.node.2 hright),
        intArithmetic_apply hoperation hrange⟩

/-! ## The digits of an expression -/

def isDigit (c : CChar) : Bool :=
  (char '0').toInt ≤ c.toInt ∧ c.toInt ≤ (char '9').toInt

theorem isDigit_digitChar (digit : Fin 10) :
    isDigit (char (Nat.digitChar digit)) = true := by
  revert digit
  decide

mutual

theorem Expr.digits_tree : ∀ expr : Expr, Digits expr.tree
  | .term term => term.digits_tree
  | .add expr term => fun operand hoperand =>
      (List.mem_append.mp hoperand).elim (expr.digits_tree operand)
        (term.digits_tree operand)
  | .sub expr term => fun operand hoperand =>
      (List.mem_append.mp hoperand).elim (expr.digits_tree operand)
        (term.digits_tree operand)

theorem Term.digits_tree : ∀ term : Term, Digits term.tree
  | .factor factor => factor.digits_tree
  | .mul term factor => fun operand hoperand =>
      (List.mem_append.mp hoperand).elim (term.digits_tree operand)
        (factor.digits_tree operand)
  | .div term factor => fun operand hoperand =>
      (List.mem_append.mp hoperand).elim (term.digits_tree operand)
        (factor.digits_tree operand)

theorem Factor.digits_tree : ∀ factor : Factor, Digits factor.tree
  | .digit digit => fun operand hoperand => by
      rw [List.mem_singleton.mp hoperand, operandValue_digitOperand, abs_le]
      have hlt := digit.isLt
      omega
  | .paren expr => expr.digits_tree

end

mutual

theorem Expr.countP_text : ∀ expr : Expr,
    expr.text.countP isDigit = expr.tree.operands.length
  | .term term => term.countP_text
  | .add expr term => by
      rw [Expr.text, List.countP_append, List.countP_cons_of_neg (by decide),
        expr.countP_text, term.countP_text, Expr.tree, OpTree.operands,
        List.length_append]
  | .sub expr term => by
      rw [Expr.text, List.countP_append, List.countP_cons_of_neg (by decide),
        expr.countP_text, term.countP_text, Expr.tree, OpTree.operands,
        List.length_append]

theorem Term.countP_text : ∀ term : Term,
    term.text.countP isDigit = term.tree.operands.length
  | .factor factor => factor.countP_text
  | .mul term factor => by
      rw [Term.text, List.countP_append, List.countP_cons_of_neg (by decide),
        term.countP_text, factor.countP_text, Term.tree, OpTree.operands,
        List.length_append]
  | .div term factor => by
      rw [Term.text, List.countP_append, List.countP_cons_of_neg (by decide),
        term.countP_text, factor.countP_text, Term.tree, OpTree.operands,
        List.length_append]

theorem Factor.countP_text : ∀ factor : Factor,
    factor.text.countP isDigit = factor.tree.operands.length
  | .digit digit =>
      List.countP_cons_of_pos (isDigit_digitChar digit)
  | .paren expr => by
      rw [Factor.text, List.cons_append, List.countP_cons_of_neg (by decide),
        List.countP_append, expr.countP_text,
        List.countP_cons_of_neg (by decide)]
      rfl

end

/-! ## The stack -/

/-- What a number on the stack stands for. -/
def StandsFor (expr : Expr) (part : ExprTree) (value : ℤ) : Prop :=
  part ∈ expr.tree.subtrees ∧
    part.eval operandValue exactArithmetic.apply = .ok value ∧
    |value| ≤ 9 ^ part.operands.length

/-- The stack after a part of the postfix string, for operations which evaluate
every sub-expression. -/
theorem foldlM_calculateStep_isPrefix (arith : Arithmetic) {tree : ExprTree}
    {R : ExprTree → ℤ → Prop}
    (hevaluates : ∀ part ∈ tree.subtrees, ∃ value,
      part.eval operandValue arith.apply = .ok value ∧ R part value)
    {before : List CChar} (hbefore : before <+: postorderString tree) :
    ∃ parts values, List.Forall₂ R parts values ∧
      (∀ part ∈ parts, part ∈ tree.subtrees) ∧
      before.foldlM (calculateStep arith) [] = .ok values.reverse := by
  unfold postorderString at hbefore
  rcases List.prefix_map_iff.mp hbefore with ⟨tokens, htokens, rfl⟩
  rcases OpTree.exists_subtrees_of_isPrefix htokens with ⟨parts, hword, hparts⟩
  have hvalues : ∃ values, List.Forall₂ (fun part value =>
      part.eval operandValue arith.apply = .ok value ∧ R part value)
        parts values := by
    clear hword
    induction parts with
    | nil => exact ⟨[], .nil⟩
    | cons part parts ih =>
        rcases hevaluates part (hparts part (List.mem_cons_self ..)) with
          ⟨value, hvalue⟩
        rcases ih fun part hpart => hparts part (List.mem_cons_of_mem _ hpart)
          with ⟨values, hrest⟩
        exact ⟨value :: values, .cons hvalue hrest⟩
  rcases hvalues with ⟨values, hvalues⟩
  refine ⟨parts, values, hvalues.imp fun _ _ hpair => hpair.2, hparts, ?_⟩
  rw [List.foldlM_map]
  simp only [calculateStep_tokenSymbol]
  rw [hword, foldlM_machineStep_forest Fault.emptyStack
    (hvalues.imp fun _ _ hpair => hpair.1), List.append_nil]

/-! ## Runs of the `int` operations -/

theorem calculateStep_exact_of_int {s s' : List ℤ} {c : CChar}
    (hstep : calculateStep intArithmetic s c = .ok s') :
    calculateStep exactArithmetic s c = .ok s' := by
  cases hc : isOperator c with
  | false =>
      rw [calculateStep_operand intArithmetic s hc] at hstep
      rw [calculateStep_operand exactArithmetic s hc, hstep]
  | true =>
      rcases exists_operator_of_isOperator hc with ⟨op, rfl⟩
      have hint := calculateStep_tokenSymbol intArithmetic s (.inl op)
      have hexact := calculateStep_tokenSymbol exactArithmetic s (.inl op)
      simp only [tokenSymbol] at hint hexact
      rw [hint] at hstep
      rw [hexact]
      rcases s with _ | ⟨first, _ | ⟨second, rest⟩⟩
      · cases hstep
      · cases hstep
      · simp only [machineStep] at hstep ⊢
        cases hresult : intArithmetic.apply op second first with
        | error fault =>
            rw [hresult] at hstep
            cases hstep
        | ok result =>
            rw [hresult] at hstep
            rw [exactArithmetic_apply_of_int hresult]
            exact hstep

theorem foldlM_exact_of_int {postfixExpr : List CChar} {s s' : List ℤ}
    (hrun : postfixExpr.foldlM (calculateStep intArithmetic) s = .ok s') :
    postfixExpr.foldlM (calculateStep exactArithmetic) s = .ok s' := by
  induction postfixExpr generalizing s with
  | nil => exact hrun
  | cons c rest ih =>
      rw [List.foldlM_cons] at hrun ⊢
      cases hstep : calculateStep intArithmetic s c with
      | error fault =>
          rw [hstep] at hrun
          cases hrun
      | ok next =>
          rw [hstep] at hrun
          rw [calculateStep_exact_of_int hstep]
          exact ih hrun

/-- Every number on the stack is within the bound for the sub-expression that
it stands for, and with at most nine operands no operation overflows. -/
def StaysBounded (expr : Expr) (result : ℤ) : Prop :=
  ∃ postfixExpr, getPostfix expr.text = .ok postfixExpr ∧
    (∀ before, before <+: postfixExpr → ∃ parts values,
      List.Forall₂ (StandsFor expr) parts values ∧
        calculateLoop exactArithmetic before = .ok values.reverse ∧
        ∀ stack, calculateLoop intArithmetic before = .ok stack →
          stack = values.reverse) ∧
    (expr.text.countP isDigit ≤ 9 →
      (∀ before, before <+: postfixExpr →
        ∃ stack, calculateLoop intArithmetic before = .ok stack) ∧
      expCalculate intArithmetic postfixExpr = .ok result)

theorem staysBounded_of_short (expr : Expr) {result : ℤ}
    (hvalue : expr.exactValue = .ok result)
    (hshort : expr.text.length < 2 ^ 31) : StaysBounded expr result := by
  have hpart {part : ExprTree} (hmem : part ∈ expr.tree.subtrees) :
      ∃ value, part.eval operandValue exactArithmetic.apply = .ok value ∧
        StandsFor expr part value := by
    rcases OpTree.eval_of_mem_subtrees hvalue hmem with ⟨value, hpartValue⟩
    exact ⟨value, hpartValue, hmem, hpartValue,
      abs_eval_le (expr.digits_tree.subtree hmem) hpartValue⟩
  have hword := expr.text_renders.length_le.trans_lt hshort
  refine ⟨postorderString expr.tree,
    getPostfix_of_isRendering expr.text_renders hshort, ?_, ?_⟩
  · intro before hbefore
    have hbeforeShort := hbefore.length_le.trans_lt hword
    rcases foldlM_calculateStep_isPrefix exactArithmetic (fun _ => hpart)
      hbefore with ⟨parts, values, hvalues, _, hrun⟩
    rw [calculateLoop_eq_foldlM _ hbeforeShort,
      calculateLoop_eq_foldlM _ hbeforeShort]
    refine ⟨parts, values, hvalues, hrun, ?_⟩
    intro stack hint
    have hexact := foldlM_exact_of_int hint
    rw [hrun] at hexact
    cases hexact
    rfl
  · intro hfew
    rw [expr.countP_text] at hfew
    have hpartInt {part : ExprTree} (hmem : part ∈ expr.tree.subtrees) :
        ∃ value, part.eval operandValue intArithmetic.apply = .ok value ∧
          StandsFor expr part value := by
      rcases hpart hmem with ⟨value, hpartValue, hstands⟩
      have hsublist := OpTree.operands_sublist_of_mem_subtrees hmem
      exact ⟨value, eval_intArithmetic (expr.digits_tree.subtree hmem)
        (hsublist.length_le.trans hfew) hpartValue, hstands⟩
    constructor
    · intro before hbefore
      rcases foldlM_calculateStep_isPrefix intArithmetic (fun _ => hpartInt)
        hbefore with ⟨parts, values, _, _, hrun⟩
      refine ⟨values.reverse, ?_⟩
      rw [calculateLoop_eq_foldlM _ (hbefore.length_le.trans_lt hword)]
      exact hrun
    · rw [expCalculate_postorderString _ hword]
      exact eval_intArithmetic expr.digits_tree hfew hvalue

/-- An expression without a zero divisor is evaluated within the bounds if and
only if the index does not overflow in its conversion. -/
theorem expCalculate_stack_bounds (expr : Expr) {result : ℤ}
    (hvalue : expr.exactValue = .ok result) :
    StaysBounded expr result ↔ expr.text.length < 2 ^ 31 := by
  constructor
  · rintro ⟨postfixExpr, hconverted, _⟩
    by_contra hlong
    exact getPostfix_ne_ok (not_lt.mp hlong) _ hconverted
  · exact staysBounded_of_short expr hvalue

theorem expCalculate_stack_bounds_quotient :
    let digit (d : Fin 10) : Factor := .digit d
    let product : Expr := .term (.mul (.factor (digit 9)) (digit 9))
    let difference : Expr :=
      .sub (.term (.factor (digit 3))) (.factor (digit 4))
    let expr : Expr :=
      .term (.div (.factor (.paren product)) (.paren difference))
    expr.text = chars "(9*9)/(3-4)" ∧ StaysBounded expr (-81) := by
  intro digit product difference expr
  have hvalue : expr.exactValue = .ok (-81) := by decide
  exact ⟨by decide, (expCalculate_stack_bounds expr hvalue).mpr (by decide)⟩

/-- `1` in `2 ^ 30` pairs of parentheses. -/
theorem not_staysBounded_nested :
    (nested 1 (2 ^ 30)).exactValue = .ok 1 ∧
      ¬StaysBounded (nested 1 (2 ^ 30)) 1 := by
  constructor
  · exact exactValue_nested 1 _
  · rintro ⟨postfixExpr, hconverted, _⟩
    exact getPostfix_ne_ok (long_text_nested 1) _ hconverted

end Miscellaneous.ReversePolish
