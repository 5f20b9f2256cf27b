import Miscellaneous.ReversePolishConversion
import Mathlib.Tactic

/-!
# Postfix evaluation gives the value of the infix expression

The strings of the digit grammar are renderings of operator trees, so
`getPostfix` turns them into postorder words; `expCalculate` is the stack
machine which reads such words.  Together the two loops compute the value
that precedence, left associativity and truncating division give to the
expression.
-/

namespace Miscellaneous.ReversePolish

open PostfixTrees

/-! ## The digit grammar -/

mutual

/-- `E ::= T | E+T | E-T` -/
inductive Expr where
  | term (term : Term)
  | add (expr : Expr) (term : Term)
  | sub (expr : Expr) (term : Term)

/-- `T ::= F | T*F | T/F` -/
inductive Term where
  | factor (factor : Factor)
  | mul (term : Term) (factor : Factor)
  | div (term : Term) (factor : Factor)

/-- `F ::= digit | '(' E ')'` -/
inductive Factor where
  | digit (digit : Fin 10)
  | paren (expr : Expr)

end

mutual

def Expr.text : Expr → List CChar
  | .term term => term.text
  | .add expr term => expr.text ++ char '+' :: term.text
  | .sub expr term => expr.text ++ char '-' :: term.text

def Term.text : Term → List CChar
  | .factor factor => factor.text
  | .mul term factor => term.text ++ char '*' :: factor.text
  | .div term factor => term.text ++ char '/' :: factor.text

def Factor.text : Factor → List CChar
  | .digit digit => [char (Nat.digitChar digit)]
  | .paren expr => char '(' :: expr.text ++ [char ')']

end

mutual

/-- The value in C `int` arithmetic.  It is a number exactly when no divisor
is zero and no intermediate value leaves the range of `int`. -/
def Expr.value : Expr → Except Fault ℤ
  | .term term => term.value
  | .add expr term => do
      let left ← expr.value
      let right ← term.value
      intArithmetic.add left right
  | .sub expr term => do
      let left ← expr.value
      let right ← term.value
      intArithmetic.sub left right

def Term.value : Term → Except Fault ℤ
  | .factor factor => factor.value
  | .mul term factor => do
      let left ← term.value
      let right ← factor.value
      intArithmetic.mul left right
  | .div term factor => do
      let left ← term.value
      let right ← factor.value
      intArithmetic.div left right

def Factor.value : Factor → Except Fault ℤ
  | .digit digit => .ok (digit.val : ℤ)
  | .paren expr => expr.value

end

/-! ## Derivations as renderings of trees -/

def digitOperand (digit : Fin 10) : Operand where
  symbol := char (Nat.digitChar digit)
  notOperator := by revert digit; decide
  notOpen := by revert digit; decide
  notClose := by revert digit; decide

mutual

def Expr.tree : Expr → ExprTree
  | .term term => term.tree
  | .add expr term => .node .plus expr.tree term.tree
  | .sub expr term => .node .minus expr.tree term.tree

def Term.tree : Term → ExprTree
  | .factor factor => factor.tree
  | .mul term factor => .node .times term.tree factor.tree
  | .div term factor => .node .divide term.tree factor.tree

def Factor.tree : Factor → ExprTree
  | .digit digit => .leaf (digitOperand digit)
  | .paren expr => expr.tree

end

theorem Renders.weaken {level level' : ℕ} {tree : ExprTree}
    {expr : List CChar} (hrenders : Renders level' tree expr)
    (hle : level ≤ level') :
    Renders level tree expr := by
  cases hrenders with
  | operand _ operand => exact .operand level operand
  | binary hlevel hleft hright => exact .binary (hle.trans hlevel) hleft hright
  | parenthesised hinner => exact .parenthesised hinner

mutual

theorem Expr.text_renders : ∀ expr : Expr, Renders 1 expr.tree expr.text
  | .term term => term.text_renders.weaken (by decide)
  | .add expr term =>
      .binary (by decide : 1 ≤ prior Operator.plus.symbol)
        expr.text_renders term.text_renders
  | .sub expr term =>
      .binary (by decide : 1 ≤ prior Operator.minus.symbol)
        expr.text_renders term.text_renders

theorem Term.text_renders : ∀ term : Term, Renders 2 term.tree term.text
  | .factor factor => factor.text_renders.weaken (by decide)
  | .mul term factor =>
      .binary (by decide : 2 ≤ prior Operator.times.symbol)
        term.text_renders factor.text_renders
  | .div term factor =>
      .binary (by decide : 2 ≤ prior Operator.divide.symbol)
        term.text_renders factor.text_renders

theorem Factor.text_renders :
    ∀ factor : Factor, Renders 3 factor.tree factor.text
  | .digit digit => .operand 3 (digitOperand digit)
  | .paren expr => .parenthesised expr.text_renders

end

/-! ## The evaluation loop as the stack machine -/

def operandValue (operand : Operand) : ℤ :=
  operand.symbol.toInt - (char '0').toInt

def Arithmetic.apply (arith : Arithmetic) : Operator → ℤ → ℤ → Except Fault ℤ
  | .plus => arith.add
  | .minus => arith.sub
  | .times => arith.mul
  | .divide => arith.div

theorem exists_operator_of_isOperator {c : CChar} (hc : isOperator c = true) :
    ∃ op : Operator, op.symbol = c := by
  simp only [isOperator, Bool.or_eq_true, decide_eq_true_eq] at hc
  rcases hc with ((rfl | rfl) | rfl) | rfl
  · exact ⟨.plus, rfl⟩
  · exact ⟨.minus, rfl⟩
  · exact ⟨.times, rfl⟩
  · exact ⟨.divide, rfl⟩

theorem calculateStep_operand (arith : Arithmetic) (s : List ℤ)
    {c : CChar} (hc : isOperator c = false) :
    calculateStep arith s c = .ok ((c.toInt - (char '0').toInt) :: s) := by
  simp only [isOperator, Bool.or_eq_false_iff, decide_eq_false_iff_not] at hc
  simp [calculateStep, hc]

theorem calculateStep_tokenSymbol (arith : Arithmetic) (s : List ℤ)
    (token : Operator ⊕ Operand) :
    calculateStep arith s (tokenSymbol token) =
      machineStep operandValue arith.apply .emptyStack s token := by
  cases token with
  | inr operand => exact calculateStep_operand arith s operand.notOperator
  | inl op =>
      rcases s with _ | ⟨first, _ | ⟨second, rest⟩⟩ <;> cases op <;> rfl

theorem foldlM_calculateStep_postorderString
    (arith : Arithmetic) (tree : ExprTree) (s : List ℤ) :
    (postorderString tree).foldlM (calculateStep arith) s =
      (tree.eval operandValue arith.apply).map (· :: s) := by
  rw [postorderString, List.foldlM_map,
    ← foldlM_machineStep_postorder_self operandValue arith.apply .emptyStack]
  simp only [calculateStep_tokenSymbol]

theorem expCalculate_postorderString (arith : Arithmetic) {tree : ExprTree}
    (hshort : (postorderString tree).length < 2 ^ 31) :
    expCalculate arith (postorderString tree) =
      tree.eval operandValue arith.apply := by
  rw [expCalculate, calculateLoop_eq_foldlM arith hshort,
    foldlM_calculateStep_postorderString]
  cases tree.eval operandValue arith.apply <;> rfl

theorem operandValue_digitOperand (digit : Fin 10) :
    operandValue (digitOperand digit) = digit.val := by
  revert digit
  decide

mutual

theorem Expr.eval_tree : ∀ expr : Expr,
    expr.tree.eval operandValue intArithmetic.apply = expr.value
  | .term term => term.eval_tree
  | .add expr term => by
      simp only [Expr.tree, Expr.value, OpTree.eval, expr.eval_tree,
        term.eval_tree]
      rfl
  | .sub expr term => by
      simp only [Expr.tree, Expr.value, OpTree.eval, expr.eval_tree,
        term.eval_tree]
      rfl

theorem Term.eval_tree : ∀ term : Term,
    term.tree.eval operandValue intArithmetic.apply = term.value
  | .factor factor => factor.eval_tree
  | .mul term factor => by
      simp only [Term.tree, Term.value, OpTree.eval, term.eval_tree,
        factor.eval_tree]
      rfl
  | .div term factor => by
      simp only [Term.tree, Term.value, OpTree.eval, term.eval_tree,
        factor.eval_tree]
      rfl

theorem Factor.eval_tree : ∀ factor : Factor,
    factor.tree.eval operandValue intArithmetic.apply = factor.value
  | .digit digit => by
      simp only [Factor.tree, Factor.value, OpTree.eval,
        operandValue_digitOperand]
  | .paren expr => expr.eval_tree

end

/-- The two loops run without a fault and end with the value of the
expression. -/
def Computes (expr : Expr) (result : ℤ) : Prop :=
  ∃ postfixExpr, getPostfix expr.text = .ok postfixExpr ∧
    expCalculate intArithmetic postfixExpr = .ok result

/-- On an expression of the grammar the two loops compute the value as far as
the arithmetic allows, if and only if the index does not overflow. -/
theorem expCalculate_getPostfix_text
    (expr : Expr) {result : ℤ} (hvalue : expr.value = .ok result) :
    Computes expr result ↔ expr.text.length < 2 ^ 31 := by
  constructor
  · rintro ⟨postfixExpr, hconverted, _⟩
    by_contra hlong
    exact getPostfix_ne_ok (not_lt.mp hlong) _ hconverted
  · intro hshort
    refine ⟨postorderString expr.tree,
      getPostfix_of_isRendering expr.text_renders hshort, ?_⟩
    have hword := expr.text_renders.length_le.trans_lt hshort
    rw [expCalculate_postorderString _ hword, expr.eval_tree, hvalue]

/-- `5+2*(6-3)-4/2`, the expression of `main`. -/
theorem expCalculate_getPostfix_text_main :
    let digit (d : Fin 10) : Term := .factor (.digit d)
    let expr : Expr :=
      .sub
        (.add (.term (digit 5))
          (.mul (digit 2) (.paren (.sub (.term (digit 6)) (digit 3)))))
        (.div (digit 4) (.digit 2))
    expr.text = chars "5+2*(6-3)-4/2" ∧ Computes expr 9 := by
  intro digit expr
  exact ⟨by decide,
    (expCalculate_getPostfix_text expr (by decide)).mpr (by decide)⟩

/-- A digit with `n` pairs of parentheses around it. -/
def nested (digit : Fin 10) : ℕ → Expr
  | 0 => .term (.factor (.digit digit))
  | n + 1 => .term (.factor (.paren (nested digit n)))

theorem value_nested (digit : Fin 10) (n : ℕ) :
    (nested digit n).value = .ok (digit.val : ℤ) := by
  induction n with
  | zero => rfl
  | succ n ih => exact ih

theorem length_text_nested (digit : Fin 10) (n : ℕ) :
    (nested digit n).text.length = 2 * n + 1 := by
  induction n with
  | zero => rfl
  | succ n ih =>
      simp only [nested, Expr.text, Term.text, Factor.text, List.length_append,
        List.length_cons, List.length_nil, ih]
      omega

theorem long_text_nested (digit : Fin 10) :
    2 ^ 31 ≤ (nested digit (2 ^ 30)).text.length := by
  rw [length_text_nested]
  omega

/-- `1` in `2 ^ 30` pairs of parentheses. -/
theorem not_computes_nested :
    (nested 1 (2 ^ 30)).value = .ok 1 ∧ ¬Computes (nested 1 (2 ^ 30)) 1 := by
  refine ⟨value_nested 1 _, ?_⟩
  rintro ⟨postfixExpr, hconverted, _⟩
  exact getPostfix_ne_ok (long_text_nested 1) _ hconverted

end Miscellaneous.ReversePolish
