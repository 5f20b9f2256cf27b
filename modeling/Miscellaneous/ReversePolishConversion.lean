import Miscellaneous.PostfixTrees
import Miscellaneous.ReversePolish
import Mathlib.Tactic

/-!
# Every infix rendering is converted to the postorder word of its tree

A rendering of an operator tree parenthesises a subtree wherever precedence
or left associativity asks for it, and may parenthesise any subtree more
often.  While `getPostfix` reads a rendering, the stack below it belongs to
the enclosing expression: an open parenthesis, an operator that binds less
tightly than anything the rendering shows, or nothing.  The rendering leaves
on top of that stack only operators which bind at least as tightly as its
level, and these complete the postorder word.
-/

namespace Miscellaneous.ReversePolish

open PostfixTrees

inductive Operator where
  | plus
  | minus
  | times
  | divide
  deriving DecidableEq, Repr

def Operator.symbol : Operator → CChar
  | .plus => char '+'
  | .minus => char '-'
  | .times => char '*'
  | .divide => char '/'

/-- An operand character: neither an operator nor a parenthesis. -/
structure Operand where
  symbol : CChar
  notOperator : isOperator symbol = false
  notOpen : symbol ≠ char '('
  notClose : symbol ≠ char ')'
  deriving DecidableEq

abbrev ExprTree := OpTree Operator Operand

def tokenSymbol : Operator ⊕ Operand → CChar
  | .inl op => op.symbol
  | .inr operand => operand.symbol

def postorderString (tree : ExprTree) : List CChar :=
  tree.postorder.map tokenSymbol

/-- `Renders level tree expr`: the infix string `expr` denotes `tree` at a
place where operators of priority below `level` need parentheses.  The left
argument of an operator may show operators of the same priority, the right
one may not. -/
inductive Renders : ℕ → ExprTree → List CChar → Prop where
  | operand (level : ℕ) (operand : Operand) :
      Renders level (.leaf operand) [operand.symbol]
  | binary {level : ℕ} {op : Operator} {left right : ExprTree}
      {leftExpr rightExpr : List CChar}
      (hlevel : level ≤ prior op.symbol)
      (hleft : Renders (prior op.symbol) left leftExpr)
      (hright : Renders (prior op.symbol + 1) right rightExpr) :
      Renders level (.node op left right)
        (leftExpr ++ op.symbol :: rightExpr)
  | parenthesised {level : ℕ} {tree : ExprTree} {expr : List CChar}
      (hinner : Renders 1 tree expr) :
      Renders level tree (char '(' :: expr ++ [char ')'])

def IsRendering (tree : ExprTree) (expr : List CChar) : Prop :=
  Renders 1 tree expr

def render (level : ℕ) : ExprTree → List CChar
  | .leaf operand => [operand.symbol]
  | .node op left right =>
      let body := render (prior op.symbol) left ++
        op.symbol :: render (prior op.symbol + 1) right
      if level ≤ prior op.symbol then body else char '(' :: body ++ [char ')']

/-! ## Characters of operators and operands -/

@[simp] theorem Operator.isOperator_symbol (op : Operator) :
    isOperator op.symbol = true := by
  cases op <;> rfl

@[simp] theorem Operator.one_le_prior_symbol (op : Operator) :
    1 ≤ prior op.symbol := by
  cases op <;> decide

theorem Operator.symbol_injective : Function.Injective Operator.symbol := by
  intro op other
  cases op <;> cases other <;> decide

theorem Operand.symbol_injective : Function.Injective Operand.symbol := by
  intro operand other hsymbol
  cases operand
  cases other
  simpa using hsymbol

theorem tokenSymbol_injective : Function.Injective tokenSymbol := by
  intro token other hsymbol
  cases token with
  | inl op =>
      cases other with
      | inl op' => exact congrArg _ (Operator.symbol_injective hsymbol)
      | inr operand =>
          have hoperator := op.isOperator_symbol
          rw [show op.symbol = operand.symbol from hsymbol,
            operand.notOperator] at hoperator
          contradiction
  | inr operand =>
      cases other with
      | inl op =>
          have hoperator := op.isOperator_symbol
          rw [← show operand.symbol = op.symbol from hsymbol,
            operand.notOperator] at hoperator
          contradiction
      | inr operand' => exact congrArg _ (Operand.symbol_injective hsymbol)

theorem postorderString_injective : Function.Injective postorderString :=
  (List.map_injective_iff.mpr tokenSymbol_injective).comp
    OpTree.postorder_injective

@[simp] theorem postorderString_leaf (operand : Operand) :
    postorderString (.leaf operand) = [operand.symbol] := rfl

@[simp] theorem postorderString_node
    (op : Operator) (left right : ExprTree) :
    postorderString (.node op left right) =
      postorderString left ++ postorderString right ++ [op.symbol] := by
  simp [postorderString, tokenSymbol]

theorem render_renders (level : ℕ) (tree : ExprTree) :
    Renders level tree (render level tree) := by
  induction tree generalizing level with
  | leaf operand => exact .operand level operand
  | node op left right ihleft ihright =>
      simp only [render]
      split_ifs with hlevel
      · exact .binary hlevel (ihleft _) (ihright _)
      · exact .parenthesised
          (.binary op.one_le_prior_symbol (ihleft _) (ihright _))

/-! ## The stack around a rendering -/

/-- The top of the stack is not an operator of priority `level` or more. -/
def Guarded (level : ℕ) (stack : List CChar) : Prop :=
  ∀ top ∈ stack.head?, isOperator top = true → prior top < level

theorem Guarded.mono {level level' : ℕ} {stack : List CChar}
    (hguard : Guarded level stack) (hle : level ≤ level') :
    Guarded level' stack := by
  intro top htop hoperator
  exact (hguard top htop hoperator).trans_le hle

theorem guarded_nil (level : ℕ) : Guarded level [] := by
  simp [Guarded]

theorem guarded_open (level : ℕ) (stack : List CChar) :
    Guarded level (char '(' :: stack) := by
  simp [Guarded]

theorem guarded_operator (op : Operator) (stack : List CChar) :
    Guarded (prior op.symbol + 1) (op.symbol :: stack) := by
  simp [Guarded]

def Pending (level : ℕ) (pending : List CChar) : Prop :=
  ∀ c ∈ pending, isOperator c = true ∧ level ≤ prior c

theorem Pending.mono {level level' : ℕ} {pending : List CChar}
    (hpending : Pending level' pending) (hle : level ≤ level') :
    Pending level pending := by
  intro c hc
  exact ⟨(hpending c hc).1, hle.trans (hpending c hc).2⟩

theorem popOperators_pending {c : CChar} {pending stack : List CChar}
    (hpending : Pending (prior c) pending) (hguard : Guarded (prior c) stack)
    (output : List CChar) :
    popOperators c output (pending ++ stack) =
      ⟨output ++ pending, stack⟩ := by
  induction pending generalizing output with
  | nil =>
      cases stack with
      | nil => simp [popOperators]
      | cons top rest =>
          have hstop : ¬(isOperator top = true ∧ prior c ≤ prior top) := by
            rintro ⟨hoperator, hle⟩
            have hlt := hguard top (by simp) hoperator
            omega
          simp only [List.nil_append, popOperators, ge_iff_le,
            Bool.and_eq_true, decide_eq_true_eq]
          rw [if_neg hstop, List.append_nil]
  | cons top rest ih =>
      have htop := hpending top (by simp)
      have hrest : Pending (prior c) rest := fun d hd =>
        hpending d (by simp [hd])
      simp [popOperators, htop.1, htop.2, ih hrest]

theorem popToParen_pending {pending : List CChar}
    (hpending : Pending 1 pending) (output stack : List CChar) :
    popToParen output (pending ++ char '(' :: stack) =
      .ok ⟨output ++ pending, stack⟩ := by
  induction pending generalizing output with
  | nil => simp [popToParen]
  | cons top rest ih =>
      have htop : top ≠ char '(' := by
        rintro rfl
        have hoperator := (hpending (char '(') (by simp)).1
        contradiction
      have hrest : Pending 1 rest := fun d hd => hpending d (by simp [hd])
      simp [popToParen, htop, ih hrest]

theorem convertStep_operator {op : Operator} {pending stack : List CChar}
    (hpending : Pending (prior op.symbol) pending)
    (hguard : Guarded (prior op.symbol) stack) (output : List CChar) :
    convertStep ⟨output, pending ++ stack⟩ op.symbol =
      .ok ⟨output ++ pending, op.symbol :: stack⟩ := by
  simp [convertStep, popOperators_pending hpending hguard]

theorem convertStep_operand (operand : Operand) (output stack : List CChar) :
    convertStep ⟨output, stack⟩ operand.symbol =
      .ok ⟨output ++ [operand.symbol], stack⟩ := by
  simp [convertStep, operand.notOperator, operand.notOpen, operand.notClose]

theorem convertStep_open (output stack : List CChar) :
    convertStep ⟨output, stack⟩ (char '(') =
      .ok ⟨output, char '(' :: stack⟩ := by
  simp [convertStep]

theorem convertStep_close (state : Conversion) :
    convertStep state (char ')') = popToParen state.output state.opStack := by
  simp [convertStep]

/-! ## Conversion of a rendering -/

/-- What the traversal of one rendering does to output and stack: it emits a
part of the postorder word and leaves the rest of the word pending. -/
theorem foldlM_convertStep_renders
    {level : ℕ} {tree : ExprTree} {expr : List CChar}
    (hrenders : Renders level tree expr)
    {output stack : List CChar} (hguard : Guarded level stack) :
    ∃ emitted pending,
      expr.foldlM convertStep ⟨output, stack⟩ =
          .ok ⟨output ++ emitted, pending ++ stack⟩ ∧
        emitted ++ pending = postorderString tree ∧
        Pending level pending := by
  induction hrenders generalizing output stack with
  | operand level operand =>
      refine ⟨[operand.symbol], [], ?_, by simp, by simp [Pending]⟩
      simp only [List.foldlM_cons, convertStep_operand, List.foldlM_nil]
      rfl
  | @binary level op left right leftExpr rightExpr hlevel _ _ ihleft ihright =>
      obtain ⟨leftOut, leftPending, hleftRun, hleftWord, hleftPending⟩ :=
        @ihleft output stack (hguard.mono hlevel)
      obtain ⟨rightOut, rightPending, hrightRun, hrightWord, hrightPending⟩ :=
        @ihright (output ++ leftOut ++ leftPending) (op.symbol :: stack)
          (guarded_operator op stack)
      -- the operator flushes what the left argument left pending, and is
      -- itself pending below what the right argument leaves
      refine ⟨leftOut ++ leftPending ++ rightOut,
        rightPending ++ [op.symbol], ?_, ?_, ?_⟩
      · rw [List.foldlM_append, hleftRun]
        simp only [List.foldlM_cons, bind, Except.bind,
          convertStep_operator hleftPending (hguard.mono hlevel)]
        rw [hrightRun]
        simp [List.append_assoc]
      · rw [postorderString_node, ← hleftWord, ← hrightWord]
        simp [List.append_assoc]
      · intro c hc
        rcases List.mem_append.mp hc with hright | hop
        · exact hrightPending.mono (by omega) c hright
        · obtain rfl := List.mem_singleton.mp hop
          exact ⟨op.isOperator_symbol, hlevel⟩
  | @parenthesised level tree expr _ ih =>
      obtain ⟨emitted, pending, hrun, hword, hpending⟩ :=
        @ih output (char '(' :: stack) (guarded_open 1 stack)
      refine ⟨emitted ++ pending, [], ?_, by simpa using hword,
        by simp [Pending]⟩
      rw [List.cons_append, List.foldlM_cons, convertStep_open]
      simp only [bind, Except.bind]
      rw [List.foldlM_append, hrun]
      simp only [bind, Except.bind, List.foldlM_cons, List.foldlM_nil,
        convertStep_close, popToParen_pending hpending]
      simp [List.append_assoc, pure, Except.pure]

/-- A rendering is as long as the postorder word at least. -/
theorem Renders.length_le {level : ℕ} {tree : ExprTree} {expr : List CChar}
    (hrenders : Renders level tree expr) :
    (postorderString tree).length ≤ expr.length := by
  induction hrenders with
  | operand level operand => simp
  | binary hlevel _ _ ihleft ihright =>
      simp only [postorderString_node, List.length_append, List.length_cons,
        List.length_nil]
      omega
  | parenthesised _ ih =>
      simp only [List.length_append, List.length_cons, List.length_nil]
      omega

theorem getPostfix_of_isRendering {tree : ExprTree} {expr : List CChar}
    (hrendering : IsRendering tree expr) (hshort : expr.length < 2 ^ 31) :
    getPostfix expr = .ok (postorderString tree) := by
  obtain ⟨emitted, pending, hrun, hword, _⟩ :=
    @foldlM_convertStep_renders 1 tree expr hrendering [] [] (guarded_nil 1)
  rw [List.nil_append, List.append_nil] at hrun
  rw [getPostfix_eq_of_loop hshort hrun, hword]

/-- Two renderings are sent to the postorder strings of their trees, and so are
identified exactly when they denote the same tree. -/
def Characterized (tree tree' : ExprTree) (expr expr' : List CChar) : Prop :=
  getPostfix expr = .ok (postorderString tree) ∧
    getPostfix expr' = .ok (postorderString tree') ∧
    (getPostfix expr = getPostfix expr' ↔ tree = tree')

theorem not_characterized_of_long {tree tree' : ExprTree}
    {expr expr' : List CChar} (hlong : 2 ^ 31 ≤ expr.length) :
    ¬Characterized tree tree' expr expr' :=
  fun hcharacterized => getPostfix_ne_ok hlong _ hcharacterized.1

/-- `getPostfix` characterizes two renderings if and only if the index does not
overflow on one of them. -/
theorem getPostfix_characterizes_renderings
    {tree tree' : ExprTree} {expr expr' : List CChar}
    (hrendering : IsRendering tree expr)
    (hrendering' : IsRendering tree' expr') :
    Characterized tree tree' expr expr' ↔
      expr.length < 2 ^ 31 ∧ expr'.length < 2 ^ 31 := by
  constructor
  · rintro ⟨hword, hword', _⟩
    constructor
    · by_contra hlong
      exact getPostfix_ne_ok (not_lt.mp hlong) _ hword
    · by_contra hlong
      exact getPostfix_ne_ok (not_lt.mp hlong) _ hword'
  · rintro ⟨hshort, hshort'⟩
    have hword := getPostfix_of_isRendering hrendering hshort
    have hword' := getPostfix_of_isRendering hrendering' hshort'
    refine ⟨hword, hword', ?_⟩
    rw [hword, hword', Except.ok.injEq, postorderString_injective.eq_iff]

/-- `a-(b-c)` with redundant parentheses, against `a-b-c`. -/
theorem getPostfix_characterizes_renderings_sub :
    let a : Operand := ⟨char 'a', rfl, by decide, by decide⟩
    let b : Operand := ⟨char 'b', rfl, by decide, by decide⟩
    let c : Operand := ⟨char 'c', rfl, by decide, by decide⟩
    let rightNested : ExprTree :=
      .node .minus (.leaf a) (.node .minus (.leaf b) (.leaf c))
    let leftNested : ExprTree :=
      .node .minus (.node .minus (.leaf a) (.leaf b)) (.leaf c)
    Characterized rightNested leftNested (chars "((a)-(b-c))")
      (chars "a-b-c") := by
  intro a b c rightNested leftNested
  have hright : IsRendering rightNested (chars "((a)-(b-c))") :=
    .parenthesised
      (.binary (by decide : 1 ≤ prior Operator.minus.symbol)
        (.parenthesised (.operand 1 a))
        (.parenthesised
          (.binary (by decide : 1 ≤ prior Operator.minus.symbol)
            (.operand 1 b) (.operand 2 c))))
  exact (getPostfix_characterizes_renderings hright
    (render_renders 1 leftNested)).mpr ⟨by decide, by decide⟩

/-- The operand with `n` pairs of parentheses around it. -/
def wrapped (operand : Operand) : ℕ → List CChar
  | 0 => [operand.symbol]
  | n + 1 => char '(' :: wrapped operand n ++ [char ')']

theorem wrapped_renders (operand : Operand) (n : ℕ) :
    IsRendering (.leaf operand) (wrapped operand n) := by
  induction n with
  | zero => exact .operand 1 operand
  | succ n ih => exact .parenthesised ih

theorem length_wrapped (operand : Operand) (n : ℕ) :
    (wrapped operand n).length = 2 * n + 1 := by
  induction n with
  | zero => rfl
  | succ n ih =>
      simp only [wrapped, List.length_append, List.length_cons,
        List.length_nil, ih]
      omega

/-- `a` in `2 ^ 30` pairs of parentheses. -/
theorem not_characterized_wrapped :
    let a : Operand := ⟨char 'a', rfl, by decide, by decide⟩
    IsRendering (.leaf a) (wrapped a (2 ^ 30)) ∧
      ¬Characterized (.leaf a) (.leaf a) (wrapped a (2 ^ 30))
        (wrapped a (2 ^ 30)) := by
  intro a
  refine ⟨wrapped_renders a _, not_characterized_of_long ?_⟩
  rw [length_wrapped]
  omega

end Miscellaneous.ReversePolish
