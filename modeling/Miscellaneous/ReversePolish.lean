import Mathlib.Tactic

/-!
# Infix to postfix conversion and postfix evaluation

The two loops of `reverse_polish_notation.cpp`.  `getPostfix` walks the
characters of an infix expression with a stack of pending operators and open
parentheses; `expCalculate` walks a postfix word with a stack of numbers.
Stacks are lists with the top first.  What C++ leaves undefined, reading or
popping an empty stack and an `int` operation without an `int` result, ends
the computation in a `Fault`.  The index of both loops is an `int`, too, so
that it overflows behind the character number `2 ^ 31`.
-/

namespace Miscellaneous.ReversePolish

inductive Fault where
  | emptyStack
  | overflow
  | divisionByZero
  deriving DecidableEq, Repr

/-- A `char`, which is signed. -/
abbrev CChar := Int8

def char (c : Char) : CChar := Int8.ofNat c.toNat

def chars (text : String) : List CChar := text.toList.map char

def prior (c : CChar) : ℕ :=
  if c = char '+' ∨ c = char '-' then 1
  else if c = char '*' ∨ c = char '/' then 2
  else 0

def isOperator (c : CChar) : Bool :=
  c = char '+' || c = char '-' || c = char '*' || c = char '/'

@[simp] theorem close_ne_open : char ')' ≠ char '(' := by decide

@[simp] theorem isOperator_open : isOperator (char '(') = false := by decide

@[simp] theorem isOperator_close : isOperator (char ')') = false := by decide

/-- A result of type `int`, or signed overflow. -/
def intResult (value : ℤ) : Except Fault ℤ :=
  if -2 ^ 31 ≤ value ∧ value < 2 ^ 31 then .ok value else .error .overflow

/-- The loop `for (int i = 0; i < s.size(); ++i)` over the characters of `s`
from `s[i]` on. -/
def forEachChar {State : Type} (body : State → CChar → Except Fault State) :
    List CChar → ℤ → State → Except Fault State
  | [], _, state => .ok state
  | c :: rest, i, state => do
      let next ← body state c
      let i' ← intResult (i + 1)
      forEachChar body rest i' next

/-! ## The conversion loop -/

/-- The locals of `getPostfix` that the loop carries. -/
structure Conversion where
  output : List CChar
  opStack : List CChar
  deriving DecidableEq, Repr

/-- The loop in the operator branch: move operators of at least the priority
of `c` from the stack to the output. -/
def popOperators (c : CChar) (output : List CChar) : List CChar → Conversion
  | [] => ⟨output, []⟩
  | top :: rest =>
      if isOperator top && prior top ≥ prior c then
        popOperators c (output ++ [top]) rest
      else ⟨output, top :: rest⟩

/-- The loop in the `)` branch, together with the `pop` of the `(` that ends
it.  `op_stack.top()` is read without a test for emptiness. -/
def popToParen (output : List CChar) : List CChar → Except Fault Conversion
  | [] => .error .emptyStack
  | top :: rest =>
      if top ≠ char '(' then popToParen (output ++ [top]) rest
      else .ok ⟨output, rest⟩

def popAll (output : List CChar) : List CChar → List CChar
  | [] => output
  | top :: rest => popAll (output ++ [top]) rest

/-- The body of the traversal, for the character `c = expr[i]`. -/
def convertStep (state : Conversion) (c : CChar) : Except Fault Conversion :=
  if isOperator c then
    let popped := popOperators c state.output state.opStack
    .ok ⟨popped.output, c :: popped.opStack⟩
  else if c = char '(' then
    .ok ⟨state.output, c :: state.opStack⟩
  else if c = char ')' then
    popToParen state.output state.opStack
  else
    .ok ⟨state.output ++ [c], state.opStack⟩

def getPostfix (expr : List CChar) : Except Fault (List CChar) := do
  let state ← forEachChar convertStep expr 0 ⟨[], []⟩
  return popAll state.output state.opStack

@[simp] theorem popAll_eq (output stack : List CChar) :
    popAll output stack = output ++ stack := by
  induction stack generalizing output with
  | nil => simp [popAll]
  | cons top rest ih => simp [popAll, ih]

/-! ## The evaluation loop -/

structure Arithmetic where
  add : ℤ → ℤ → Except Fault ℤ
  sub : ℤ → ℤ → Except Fault ℤ
  mul : ℤ → ℤ → Except Fault ℤ
  div : ℤ → ℤ → Except Fault ℤ

/-- The 32-bit `int` operations; division truncates. -/
def intArithmetic : Arithmetic where
  add a b := intResult (a + b)
  sub a b := intResult (a - b)
  mul a b := intResult (a * b)
  div a b := if b = 0 then .error .divisionByZero else intResult (a.tdiv b)

/-- `popTwoNumbers`: the values of `first` and `second` and the rest of the
stack. -/
def popTwoNumbers : List ℤ → Except Fault (ℤ × ℤ × List ℤ)
  | first :: second :: rest => .ok (first, second, rest)
  | _ => .error .emptyStack

/-- The body of the evaluation loop, for the character `c = postfix[i]`. -/
def calculateStep (arith : Arithmetic) (s : List ℤ) (c : CChar) :
    Except Fault (List ℤ) :=
  if c = char '+' then do
    let (first, second, rest) ← popTwoNumbers s
    let result ← arith.add second first
    return result :: rest
  else if c = char '-' then do
    let (first, second, rest) ← popTwoNumbers s
    let result ← arith.sub second first
    return result :: rest
  else if c = char '*' then do
    let (first, second, rest) ← popTwoNumbers s
    let result ← arith.mul second first
    return result :: rest
  else if c = char '/' then do
    let (first, second, rest) ← popTwoNumbers s
    let result ← arith.div second first
    return result :: rest
  else .ok ((c.toInt - (char '0').toInt) :: s)

def calculateLoop (arith : Arithmetic) (postfixExpr : List CChar) :
    Except Fault (List ℤ) :=
  forEachChar (calculateStep arith) postfixExpr 0 []

def expCalculate (arith : Arithmetic) (postfixExpr : List CChar) :
    Except Fault ℤ := do
  let s ← calculateLoop arith postfixExpr
  match s with
  | [] => .error .emptyStack
  | result :: _ => .ok result

example : getPostfix (chars "a+b*c+(d*e+f)*g") = .ok (chars "abc*+de*f+g*+") := by
  decide +kernel

/-! ## The index of the loops -/

section Index

variable {State : Type} {body : State → CChar → Except Fault State}
  {text : List CChar} {state : State} {i : ℤ}

/-- As long as the index is an `int` the loop is a traversal of the text. -/
theorem forEachChar_eq_foldlM (hi : 0 ≤ i) (hshort : i + text.length < 2 ^ 31) :
    forEachChar body text i state = text.foldlM body state := by
  induction text generalizing i state with
  | nil => rfl
  | cons c rest ih =>
      rw [List.length_cons, Nat.cast_succ] at hshort
      have hnext : intResult (i + 1) = .ok (i + 1) := if_pos (by omega)
      rw [forEachChar, List.foldlM_cons, hnext]
      refine bind_congr fun next => ?_
      exact ih (by omega) (by omega)

/-- A longer text is read up to the character number `2 ^ 31`. -/
theorem forEachChar_of_long {n : ℕ} (hn : i + n = 2 ^ 31) (hpos : 0 < n)
    (hi : 0 ≤ i) (hlong : n ≤ text.length) :
    forEachChar body text i state =
      (text.take n).foldlM body state >>= fun _ => .error .overflow := by
  induction n generalizing text i state with
  | zero => omega
  | succ n ih =>
      cases text with
      | nil => simp at hlong
      | cons c rest =>
          rw [List.length_cons] at hlong
          rw [forEachChar, List.take_succ_cons, List.foldlM_cons, bind_assoc]
          refine bind_congr fun next => ?_
          rcases Nat.eq_zero_or_pos n with rfl | hrest
          · have hover : intResult (i + 1) = .error .overflow :=
              if_neg (by omega)
            rw [hover]
            rfl
          · have hnext : intResult (i + 1) = .ok (i + 1) := if_pos (by omega)
            rw [hnext]
            exact ih (by omega) hrest (by omega) (by omega)

end Index

theorem getPostfix_eq_of_loop {expr output stack : List CChar}
    (hshort : expr.length < 2 ^ 31)
    (hloop : expr.foldlM convertStep ⟨[], []⟩ = .ok ⟨output, stack⟩) :
    getPostfix expr = .ok (output ++ stack) := by
  rw [getPostfix, forEachChar_eq_foldlM (le_refl 0) (by omega), hloop]
  simp [bind, Except.bind, pure, Except.pure]

theorem getPostfix_of_long {expr : List CChar} (hlong : 2 ^ 31 ≤ expr.length) :
    getPostfix expr = (expr.take (2 ^ 31)).foldlM convertStep ⟨[], []⟩ >>=
      fun _ => .error .overflow := by
  rw [getPostfix, forEachChar_of_long rfl (by decide) (le_refl 0) hlong]
  rw [bind_assoc]
  rfl

theorem getPostfix_ne_ok {expr : List CChar} (hlong : 2 ^ 31 ≤ expr.length)
    (postfixExpr : List CChar) : getPostfix expr ≠ .ok postfixExpr := by
  rw [getPostfix_of_long hlong]
  cases (expr.take (2 ^ 31)).foldlM convertStep ⟨[], []⟩ with
  | error fault => intro h; cases h
  | ok state => intro h; cases h

theorem calculateLoop_eq_foldlM (arith : Arithmetic) {postfixExpr : List CChar}
    (hshort : postfixExpr.length < 2 ^ 31) :
    calculateLoop arith postfixExpr =
      postfixExpr.foldlM (calculateStep arith) [] :=
  forEachChar_eq_foldlM (le_refl 0) (by omega)

theorem calculateLoop_of_long (arith : Arithmetic) {postfixExpr : List CChar}
    (hlong : 2 ^ 31 ≤ postfixExpr.length) :
    calculateLoop arith postfixExpr =
      (postfixExpr.take (2 ^ 31)).foldlM (calculateStep arith) [] >>=
        fun _ => .error .overflow :=
  forEachChar_of_long rfl (by decide) (le_refl 0) hlong

end Miscellaneous.ReversePolish
