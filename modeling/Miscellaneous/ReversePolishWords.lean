import Miscellaneous.ReversePolishEvaluation
import Mathlib.Tactic

/-!
# Evaluation of arbitrary strings

`expCalculate` on any string, over numbers without bounds.  Every character but
the four operators is an operand.  The evaluation gets through exactly the
strings that are postfix expressions one after another, and returns the value of
the last one, unless the index of the loop overflows first.
-/

namespace Miscellaneous.ReversePolish

open PostfixTrees

abbrev AnyOperand := {c : CChar // isOperator c = false}

abbrev PostfixExpr := OpTree Operator AnyOperand

def anySymbol : Operator ⊕ AnyOperand → CChar
  | .inl op => op.symbol
  | .inr operand => operand.val

/-- The postfix expression as it is written. -/
def word (expr : PostfixExpr) : List CChar := expr.postorder.map anySymbol

/-- Numbers have no bounds, and `byZero` is the quotient by zero. -/
def unboundedArithmetic (byZero : ℤ → ℤ) : Arithmetic where
  add a b := .ok (a + b)
  sub a b := .ok (a - b)
  mul a b := .ok (a * b)
  div a b := .ok (if b = 0 then byZero a else a.tdiv b)

def anyValue (operand : AnyOperand) : ℤ :=
  operand.val.toInt - (char '0').toInt

def combine (byZero : ℤ → ℤ) : Operator → ℤ → ℤ → ℤ
  | .plus, a, b => a + b
  | .minus, a, b => a - b
  | .times, a, b => a * b
  | .divide, a, b => if b = 0 then byZero a else a.tdiv b

def valueOf (byZero : ℤ → ℤ) (expr : PostfixExpr) : ℤ :=
  expr.fold anyValue (combine byZero)

theorem anySymbol_surjective : Function.Surjective anySymbol := by
  intro c
  cases hc : isOperator c with
  | false => exact ⟨.inr ⟨c, hc⟩, rfl⟩
  | true =>
      rcases exists_operator_of_isOperator hc with ⟨op, rfl⟩
      exact ⟨.inl op, rfl⟩

theorem calculateStep_anySymbol (byZero : ℤ → ℤ) (s : List ℤ)
    (token : Operator ⊕ AnyOperand) :
    calculateStep (unboundedArithmetic byZero) s (anySymbol token) =
      totalStep anyValue (combine byZero) .emptyStack s token := by
  cases token with
  | inr operand => exact calculateStep_operand _ s operand.property
  | inl op =>
      rcases s with _ | ⟨first, _ | ⟨second, rest⟩⟩
      · cases op <;> rfl
      · cases op <;> rfl
      · cases op <;> rfl

theorem foldlM_calculateStep_map (byZero : ℤ → ℤ)
    (tokens : List (Operator ⊕ AnyOperand)) (s : List ℤ) :
    (tokens.map anySymbol).foldlM
        (calculateStep (unboundedArithmetic byZero)) s =
      tokens.foldlM (totalStep anyValue (combine byZero) .emptyStack) s := by
  rw [List.foldlM_map]
  simp only [calculateStep_anySymbol]

theorem flatMap_word (exprs : List PostfixExpr) :
    exprs.flatMap word = (exprs.flatMap OpTree.postorder).map anySymbol := by
  rw [List.map_flatMap]
  rfl

theorem expCalculate_words (byZero : ℤ → ℤ) {exprs : List PostfixExpr}
    (hne : exprs ≠ []) (hshort : (exprs.flatMap word).length < 2 ^ 31) :
    expCalculate (unboundedArithmetic byZero) (exprs.flatMap word) =
      .ok (valueOf byZero (exprs.getLast hne)) := by
  rw [expCalculate, calculateLoop_eq_foldlM _ hshort, flatMap_word,
    foldlM_calculateStep_map, foldlM_totalStep_forest, List.append_nil]
  induction exprs using List.reverseRecOn with
  | nil => exact absurd rfl hne
  | append_singleton exprs expr _ =>
      rw [List.map_append, List.reverse_append, List.getLast_append_singleton]
      rfl

/-- The evaluation does not run out of numbers exactly on one or more postfix
expressions one after another, and returns the value of the last one. -/
def EvaluatesWords (byZero : ℤ → ℤ) (postfixExpr : List CChar) : Prop :=
  (expCalculate (unboundedArithmetic byZero) postfixExpr ≠
      .error .emptyStack ↔
    ∃ exprs : List PostfixExpr,
      exprs ≠ [] ∧ postfixExpr = exprs.flatMap word) ∧
  ∀ (exprs : List PostfixExpr) (hne : exprs ≠ []),
    postfixExpr = exprs.flatMap word →
      expCalculate (unboundedArithmetic byZero) postfixExpr =
        .ok (valueOf byZero (exprs.getLast hne))

theorem evaluatesWords_of_short (byZero : ℤ → ℤ) {postfixExpr : List CChar}
    (hshort : postfixExpr.length < 2 ^ 31) :
    EvaluatesWords byZero postfixExpr := by
  constructor
  · constructor
    · intro hruns
      rcases anySymbol_surjective.list_map postfixExpr with ⟨tokens, htokens⟩
      rw [expCalculate, calculateLoop_eq_foldlM _ hshort, ← htokens,
        foldlM_calculateStep_map] at hruns
      rcases @foldlM_totalStep _ _ _ _ anyValue (combine byZero)
        Fault.emptyStack tokens with hfail | ⟨exprs, stack, hrun, hholds, hword⟩
      · rw [hfail] at hruns
        exact absurd rfl hruns
      · refine ⟨exprs, ?_, ?_⟩
        · intro hnil
          rw [hrun, hholds, hnil] at hruns
          exact absurd rfl hruns
        · rw [flatMap_word, hword, htokens]
    · rintro ⟨exprs, hne, hword⟩
      rw [hword] at hshort ⊢
      rw [expCalculate_words byZero hne hshort]
      intro hfail
      cases hfail
  · intro exprs hne hword
    rw [hword] at hshort ⊢
    rw [expCalculate_words byZero hne hshort]

/-! ## How many numbers there are -/

/-- Every beginning of the string has more operands than operators. -/
def KeepsNumbers (postfixExpr : List CChar) : Prop :=
  ∀ front, front <+: postfixExpr → front ≠ [] →
    front.countP isOperator < front.countP fun c => !isOperator c

theorem KeepsNumbers.of_append {postfixExpr more : List CChar}
    (hall : KeepsNumbers (postfixExpr ++ more)) : KeepsNumbers postfixExpr :=
  fun front hfront => hall front (hfront.trans (List.prefix_append _ more))

theorem not_keepsNumbers_iff (postfixExpr : List CChar) :
    ¬KeepsNumbers postfixExpr ↔ ∃ front, front <+: postfixExpr ∧ front ≠ [] ∧
      (front.countP fun c => !isOperator c) ≤ front.countP isOperator := by
  simp [KeepsNumbers]

theorem calculateStep_operator (byZero : ℤ → ℤ) (first second : ℤ)
    (rest : List ℤ) {c : CChar} (hc : isOperator c = true) :
    ∃ result, calculateStep (unboundedArithmetic byZero)
      (first :: second :: rest) c = .ok (result :: rest) := by
  rcases exists_operator_of_isOperator hc with ⟨op, rfl⟩
  have hstep := calculateStep_anySymbol byZero (first :: second :: rest)
    (.inl op)
  exact ⟨combine byZero op second first, hstep⟩

theorem calculateStep_operator_few (byZero : ℤ → ℤ) {s : List ℤ} {c : CChar}
    (hc : isOperator c = true) (hs : s.length < 2) :
    calculateStep (unboundedArithmetic byZero) s c = .error .emptyStack := by
  rcases exists_operator_of_isOperator hc with ⟨op, rfl⟩
  have hstep := calculateStep_anySymbol byZero s (.inl op)
  rcases s with _ | ⟨first, _ | ⟨second, rest⟩⟩
  · exact hstep
  · exact hstep
  · simp at hs

theorem keepsNumbers_append_singleton {postfixExpr : List CChar} {c : CChar}
    (hkeeps : KeepsNumbers postfixExpr)
    (hall : (postfixExpr ++ [c]).countP isOperator <
      (postfixExpr ++ [c]).countP fun d => !isOperator d) :
    KeepsNumbers (postfixExpr ++ [c]) := by
  intro front hfront hne
  rcases List.prefix_concat_iff.mp hfront with rfl | hfront
  · exact hall
  · exact hkeeps front hfront hne

/-- The stack has a number for every operand but those that operators have
taken, and runs empty where no number is left. -/
theorem foldlM_calculateStep_keepsNumbers (byZero : ℤ → ℤ)
    (postfixExpr : List CChar) :
    (∃ s, postfixExpr.foldlM
        (calculateStep (unboundedArithmetic byZero)) [] = .ok s ∧
        s.length + postfixExpr.countP isOperator =
          (postfixExpr.countP fun c => !isOperator c) ∧
        KeepsNumbers postfixExpr) ∨
      (postfixExpr.foldlM (calculateStep (unboundedArithmetic byZero)) [] =
          .error .emptyStack ∧ ¬KeepsNumbers postfixExpr) := by
  induction postfixExpr using List.reverseRecOn with
  | nil =>
      left
      refine ⟨[], rfl, rfl, ?_⟩
      intro front hfront hne
      exact absurd (List.prefix_nil.mp hfront) hne
  | append_singleton front c ih =>
      rw [List.foldlM_append]
      rcases ih with ⟨s, hrun, hlength, hkeeps⟩ | ⟨hfail, hkeeps⟩
      · rw [hrun]
        simp only [List.foldlM_cons, List.foldlM_nil, bind_pure]
        change (∃ s', calculateStep _ s c = _ ∧ _) ∨ calculateStep _ s c = _ ∧ _
        cases hc : isOperator c with
        | false =>
            left
            have hcount : s.length + 1 + (front ++ [c]).countP isOperator =
                (front ++ [c]).countP fun d => !isOperator d := by
              simp only [List.countP_append, List.countP_cons, List.countP_nil,
                hc]
              simp only [Bool.not_false, Bool.false_eq_true, if_true, if_false]
              omega
            exact ⟨_, calculateStep_operand _ s hc, hcount,
              keepsNumbers_append_singleton hkeeps (by omega)⟩
        | true =>
            have hcount : s.length + (front ++ [c]).countP isOperator =
                ((front ++ [c]).countP fun d => !isOperator d) + 1 := by
              simp only [List.countP_append, List.countP_cons, List.countP_nil,
                hc]
              simp only [Bool.not_true, Bool.false_eq_true, if_true, if_false]
              omega
            rcases lt_or_ge s.length 2 with hfew | hmany
            · right
              refine ⟨calculateStep_operator_few byZero hc hfew, ?_⟩
              intro hall
              have hlast := hall _ (List.prefix_refl _) (by simp)
              omega
            · left
              rcases s with _ | ⟨first, _ | ⟨second, rest⟩⟩
              · simp at hmany
              · simp at hmany
              · rcases calculateStep_operator byZero first second rest hc with
                  ⟨result, hstep⟩
                simp only [List.length_cons] at hcount hmany
                refine ⟨_, hstep, ?_, keepsNumbers_append_singleton hkeeps ?_⟩
                · rw [List.length_cons]
                  omega
                · omega
      · right
        rw [hfail]
        exact ⟨rfl, fun hall => hkeeps hall.of_append⟩

theorem keepsNumbers_words (byZero : ℤ → ℤ) (exprs : List PostfixExpr) :
    KeepsNumbers (exprs.flatMap word) := by
  rcases foldlM_calculateStep_keepsNumbers byZero (exprs.flatMap word) with
    ⟨_, _, _, hkeeps⟩ | ⟨hfail, _⟩
  · exact hkeeps
  · rw [flatMap_word, foldlM_calculateStep_map, foldlM_totalStep_forest] at hfail
    cases hfail

/-- The stack is found empty before the index overflows. -/
theorem evaluatesWords_of_long_iff (byZero : ℤ → ℤ) {postfixExpr : List CChar}
    (hlong : 2 ^ 31 ≤ postfixExpr.length) :
    EvaluatesWords byZero postfixExpr ↔
      ¬KeepsNumbers (postfixExpr.take (2 ^ 31)) := by
  unfold EvaluatesWords expCalculate
  rw [calculateLoop_of_long _ hlong]
  rcases foldlM_calculateStep_keepsNumbers byZero
    (postfixExpr.take (2 ^ 31)) with ⟨s, hrun, _, hkeeps⟩ | ⟨hfail, hkeeps⟩
  · rw [hrun]
    constructor
    · rintro ⟨hruns, hvalues⟩
      exfalso
      have hover : (Except.error Fault.overflow : Except Fault ℤ) ≠
          .error .emptyStack := by
        intro h
        cases h
      rcases hruns.mp hover with ⟨exprs, hne, hword⟩
      have hvalue := hvalues exprs hne hword
      cases hvalue
    · intro hnot
      exact absurd hkeeps hnot
  · rw [hfail]
    refine iff_of_true ⟨?_, ?_⟩ hkeeps
    · refine iff_of_false (fun hne => hne rfl) ?_
      rintro ⟨exprs, _, rfl⟩
      have hall := keepsNumbers_words byZero exprs
      rw [← List.take_append_drop (2 ^ 31) (exprs.flatMap word)] at hall
      exact hkeeps hall.of_append
    · rintro exprs _ rfl
      have hall := keepsNumbers_words byZero exprs
      rw [← List.take_append_drop (2 ^ 31) (exprs.flatMap word)] at hall
      exact absurd hall.of_append hkeeps

theorem expCalculate_runs_iff (byZero : ℤ → ℤ) (postfixExpr : List CChar) :
    EvaluatesWords byZero postfixExpr ↔
      postfixExpr.length < 2 ^ 31 ∨
        ∃ front, front <+: postfixExpr ∧ front.length ≤ 2 ^ 31 ∧ front ≠ [] ∧
          (front.countP fun c => !isOperator c) ≤ front.countP isOperator := by
  rcases lt_or_ge postfixExpr.length (2 ^ 31) with hshort | hlong
  · exact iff_of_true (evaluatesWords_of_short byZero hshort) (Or.inl hshort)
  · rw [evaluatesWords_of_long_iff byZero hlong, not_keepsNumbers_iff]
    simp only [hlong.not_gt, false_or]
    refine exists_congr fun front => ?_
    rw [List.prefix_take_iff, and_assoc]

/-- Operands only, one more than the index can count. -/
theorem not_evaluatesWords_operands :
    ¬EvaluatesWords (fun _ => 0) (List.replicate (2 ^ 31) (char 'a')) := by
  have hlong : 2 ^ 31 ≤ (List.replicate (2 ^ 31) (char 'a')).length := by
    rw [List.length_replicate]
  rw [evaluatesWords_of_long_iff _ hlong, not_not]
  intro front hfront hne
  have hsame : ∀ c ∈ front, isOperator c = false := by
    intro c hc
    rw [List.eq_of_mem_replicate (List.mem_of_mem_take (hfront.subset hc))]
    decide
  rw [List.countP_eq_zero.mpr (by simpa using hsame),
    List.countP_eq_length.mpr (by simpa using hsame)]
  exact List.length_pos_of_ne_nil hne

end Miscellaneous.ReversePolish
