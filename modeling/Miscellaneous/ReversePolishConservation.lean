import Miscellaneous.ReversePolish
import Mathlib.Tactic

/-!
# Conversion of arbitrary strings

`getPostfix` on any string, grammatical or not.  The stack holds the operators
that are still to come and the parentheses that are still open, so a closing
parenthesis finds the stack empty exactly if it closes nothing.  Operators are
only ever moved from the stack to the output, and no parenthesis reaches the
output before the end.
-/

namespace Miscellaneous.ReversePolish

def isOperand (c : CChar) : Bool :=
  !isOperator c && c != (char '(') && c != (char ')')

/-- No part at the beginning closes more parentheses than it opens. -/
def ClosesOpened (expr : List CChar) : Prop :=
  ∀ front, front <+: expr → front.count (char ')') ≤ front.count (char '(')

/-! ## What a step does -/

/-- Operators go from the top of the stack to the output. -/
structure Moves (output stack moved : List CChar) (next : Conversion) : Prop where
  output_eq : next.output = output ++ moved
  stack_eq : stack = moved ++ next.opStack
  operators : ∀ c ∈ moved, isOperator c = true

theorem popOperators_moves (c : CChar) (output stack : List CChar) :
    ∃ moved, Moves output stack moved (popOperators c output stack) := by
  induction stack generalizing output with
  | nil => exact ⟨[], by simp [popOperators], rfl, by simp⟩
  | cons top rest ih =>
      rw [popOperators]
      split_ifs with htop
      · rcases ih (output ++ [top]) with ⟨moved, hmoves⟩
        rw [Bool.and_eq_true] at htop
        refine ⟨top :: moved, ?_, ?_, ?_⟩
        · rw [hmoves.output_eq, List.append_assoc]
          rfl
        · rw [List.cons_append, ← hmoves.stack_eq]
        · rw [List.forall_mem_cons]
          exact ⟨htop.1, hmoves.operators⟩
      · exact ⟨[], by simp, rfl, by simp⟩

/-- The stack has nothing but operators and open parentheses. -/
def StackSymbols (stack : List CChar) : Prop :=
  ∀ c ∈ stack, isOperator c = true ∨ c = (char '(')

theorem popToParen_moves {stack : List CChar} (hstack : StackSymbols stack)
    (output : List CChar) :
    ((char '(') ∉ stack ∧ popToParen output stack = .error .emptyStack) ∨
      ∃ moved rest,
        popToParen output stack = .ok ⟨output ++ moved, rest⟩ ∧
          stack = moved ++ (char '(') :: rest ∧ ∀ c ∈ moved, isOperator c = true := by
  induction stack generalizing output with
  | nil => exact Or.inl ⟨List.not_mem_nil, rfl⟩
  | cons top rest ih =>
      rw [StackSymbols, List.forall_mem_cons] at hstack
      rw [popToParen]
      split_ifs with htop
      · rcases ih hstack.2 (output ++ [top]) with
          ⟨hopen, hfail⟩ | ⟨moved, after, hrun, hrest, hoperators⟩
        · left
          rw [List.mem_cons, not_or]
          exact ⟨⟨Ne.symm htop, hopen⟩, hfail⟩
        · right
          refine ⟨top :: moved, after, ?_, ?_, ?_⟩
          · rw [hrun, List.append_assoc]
            rfl
          · rw [hrest]
            rfl
          · rw [List.forall_mem_cons]
            exact ⟨hstack.1.resolve_right htop, hoperators⟩
      · rw [not_not] at htop
        right
        refine ⟨[], rest, ?_, ?_, ?_⟩
        · rw [List.append_nil]
        · rw [htop]
          rfl
        · simp

/-! ## What is conserved -/

/-- After the characters `read` everything is on the stack or in the output, but
parentheses that were closed. -/
structure Conserves (read : List CChar) (state : Conversion) : Prop where
  stack : StackSymbols state.opStack
  noOpen : (char '(') ∉ state.output
  noClose : (char ')') ∉ state.output
  opened : state.opStack.count (char '(') + read.count (char ')') = read.count (char '(')
  operands : state.output.filter isOperand = read.filter isOperand
  operators : ∀ op, isOperator op = true →
    state.output.count op + state.opStack.count op = read.count op

theorem conserves_nil : Conserves [] ⟨[], []⟩ := by
  constructor <;> simp [StackSymbols]

theorem filter_isOperand_operators {moved : List CChar}
    (hmoved : ∀ c ∈ moved, isOperator c = true) :
    moved.filter isOperand = [] := by
  rw [List.filter_eq_nil_iff]
  intro c hc
  simp [isOperand, hmoved c hc]

theorem notMem_operators {moved : List CChar} {c : CChar}
    (hmoved : ∀ c ∈ moved, isOperator c = true) (hc : isOperator c = false) :
    c ∉ moved := by
  intro hmem
  rw [hmoved c hmem] at hc
  cases hc

theorem Conserves.moves {read moved : List CChar} {state next : Conversion}
    (hstate : Conserves read state)
    (hmoves : Moves state.output state.opStack moved next) :
    Conserves read next := by
  have hopen : (char '(') ∉ moved := notMem_operators hmoves.operators rfl
  have hclose : (char ')') ∉ moved := notMem_operators hmoves.operators rfl
  constructor
  · intro c hc
    apply hstate.stack c
    rw [hmoves.stack_eq]
    exact List.mem_append_right moved hc
  · rw [hmoves.output_eq, List.mem_append, not_or]
    exact ⟨hstate.noOpen, hopen⟩
  · rw [hmoves.output_eq, List.mem_append, not_or]
    exact ⟨hstate.noClose, hclose⟩
  · rw [← hstate.opened, hmoves.stack_eq, List.count_append,
      List.count_eq_zero_of_not_mem hopen, Nat.zero_add]
  · rw [hmoves.output_eq, List.filter_append,
      filter_isOperand_operators hmoves.operators, List.append_nil,
      hstate.operands]
  · intro op hop
    rw [← hstate.operators op hop, hmoves.output_eq, hmoves.stack_eq,
      List.count_append, List.count_append]
    omega

theorem Conserves.push {read : List CChar} {state : Conversion} {c : CChar}
    (hstate : Conserves read state) (hc : isOperator c = true ∨ c = (char '(')) :
    Conserves (read ++ [c]) ⟨state.output, c :: state.opStack⟩ := by
  have hoperand : isOperand c = false := by
    rcases hc with hc | hc
    · simp [isOperand, hc]
    · simp [isOperand, hc]
  have hclose : c ≠ (char ')') := by
    rintro rfl
    rcases hc with hc | hc <;> cases hc
  constructor
  · rw [StackSymbols, List.forall_mem_cons]
    exact ⟨hc, hstate.stack⟩
  · exact hstate.noOpen
  · exact hstate.noClose
  · have hopened := hstate.opened
    simp only [List.count_append, List.count_cons, List.count_nil, beq_iff_eq,
      if_neg hclose]
    omega
  · rw [List.filter_append, hstate.operands]
    simp [hoperand]
  · intro op hop
    have hoperators := hstate.operators op hop
    simp only [List.count_append, List.count_cons, List.count_nil]
    omega

theorem Conserves.operand {read : List CChar} {state : Conversion} {c : CChar}
    (hstate : Conserves read state) (hoperator : isOperator c = false)
    (hopen : c ≠ (char '(')) (hclose : c ≠ (char ')')) :
    Conserves (read ++ [c]) ⟨state.output ++ [c], state.opStack⟩ := by
  have hoperand : isOperand c = true := by
    simp [isOperand, hoperator, hopen, hclose]
  constructor
  · exact hstate.stack
  · rw [List.mem_append, List.mem_singleton, not_or]
    exact ⟨hstate.noOpen, hopen.symm⟩
  · rw [List.mem_append, List.mem_singleton, not_or]
    exact ⟨hstate.noClose, hclose.symm⟩
  · have hopened := hstate.opened
    simp only [List.count_append, List.count_cons, List.count_nil, beq_iff_eq,
      if_neg hclose, if_neg hopen]
    omega
  · rw [List.filter_append, List.filter_append, hstate.operands]
  · intro op hop
    have hoperators := hstate.operators op hop
    simp only [List.count_append]
    omega

theorem Conserves.close {read rest : List CChar} {output : List CChar}
    (hstate : Conserves read ⟨output, (char '(') :: rest⟩) :
    Conserves (read ++ [(char ')')]) ⟨output, rest⟩ := by
  constructor
  · exact fun c hc => hstate.stack c (List.mem_cons_of_mem _ hc)
  · exact hstate.noOpen
  · exact hstate.noClose
  · have hopened := hstate.opened
    simp only [List.count_append, List.count_cons, List.count_nil, beq_iff_eq]
      at hopened ⊢
    simp only [close_ne_open, if_true, if_false] at hopened ⊢
    omega
  · rw [List.filter_append, hstate.operands]
    simp [isOperand]
  · intro op hop
    have hoperators := hstate.operators op hop
    have hop' : op ≠ (char '(') ∧ op ≠ (char ')') := by
      constructor <;> rintro rfl <;> cases hop
    simp only [List.count_append, List.count_cons, List.count_nil, beq_iff_eq,
      hop'.1.symm, hop'.2.symm, if_false] at hoperators ⊢
    exact hoperators

theorem convertStep_conserves {read : List CChar} {state : Conversion}
    (hstate : Conserves read state) (c : CChar) :
    (∃ next, convertStep state c = .ok next ∧ Conserves (read ++ [c]) next) ∨
      (convertStep state c = .error .emptyStack ∧ c = (char ')') ∧
        read.count (char ')') = read.count (char '(')) := by
  rw [convertStep]
  split_ifs with hoperator hopen hclose
  · left
    rcases popOperators_moves c state.output state.opStack with ⟨moved, hmoves⟩
    exact ⟨_, rfl, (hstate.moves hmoves).push (Or.inl hoperator)⟩
  · left
    exact ⟨_, rfl, hstate.push (Or.inr hopen)⟩
  · subst hclose
    rcases popToParen_moves hstate.stack state.output with
      ⟨hmissing, hfail⟩ | ⟨moved, rest, hrun, hstack, hoperators⟩
    · right
      have hopened := hstate.opened
      rw [List.count_eq_zero_of_not_mem hmissing, Nat.zero_add] at hopened
      exact ⟨hfail, rfl, hopened⟩
    · left
      have hmoved : Conserves read ⟨state.output ++ moved, (char '(') :: rest⟩ :=
        hstate.moves ⟨rfl, hstack, hoperators⟩
      exact ⟨_, hrun, hmoved.close⟩
  · left
    exact ⟨_, rfl, hstate.operand (by simpa using hoperator) hopen hclose⟩

/-! ## The traversal -/

theorem ClosesOpened.of_append {expr more : List CChar}
    (hexpr : ClosesOpened (expr ++ more)) : ClosesOpened expr :=
  fun front hfront => hexpr front (hfront.trans (List.prefix_append expr more))

theorem closesOpened_append_singleton {expr : List CChar} {c : CChar}
    (hexpr : ClosesOpened expr)
    (hall : (expr ++ [c]).count (char ')') ≤ (expr ++ [c]).count (char '(')) :
    ClosesOpened (expr ++ [c]) := by
  intro front hfront
  rcases List.prefix_concat_iff.mp hfront with hsame | hfront
  · rw [hsame]
    exact hall
  · exact hexpr front hfront

/-- The traversal gets through the strings that close only what they have
opened. -/
theorem foldlM_convertStep_conserves (expr : List CChar) :
    (∃ state, expr.foldlM convertStep ⟨[], []⟩ = .ok state ∧
        Conserves expr state ∧ ClosesOpened expr) ∨
      (expr.foldlM convertStep ⟨[], []⟩ = .error .emptyStack ∧
        ¬ClosesOpened expr) := by
  induction expr using List.reverseRecOn with
  | nil =>
      left
      refine ⟨⟨[], []⟩, rfl, conserves_nil, ?_⟩
      intro front hfront
      rw [List.prefix_nil.mp hfront]
      simp
  | append_singleton expr c ih =>
      rw [List.foldlM_append]
      rcases ih with ⟨state, hrun, hstate, hcloses⟩ | ⟨hfail, hcloses⟩
      · rw [hrun]
        simp only [List.foldlM_cons, List.foldlM_nil, bind_pure]
        rcases convertStep_conserves hstate c with
          ⟨next, hnext, hconserves⟩ | ⟨hfail, hc, hcount⟩
        · left
          refine ⟨next, hnext, hconserves, ?_⟩
          apply closesOpened_append_singleton hcloses
          have hopened := hconserves.opened
          omega
        · right
          refine ⟨hfail, ?_⟩
          intro hall
          have hlast := hall (expr ++ [c]) (List.prefix_refl _)
          simp [hc, hcount] at hlast
      · right
        rw [hfail]
        exact ⟨rfl, fun hall => hcloses hall.of_append⟩

theorem not_closesOpened_iff (expr : List CChar) :
    ¬ClosesOpened expr ↔
      ∃ front, front <+: expr ∧ front.count (char '(') < front.count (char ')') := by
  simp [ClosesOpened]

/-- The conversion finds the stack empty exactly if some part at the beginning
closes more parentheses than it opens; otherwise nothing but parentheses is lost
and nothing is added. -/
def Conserved (expr : List CChar) : Prop :=
  (getPostfix expr = .error .emptyStack ↔
      ∃ front, front <+: expr ∧
        front.count (char '(') < front.count (char ')')) ∧
    ((¬∃ front, front <+: expr ∧
        front.count (char '(') < front.count (char ')')) →
      ∃ output, getPostfix expr = .ok output ∧ char ')' ∉ output ∧
        output.count (char '(') =
          expr.count (char '(') - expr.count (char ')') ∧
        output.filter isOperand = expr.filter isOperand ∧
        ∀ op, isOperator op = true → output.count op = expr.count op)

theorem conserved_of_short {expr : List CChar} (hshort : expr.length < 2 ^ 31) :
    Conserved expr := by
  unfold Conserved
  rw [← not_closesOpened_iff, not_not]
  rcases foldlM_convertStep_conserves expr with
    ⟨⟨output, stack⟩, hrun, hstate, hcloses⟩ | ⟨hfail, hcloses⟩
  · have hword := getPostfix_eq_of_loop hshort hrun
    constructor
    · rw [hword]
      simp [hcloses]
    · intro _
      have hoperand : stack.filter isOperand = [] := by
        rw [List.filter_eq_nil_iff]
        intro c hc
        rcases hstate.stack c hc with hoperator | hopen
        · simp [isOperand, hoperator]
        · simp [isOperand, hopen]
      refine ⟨output ++ stack, hword, ?_, ?_, ?_, ?_⟩
      · rw [List.mem_append, not_or]
        refine ⟨hstate.noClose, ?_⟩
        intro hmem
        rcases hstate.stack _ hmem with hop | hop
        · exact absurd hop (by decide)
        · exact absurd hop (by decide)
      · have hopened := hstate.opened
        rw [List.count_append, List.count_eq_zero_of_not_mem hstate.noOpen]
        simp only at hopened
        omega
      · rw [List.filter_append, hoperand, List.append_nil]
        exact hstate.operands
      · intro op hop
        rw [List.count_append]
        exact hstate.operators op hop
  · have hword : getPostfix expr = .error .emptyStack := by
      rw [getPostfix, forEachChar_eq_foldlM (le_refl 0) (by omega), hfail]
      rfl
    constructor
    · simp [hword, hcloses]
    · intro hall
      exact absurd hall hcloses

/-- The character that closes nothing comes before the index overflows. -/
theorem conserved_of_long_iff {expr : List CChar}
    (hlong : 2 ^ 31 ≤ expr.length) :
    Conserved expr ↔ ¬ClosesOpened (expr.take (2 ^ 31)) := by
  unfold Conserved
  rw [← not_closesOpened_iff, not_not, getPostfix_of_long hlong]
  rcases foldlM_convertStep_conserves (expr.take (2 ^ 31)) with
    ⟨state, hrun, _, hcloses⟩ | ⟨hfail, hcloses⟩
  · rw [hrun]
    constructor
    · rintro ⟨hempty, hconverts⟩
      exfalso
      by_cases hall : ClosesOpened expr
      · rcases hconverts hall with ⟨output, hword, _⟩
        cases hword
      · have hover := hempty.mpr hall
        cases hover
    · intro hnot
      exact absurd hcloses hnot
  · rw [hfail]
    have hall : ¬ClosesOpened expr := by
      intro hall
      rw [← List.take_append_drop (2 ^ 31) expr] at hall
      exact hcloses hall.of_append
    refine iff_of_true ⟨iff_of_true rfl hall, fun hopened => absurd hopened hall⟩
      hcloses

theorem getPostfix_conserves_iff (expr : List CChar) :
    Conserved expr ↔ expr.length < 2 ^ 31 ∨
      ∃ front, front <+: expr ∧ front.length ≤ 2 ^ 31 ∧
        front.count (char '(') < front.count (char ')') := by
  rcases lt_or_ge expr.length (2 ^ 31) with hshort | hlong
  · exact iff_of_true (conserved_of_short hshort) (Or.inl hshort)
  · rw [conserved_of_long_iff hlong, not_closesOpened_iff]
    simp only [hlong.not_gt, false_or]
    refine exists_congr fun front => ?_
    rw [List.prefix_take_iff, and_assoc]

/-- Operands only, one more than the index can count. -/
theorem not_conserved_operands :
    ¬Conserved (List.replicate (2 ^ 31) (char 'a')) := by
  have hlong : 2 ^ 31 ≤ (List.replicate (2 ^ 31) (char 'a')).length := by
    rw [List.length_replicate]
  rw [conserved_of_long_iff hlong, not_not]
  intro front hfront
  have hsame : ∀ c ∈ front, c = char 'a' := by
    intro c hc
    exact List.eq_of_mem_replicate
      (List.mem_of_mem_take (hfront.subset hc))
  have hclose : char ')' ∉ front :=
    fun hmem => absurd (hsame _ hmem) (by decide)
  rw [List.count_eq_zero_of_not_mem hclose]
  exact Nat.zero_le _

end Miscellaneous.ReversePolish
