import Mathlib.Tactic

/-!
# Postorder words and the stack machine that reads them

A tree of binary operators is written as its postorder word.  A stack
machine which pushes operands and combines the two topmost entries at an
operator turns the word of a tree into the value of the tree, whatever lies
below on the stack.  Run on trees themselves, the same machine rebuilds the
tree, so a postorder word determines its tree.  A word on which the machine
never finds too few entries is the word of several trees one after another, and
the stack holds their values.
-/

namespace PostfixTrees

inductive OpTree (Op Leaf : Type*) where
  | leaf (operand : Leaf)
  | node (op : Op) (left right : OpTree Op Leaf)
  deriving DecidableEq

variable {Op Leaf : Type*}

def OpTree.postorder : OpTree Op Leaf → List (Op ⊕ Leaf)
  | .leaf operand => [.inr operand]
  | .node op left right => left.postorder ++ right.postorder ++ [.inl op]

@[simp] theorem OpTree.postorder_leaf (operand : Leaf) :
    (OpTree.leaf operand : OpTree Op Leaf).postorder = [.inr operand] := rfl

@[simp] theorem OpTree.postorder_node
    (op : Op) (left right : OpTree Op Leaf) :
    (OpTree.node op left right).postorder =
      left.postorder ++ right.postorder ++ [.inl op] := rfl

section Machine

variable {Value Fault : Type*}
variable (value : Leaf → Value)
variable (apply : Op → Value → Value → Except Fault Value)
variable (underflow : Fault)

/-- One token: push an operand, or replace the two topmost entries by the
result of the operator.  The deeper entry is the left argument. -/
def machineStep (stack : List Value) : Op ⊕ Leaf → Except Fault (List Value)
  | .inr operand => .ok (value operand :: stack)
  | .inl op =>
      match stack with
      | right :: left :: rest => do
          let result ← apply op left right
          return result :: rest
      | _ => .error underflow

/-- The value of a tree, left argument first; the first fault wins. -/
def OpTree.eval : OpTree Op Leaf → Except Fault Value
  | .leaf operand => .ok (value operand)
  | .node op left right => do
      let leftValue ← left.eval
      let rightValue ← right.eval
      apply op leftValue rightValue

/-- The machine reads the word of a tree as one push of the tree's value. -/
theorem foldlM_machineStep_postorder
    (tree : OpTree Op Leaf) (rest : List (Op ⊕ Leaf))
    (stack : List Value) :
    (tree.postorder ++ rest).foldlM (machineStep value apply underflow)
        stack =
      tree.eval value apply >>= fun result =>
        rest.foldlM (machineStep value apply underflow) (result :: stack) := by
  induction tree generalizing rest stack with
  | leaf operand =>
      rfl
  | node op left right ihleft ihright =>
      simp only [OpTree.postorder_node, List.append_assoc, ihleft, ihright,
        OpTree.eval, bind_assoc]
      -- both arguments are now on the stack, the left one below
      simp only [List.singleton_append, List.foldlM_cons, machineStep,
        bind_assoc, pure_bind]

theorem foldlM_machineStep_postorder_self
    (tree : OpTree Op Leaf) (stack : List Value) :
    tree.postorder.foldlM (machineStep value apply underflow) stack =
      (tree.eval value apply).map (· :: stack) := by
  have hrun :=
    foldlM_machineStep_postorder value apply underflow tree [] stack
  rw [List.append_nil] at hrun
  rw [hrun]
  cases tree.eval value apply <;> rfl

end Machine

theorem OpTree.eval_node (tree : OpTree Op Leaf) :
    tree.eval OpTree.leaf
        (fun op left right =>
          (.ok (.node op left right) : Except Unit (OpTree Op Leaf))) =
      .ok tree := by
  induction tree with
  | leaf operand => rfl
  | node op left right ihleft ihright =>
      simp only [OpTree.eval, ihleft, ihright]
      rfl

/-- Unique readability: a postorder word determines its tree. -/
theorem OpTree.postorder_injective :
    Function.Injective (OpTree.postorder : OpTree Op Leaf → _) := by
  intro tree other hword
  have hread := fun t : OpTree Op Leaf =>
    foldlM_machineStep_postorder_self OpTree.leaf
      (fun op left right =>
        (.ok (.node op left right) : Except Unit (OpTree Op Leaf)))
      () t []
  have htree := hread tree
  rw [hword, hread other, OpTree.eval_node, OpTree.eval_node] at htree
  simpa [Except.map] using htree.symm

/-! ## Words of several trees -/

def OpTree.fold {Value : Type*} (value : Leaf → Value)
    (combine : Op → Value → Value → Value) : OpTree Op Leaf → Value
  | .leaf operand => value operand
  | .node op left right =>
      combine op (left.fold value combine) (right.fold value combine)

section Forests

variable {Value Fault : Type*} {value : Leaf → Value}
variable {combine : Op → Value → Value → Value} {underflow : Fault}

/-- The machine, where no operator has a fault. -/
def totalStep (value : Leaf → Value) (combine : Op → Value → Value → Value)
    (underflow : Fault) : List Value → Op ⊕ Leaf → Except Fault (List Value) :=
  machineStep value (fun op left right => .ok (combine op left right)) underflow

theorem OpTree.eval_eq_fold (tree : OpTree Op Leaf) :
    tree.eval value
        (fun op left right => (.ok (combine op left right) : Except Fault _)) =
      .ok (tree.fold value combine) := by
  induction tree with
  | leaf operand => rfl
  | node op left right ihleft ihright =>
      simp only [OpTree.eval, ihleft, ihright]
      rfl

/-- The trees that have been read, the latest one last, and their values. -/
def Holds (value : Leaf → Value) (combine : Op → Value → Value → Value)
    (trees : List (OpTree Op Leaf)) (stack : List Value) : Prop :=
  stack = (trees.map (OpTree.fold value combine)).reverse

/-- A token completes a tree: an operand by itself, an operator with the two
latest trees. -/
theorem totalStep_holds {trees : List (OpTree Op Leaf)} {stack : List Value}
    (hholds : Holds value combine trees stack) (token : Op ⊕ Leaf) :
    totalStep value combine underflow stack token = .error underflow ∨
      ∃ next stack',
        totalStep value combine underflow stack token = .ok stack' ∧
          Holds value combine next stack' ∧
          next.flatMap OpTree.postorder =
            trees.flatMap OpTree.postorder ++ [token] := by
  cases token with
  | inr operand =>
      right
      refine ⟨trees ++ [.leaf operand], value operand :: stack, rfl, ?_, ?_⟩
      · rw [Holds, hholds, List.map_append, List.reverse_append]
        rfl
      · rw [List.flatMap_append]
        rfl
  | inl op =>
      induction trees using List.reverseRecOn with
      | nil =>
          rw [hholds]
          exact Or.inl rfl
      | append_singleton before right _ =>
          induction before using List.reverseRecOn with
          | nil =>
              rw [hholds]
              exact Or.inl rfl
          | append_singleton before left _ =>
              right
              refine ⟨before ++ [.node op left right],
                combine op (left.fold value combine)
                    (right.fold value combine) ::
                  (before.map (OpTree.fold value combine)).reverse,
                ?_, ?_, ?_⟩
              · rw [hholds, List.map_append, List.map_append,
                  List.reverse_append, List.reverse_append]
                rfl
              · rw [Holds, List.map_append, List.reverse_append]
                rfl
              · simp only [List.flatMap_append, List.flatMap_singleton,
                  OpTree.postorder_node, List.append_assoc]

theorem foldlM_totalStep (tokens : List (Op ⊕ Leaf)) :
    tokens.foldlM (totalStep value combine underflow) [] = .error underflow ∨
      ∃ trees stack,
        tokens.foldlM (totalStep value combine underflow) [] = .ok stack ∧
          Holds value combine trees stack ∧
          trees.flatMap OpTree.postorder = tokens := by
  induction tokens using List.reverseRecOn with
  | nil => exact Or.inr ⟨[], [], rfl, rfl, rfl⟩
  | append_singleton tokens token ih =>
      rw [List.foldlM_append]
      rcases ih with hfail | ⟨trees, stack, hrun, hholds, hword⟩
      · left
        rw [hfail]
        rfl
      · rw [hrun]
        simp only [List.foldlM_cons, List.foldlM_nil, bind_pure]
        rw [← hword]
        exact totalStep_holds hholds token

theorem foldlM_totalStep_forest (trees : List (OpTree Op Leaf))
    (stack : List Value) :
    (trees.flatMap OpTree.postorder).foldlM
        (totalStep value combine underflow) stack =
      .ok ((trees.map (OpTree.fold value combine)).reverse ++ stack) := by
  induction trees generalizing stack with
  | nil => rfl
  | cons tree trees ih =>
      rw [List.flatMap_cons, totalStep, foldlM_machineStep_postorder,
        OpTree.eval_eq_fold]
      change (trees.flatMap OpTree.postorder).foldlM
        (totalStep value combine underflow) _ = _
      rw [ih]
      simp

end Forests

/-! ## Beginnings of a word -/

def OpTree.operands : OpTree Op Leaf → List Leaf
  | .leaf operand => [operand]
  | .node _ left right => left.operands ++ right.operands

/-- The tree and the trees that it is built from. -/
def OpTree.subtrees : OpTree Op Leaf → List (OpTree Op Leaf)
  | .leaf operand => [.leaf operand]
  | .node op left right => .node op left right :: left.subtrees ++ right.subtrees

theorem OpTree.self_mem_subtrees (tree : OpTree Op Leaf) :
    tree ∈ tree.subtrees := by
  cases tree with
  | leaf operand => exact List.mem_singleton_self _
  | node op left right => exact List.mem_cons_self ..

theorem OpTree.operands_length_pos (tree : OpTree Op Leaf) :
    0 < tree.operands.length := by
  induction tree with
  | leaf operand => exact Nat.one_pos
  | node op left right ihleft _ =>
      rw [OpTree.operands, List.length_append]
      omega

theorem OpTree.operands_sublist_of_mem_subtrees {tree part : OpTree Op Leaf}
    (hpart : part ∈ tree.subtrees) : part.operands.Sublist tree.operands := by
  induction tree with
  | leaf operand =>
      rw [OpTree.subtrees, List.mem_singleton] at hpart
      rw [hpart]
  | node op left right ihleft ihright =>
      rw [OpTree.subtrees, List.cons_append, List.mem_cons,
        List.mem_append] at hpart
      rcases hpart with rfl | hleft | hright
      · exact List.Sublist.refl _
      · exact (ihleft hleft).trans (List.sublist_append_left _ _)
      · exact (ihright hright).trans (List.sublist_append_right _ _)

/-- A beginning of the word of a tree consists of words of its subtrees. -/
theorem OpTree.exists_subtrees_of_isPrefix {tree : OpTree Op Leaf}
    {before : List (Op ⊕ Leaf)} (hbefore : before <+: tree.postorder) :
    ∃ trees : List (OpTree Op Leaf),
      before = trees.flatMap OpTree.postorder ∧
        ∀ part ∈ trees, part ∈ tree.subtrees := by
  induction tree generalizing before with
  | leaf operand =>
      rcases List.prefix_cons_iff.mp hbefore with rfl | ⟨rest, rfl, hrest⟩
      · exact ⟨[], rfl, by simp⟩
      · rw [List.prefix_nil] at hrest
        exact ⟨[.leaf operand], by simp [hrest], by simp [OpTree.subtrees]⟩
  | node op left right ihleft ihright =>
      have hleftSubtree {part : OpTree Op Leaf} (hpart : part ∈ left.subtrees) :
          part ∈ (OpTree.node op left right).subtrees :=
        List.mem_cons_of_mem _ (List.mem_append_left _ hpart)
      have hrightSubtree {part : OpTree Op Leaf}
          (hpart : part ∈ right.subtrees) :
          part ∈ (OpTree.node op left right).subtrees :=
        List.mem_cons_of_mem _ (List.mem_append_right _ hpart)
      rw [OpTree.postorder_node, List.prefix_concat_iff] at hbefore
      rcases hbefore with rfl | hbefore
      · exact ⟨[.node op left right], by simp,
          by simp [OpTree.subtrees]⟩
      · rcases List.prefix_or_prefix_of_prefix hbefore
          (List.prefix_append _ _) with hleft | ⟨rest, rfl⟩
        · rcases ihleft hleft with ⟨trees, hword, htrees⟩
          exact ⟨trees, hword, fun part hpart =>
            hleftSubtree (htrees part hpart)⟩
        · rw [List.prefix_append_right_inj] at hbefore
          rcases ihright hbefore with ⟨trees, hword, htrees⟩
          refine ⟨left :: trees, by rw [List.flatMap_cons, hword], ?_⟩
          intro part hpart
          rcases List.mem_cons.mp hpart with rfl | hpart
          · exact hleftSubtree part.self_mem_subtrees
          · exact hrightSubtree (htrees part hpart)

section Beginnings

variable {Value Fault : Type*} {value : Leaf → Value}
variable {apply : Op → Value → Value → Except Fault Value}
variable (underflow : Fault)

theorem OpTree.eval_node_eq_ok {op : Op} {left right : OpTree Op Leaf}
    {result : Value} :
    (OpTree.node op left right).eval value apply = .ok result ↔
      ∃ leftValue rightValue, left.eval value apply = .ok leftValue ∧
        right.eval value apply = .ok rightValue ∧
          apply op leftValue rightValue = .ok result := by
  rw [OpTree.eval]
  cases left.eval value apply with
  | error fault => simp [bind, Except.bind]
  | ok leftValue =>
      cases right.eval value apply with
      | error fault => simp [bind, Except.bind]
      | ok rightValue => simp [bind, Except.bind]

theorem OpTree.eval_of_mem_subtrees {tree part : OpTree Op Leaf}
    {result : Value} (hresult : tree.eval value apply = .ok result)
    (hpart : part ∈ tree.subtrees) :
    ∃ partValue, part.eval value apply = .ok partValue := by
  induction tree generalizing result with
  | leaf operand =>
      rw [OpTree.subtrees, List.mem_singleton] at hpart
      exact ⟨result, hpart ▸ hresult⟩
  | node op left right ihleft ihright =>
      rw [OpTree.subtrees, List.cons_append, List.mem_cons,
        List.mem_append] at hpart
      rcases hpart with rfl | hpart
      · exact ⟨result, hresult⟩
      · rcases OpTree.eval_node_eq_ok.mp hresult with
          ⟨leftValue, rightValue, hleft, hright, _⟩
        rcases hpart with hpart | hpart
        · exact ihleft hleft hpart
        · exact ihright hright hpart

/-- The words of several trees put the values of the trees on the stack. -/
theorem foldlM_machineStep_forest {trees : List (OpTree Op Leaf)}
    {values : List Value}
    (hvalues : List.Forall₂ (fun tree result =>
      tree.eval value apply = .ok result) trees values) (stack : List Value) :
    (trees.flatMap OpTree.postorder).foldlM
        (machineStep value apply underflow) stack =
      .ok (values.reverse ++ stack) := by
  induction hvalues generalizing stack with
  | nil => rfl
  | @cons tree result trees values htree _ ih =>
      rw [List.flatMap_cons, foldlM_machineStep_postorder, htree]
      change (trees.flatMap OpTree.postorder).foldlM
        (machineStep value apply underflow) (result :: stack) = _
      rw [ih]
      simp

end Beginnings

end PostfixTrees
