import Miscellaneous.Permutation
import Mathlib.Tactic

/-!
# The rows of `perm` and `printPermutation`

Both functions emit one row for each recursion path, in the order of the
paths: the array after the swaps along the path, up to the last position.
The recursion paths correspond one to one to the bijections of the positions
`left, ..., right`, whatever values the array holds.
-/

namespace Miscellaneous.Permutation

open SwapPaths

def row (list : IntArray) (high : ℕ) : List ℤ :=
  (List.range (high + 1)).map list

/-- The rows in a token list; `row` is the part of the current line that has
been read. -/
def rowsFrom (row : List ℤ) : List Token → List (List ℤ)
  | [] => []
  | .number value :: rest => rowsFrom (row ++ [value]) rest
  | .space :: rest => rowsFrom row rest
  | .newline :: rest => row :: rowsFrom [] rest

def rowsPrinted (cout : List Token) : List (List ℤ) :=
  rowsFrom [] cout

def recursionPaths (left right : ℕ) : List (List ℕ) :=
  paths (right - left) left

/-- The array at the leaf which the loop indices `path` lead to. -/
def followPath (list : IntArray) : ℕ → List ℕ → IntArray
  | _, [] => list
  | low, i :: rest => followPath (swap list i low) (low + 1) rest

def rowsOfPaths (list : IntArray) (left right : ℕ) : List (List ℤ) :=
  (recursionPaths left right).map fun path =>
    row (followPath list left path) right

abbrev Position (left right : ℕ) := {i : ℕ // i ∈ Finset.Icc left right}

theorem followPath_eq_comp (list : IntArray) (low : ℕ) (path : List ℕ) :
    followPath list low path = list ∘ pathPerm low path := by
  induction path generalizing list low with
  | nil => rfl
  | cons i rest ih =>
      rw [followPath, ih, swap_eq_comp, pathPerm_cons, Equiv.Perm.coe_mul,
        Function.comp_assoc]

theorem forall_followPath_eq_iff {low : ℕ} {path : List ℕ}
    {s : Equiv.Perm ℕ} :
    (∀ list : IntArray, followPath list low path = list ∘ s) ↔
      pathPerm low path = s := by
  constructor
  · intro h
    have hcast := h fun i => (i : ℤ)
    rw [followPath_eq_comp] at hcast
    ext x
    simpa using congrFun hcast x
  · rintro rfl list
    exact followPath_eq_comp list low path

/-! ## Printed rows -/

theorem rowsFrom_numbers (values current : List ℤ) (rest : List Token) :
    rowsFrom current (values.map .number ++ .newline :: rest) =
      (current ++ values) :: rowsFrom [] rest := by
  induction values generalizing current with
  | nil => simp [rowsFrom]
  | cons value values ih => simp [rowsFrom, ih]

theorem rowsFrom_spaced (values current : List ℤ) (rest : List Token) :
    rowsFrom current
        (values.flatMap (fun v => [.number v, .space]) ++ .newline :: rest) =
      (current ++ values) :: rowsFrom [] rest := by
  induction values generalizing current with
  | nil => simp [rowsFrom]
  | cons value values ih => simp [rowsFrom, ih]

def numberLine (values : List ℤ) : List Token :=
  values.map .number ++ [.newline]

def spacedLine (values : List ℤ) : List Token :=
  values.flatMap (fun v => [.number v, .space]) ++ [.newline]

theorem rowsPrinted_numberLines (rows : List (List ℤ)) :
    rowsPrinted (rows.flatMap numberLine) = rows := by
  unfold rowsPrinted
  induction rows with
  | nil => rfl
  | cons row rows ih =>
      simp [numberLine, rowsFrom_numbers, ih]

theorem rowsPrinted_spacedLines (rows : List (List ℤ)) :
    rowsPrinted (rows.flatMap spacedLine) = rows := by
  unfold rowsPrinted
  induction rows with
  | nil => rfl
  | cons row rows ih =>
      simp [spacedLine, rowsFrom_spaced, ih]

theorem printRow_eq {low : ℕ} (hfits : low < intMax) (list : IntArray)
    (cout : List Token) :
    printRow list low cout = some (cout ++ numberLine (row list low)) := by
  have hloop (indices : List ℕ) (cout : List Token) :
      indices.foldl (fun cout i => cout ++ [.number (list i)]) cout =
        cout ++ indices.map fun i => .number (list i) := by
    induction indices generalizing cout with
    | nil => simp
    | cons i indices ih => simp [ih]
  have hrun : forUpTo 0 low (fun i cout => some (cout ++ [.number (list i)]))
      cout = some ((List.range' 0 (low + 1 - 0)).foldl
        (fun cout i => cout ++ [.number (list i)]) cout) :=
    forUpTo_eq hfits (fun _ _ _ _ => rfl) cout
  unfold printRow
  rw [hrun, hloop]
  simp [numberLine, row, List.range_eq_range', Function.comp_def]

theorem printRow_eq_none {low : ℕ} (hover : intMax ≤ low) (list : IntArray)
    (cout : List Token) : printRow list low cout = none := by
  unfold printRow
  rw [forUpTo_eq_none (Nat.zero_le low) hover]
  rfl

theorem printAndPushRow_eq {left : ℕ} (hfits : left < intMax)
    (input : IntArray) (out : Output) :
    printAndPushRow input left out =
      some ⟨out.cout ++ spacedLine (row input left),
        out.output ++ (row input left ++ [delimiter])⟩ := by
  have hloop (indices : List ℕ) (out : Output) :
      indices.foldl (fun (out : Output) i =>
          ⟨out.cout ++ [.number (input i), .space], out.output ++ [input i]⟩)
          out =
        ⟨out.cout ++ indices.flatMap fun i => [.number (input i), .space],
          out.output ++ indices.map input⟩ := by
    induction indices generalizing out with
    | nil => simp
    | cons i indices ih => simp [ih]
  have hrun : forUpTo 0 left
      (fun i (out : Output) => some
        ⟨out.cout ++ [.number (input i), .space], out.output ++ [input i]⟩) out =
      some ((List.range' 0 (left + 1 - 0)).foldl (fun (out : Output) i =>
        ⟨out.cout ++ [.number (input i), .space], out.output ++ [input i]⟩)
        out) :=
    forUpTo_eq hfits (fun _ _ _ _ => rfl) out
  unfold printAndPushRow
  rw [hrun, hloop]
  simp [spacedLine, row, List.range_eq_range', List.flatMap_map]

theorem printAndPushRow_eq_none {left : ℕ} (hover : intMax ≤ left)
    (input : IntArray) (out : Output) :
    printAndPushRow input left out = none := by
  unfold printAndPushRow
  rw [forUpTo_eq_none (Nat.zero_le left) hover]
  rfl

theorem foldl_numberLine (rows : List IntArray) (high : ℕ)
    (cout : List Token) :
    rows.foldl (fun cout list => cout ++ numberLine (row list high)) cout =
      cout ++ (rows.map fun list => row list high).flatMap numberLine := by
  induction rows generalizing cout with
  | nil => simp
  | cons list rows ih =>
      rw [List.foldl_cons, ih, List.map_cons, List.flatMap_cons,
        List.append_assoc]

theorem foldl_spacedLine (rows : List IntArray) (high : ℕ) (out : Output) :
    rows.foldl (fun (out : Output) list =>
        ⟨out.cout ++ spacedLine (row list high),
          out.output ++ (row list high ++ [delimiter])⟩) out =
      ⟨out.cout ++ (rows.map fun list => row list high).flatMap spacedLine,
        out.output ++
          (rows.map fun list => row list high).flatMap
            (fun row => row ++ [delimiter])⟩ := by
  induction rows generalizing out with
  | nil => simp
  | cons list rows ih =>
      rw [List.foldl_cons, ih]
      simp only [List.map_cons, List.flatMap_cons, List.append_assoc]

theorem swapRecursion_followPath {Out : Type*}
    {leaf : IntArray → ℕ → Out → Option Out} {value : IntArray → Out → Out}
    {left right : ℕ} (hle : left ≤ right) (hfits : right < intMax)
    (hleaf : ∀ list out, leaf list right out = some (value list out))
    (list : IntArray) (out : Out) :
    swapRecursion leaf (right - left) (list, out) left right =
      some (list, ((recursionPaths left right).map (followPath list left)).foldl
        (fun out array => value array out) out) := by
  have hright : left + (right - left) = right := by omega
  have hpaths := @swapRecursion_eq_paths Out leaf value (right - left) left
    (by omega) (by rwa [hright]) list out
  rw [hright] at hpaths
  rw [hpaths, List.foldl_map]
  simp only [recursionPaths, followPath_eq_comp]

theorem perm_eq {left right : ℕ} (hle : left ≤ right) (hfits : right < intMax)
    (list : IntArray) (cout : List Token) :
    perm list cout left right =
      some (list, cout ++ (rowsOfPaths list left right).flatMap numberLine) := by
  rw [perm, swapRecursion_followPath hle hfits (printRow_eq hfits),
    foldl_numberLine, List.map_map]
  rfl

theorem printPermutation_eq {left right : ℕ} (hle : left ≤ right)
    (hfits : right < intMax) (input : IntArray) (out : Output) :
    printPermutation input out left right =
      some (input,
        ⟨out.cout ++ (rowsOfPaths input left right).flatMap spacedLine,
          out.output ++ (rowsOfPaths input left right).flatMap
            (fun row => row ++ [delimiter])⟩) := by
  rw [printPermutation,
    swapRecursion_followPath hle hfits (printAndPushRow_eq hfits),
    foldl_spacedLine, List.map_map]
  rfl

theorem perm_eq_none {left right : ℕ} (hle : left ≤ right)
    (hover : intMax ≤ right) (list : IntArray) (cout : List Token) :
    perm list cout left right = none := by
  have hright : left + (right - left) = right := by omega
  have hnone := @swapRecursion_eq_none _ printRow (right - left) left
    (by rw [hright]; exact printRow_eq_none hover) list cout
  rwa [hright] at hnone

theorem printPermutation_eq_none {left right : ℕ} (hle : left ≤ right)
    (hover : intMax ≤ right) (input : IntArray) (out : Output) :
    printPermutation input out left right = none := by
  have hright : left + (right - left) = right := by omega
  have hnone := @swapRecursion_eq_none _ printAndPushRow (right - left) left
    (by rw [hright]; exact printAndPushRow_eq_none hover) input out
  rwa [hright] at hnone

/-! ## Paths and bijections of positions -/

theorem nodup_recursionPaths (left right : ℕ) :
    (recursionPaths left right).Nodup :=
  nodup_paths _ _

theorem length_recursionPaths (left right : ℕ) :
    (recursionPaths left right).length = (right - left + 1).factorial :=
  length_paths _ _

theorem pathPerm_apply_of_not_position {left right : ℕ} (hle : left ≤ right)
    {path : List ℕ} (hpath : path ∈ recursionPaths left right) {x : ℕ}
    (hx : x ∉ Finset.Icc left right) : pathPerm left path x = x := by
  apply pathPerm_apply_of_outside hpath
  rw [Finset.mem_Icc] at hx
  omega

theorem pathPerm_apply_mem_iff {left right : ℕ} (hle : left ≤ right)
    {path : List ℕ} (hpath : path ∈ recursionPaths left right) (x : ℕ) :
    pathPerm left path x ∈ Finset.Icc left right ↔
      x ∈ Finset.Icc left right := by
  constructor
  · intro himage
    by_contra hx
    rw [pathPerm_apply_of_not_position hle hpath hx] at himage
    exact hx himage
  · intro hx
    by_contra himage
    have hfixed := pathPerm_apply_of_not_position hle hpath himage
    rw [(pathPerm left path).injective hfixed] at himage
    exact himage hx

theorem existsUnique_recursionPath {left right : ℕ} (hle : left ≤ right)
    (s : Equiv.Perm (Position left right)) :
    ∃! path, path ∈ recursionPaths left right ∧
      pathPerm left path = Equiv.Perm.ofSubtype s := by
  apply existsUnique_path
  intro x hx
  apply Equiv.Perm.ofSubtype_apply_of_not_mem
  rw [Finset.mem_Icc]
  omega

def positionPerm {left right : ℕ} (hle : left ≤ right) (path : List ℕ)
    (hpath : path ∈ recursionPaths left right) :
    Equiv.Perm (Position left right) :=
  (pathPerm left path).subtypePerm (pathPerm_apply_mem_iff hle hpath)

theorem ofSubtype_positionPerm {left right : ℕ} (hle : left ≤ right)
    {path : List ℕ} (hpath : path ∈ recursionPaths left right) :
    Equiv.Perm.ofSubtype (positionPerm hle path hpath) =
      pathPerm left path := by
  apply Equiv.Perm.ofSubtype_subtypePerm
  intro x hmoved
  by_contra hx
  exact hmoved (pathPerm_apply_of_not_position hle hpath hx)

theorem count_rowsOfPaths {left right : ℕ} (hle : left ≤ right)
    (list : IntArray) (target : List ℤ) :
    (rowsOfPaths list left right).count target =
      Fintype.card {s : Equiv.Perm (Position left right) //
        row (list ∘ Equiv.Perm.ofSubtype s) right = target} := by
  have hcount : (rowsOfPaths list left right).count target =
      ((recursionPaths left right).toFinset.filter fun path =>
        row (followPath list left path) right = target).card := by
    have hnodup := (nodup_recursionPaths left right).filter
      fun path => decide (row (followPath list left path) right = target)
    calc
      (rowsOfPaths list left right).count target =
          ((recursionPaths left right).filter fun path =>
            decide (row (followPath list left path) right = target)).length := by
        rw [rowsOfPaths, List.count, List.countP_map,
          List.countP_eq_length_filter]
        congr 2
        funext path
        rw [Bool.eq_iff_iff]
        simp
      _ = _ := by
        rw [← List.toFinset_card_of_nodup hnodup, List.toFinset_filter]
        simp only [decide_eq_true_eq]
  rw [hcount, Fintype.card_subtype]
  apply Finset.card_bij fun path hpath =>
    positionPerm hle path (List.mem_toFinset.mp (Finset.mem_filter.mp hpath).1)
  · intro path hpath
    have hrow := (Finset.mem_filter.mp hpath).2
    rw [Finset.mem_filter, ofSubtype_positionPerm, ← followPath_eq_comp]
    exact ⟨Finset.mem_univ _, hrow⟩
  · intro path hpath path' hpath' heq
    have hmem := List.mem_toFinset.mp (Finset.mem_filter.mp hpath).1
    have hmem' := List.mem_toFinset.mp (Finset.mem_filter.mp hpath').1
    rcases existsUnique_recursionPath hle (positionPerm hle path hmem) with
      ⟨_, _, hunique⟩
    rw [hunique path ⟨hmem, (ofSubtype_positionPerm hle hmem).symm⟩,
      hunique path' ⟨hmem', heq ▸ (ofSubtype_positionPerm hle hmem').symm⟩]
  · intro s hs
    rcases existsUnique_recursionPath hle s with ⟨path, ⟨hmem, hperm⟩, _⟩
    have hrow := (Finset.mem_filter.mp hs).2
    rw [← hperm, ← followPath_eq_comp] at hrow
    refine ⟨path, Finset.mem_filter.mpr ⟨List.mem_toFinset.mpr hmem, hrow⟩, ?_⟩
    apply Equiv.Perm.ofSubtype_injective
    rw [ofSubtype_positionPerm, hperm]

theorem mem_range'_iff_mem_Icc {left right x : ℕ} :
    x ∈ List.range' left (right + 1 - left) ↔ x ∈ Finset.Icc left right := by
  rw [List.mem_range'_1, Finset.mem_Icc]
  omega

/-- A row shows the untouched part of the array and then a rearrangement of
the positions `left, ..., right`. -/
theorem row_of_mem_rowsOfPaths {left right : ℕ} (hle : left ≤ right)
    {list : IntArray} {line : List ℤ}
    (hline : line ∈ rowsOfPaths list left right) :
    ∃ rest, line = (List.range left).map list ++ rest ∧
      rest.Perm ((List.range' left (right + 1 - left)).map list) := by
  rcases List.mem_map.mp hline with ⟨path, hpath, rfl⟩
  have hsplit : List.range (right + 1) =
      List.range left ++ List.range' left (right + 1 - left) := by
    have hsum : left + (right + 1 - left) = right + 1 := by omega
    rw [List.range_eq_range', List.range_eq_range', ← hsum,
      ← List.range'_append_1, zero_add, hsum]
  refine ⟨(List.range' left (right + 1 - left)).map
    (list ∘ pathPerm left path), ?_, ?_⟩
  · rw [followPath_eq_comp, row, hsplit, List.map_append]
    congr 1
    apply List.map_congr_left
    intro x hx
    have hout : x ∉ Finset.Icc left right := by
      rw [Finset.mem_Icc]
      have := List.mem_range.mp hx
      omega
    rw [Function.comp_apply, pathPerm_apply_of_not_position hle hpath hout]
  · rw [← List.map_map]
    apply List.Perm.map
    have hnodup : (List.range' left (right + 1 - left)).Nodup :=
      List.nodup_range'
    rw [List.perm_ext_iff_of_nodup
      (hnodup.map (pathPerm left path).injective) hnodup]
    intro x
    have hinside := pathPerm_apply_mem_iff hle hpath
    rw [List.mem_map, mem_range'_iff_mem_Icc]
    constructor
    · rintro ⟨y, hy, rfl⟩
      exact (hinside y).mpr (mem_range'_iff_mem_Icc.mp hy)
    · intro hx
      refine ⟨(pathPerm left path).symm x, ?_, by simp⟩
      rw [mem_range'_iff_mem_Icc, ← hinside]
      simpa using hx

/-- `perm` and `printPermutation` emit the same rows in the same order, one
for each recursion path; the paths are the bijections of the positions. -/
structure EmitsRows (a : IntArray) (output : List ℤ) (left right : ℕ) :
    Prop where
  permRows : ∃ array cout, perm a [] left right = some (array, cout) ∧
    rowsPrinted cout = rowsOfPaths a left right
  printPermutationRows : ∃ array out,
    printPermutation a ⟨[], output⟩ left right = some (array, out) ∧
      rowsPrinted out.cout = rowsOfPaths a left right ∧
      out.output = output ++ (rowsOfPaths a left right).flatMap
        (fun row => row ++ [delimiter])
  length_eq :
    (rowsOfPaths a left right).length = (right - left + 1).factorial
  rearranged : ∀ line ∈ rowsOfPaths a left right,
    ∃ rest, line = (List.range left).map a ++ rest ∧
      rest.Perm ((List.range' left (right + 1 - left)).map a)
  nodup : (recursionPaths left right).Nodup
  existsUnique : ∀ s : Equiv.Perm (Position left right),
    ∃! path, path ∈ recursionPaths left right ∧
      ∀ list : IntArray,
        followPath list left path = list ∘ Equiv.Perm.ofSubtype s
  count_eq : ∀ target, (rowsOfPaths a left right).count target =
    Fintype.card {s : Equiv.Perm (Position left right) //
      row (a ∘ Equiv.Perm.ofSubtype s) right = target}

/-- Only the largest `int` as the last index is too much for the loops. -/
theorem emitsRows_iff {left right : ℕ} (hle : left ≤ right) (a : IntArray)
    (output : List ℤ) : EmitsRows a output left right ↔ right < intMax := by
  constructor
  · rintro ⟨⟨_, _, hrun, _⟩, _⟩
    by_contra hover
    rw [perm_eq_none hle (by omega)] at hrun
    cases hrun
  · intro hfits
    exact
      { permRows := ⟨_, _, perm_eq hle hfits a [], by
          rw [List.nil_append, rowsPrinted_numberLines]⟩
        printPermutationRows := ⟨_, _,
          printPermutation_eq hle hfits a ⟨[], output⟩, by rw [List.nil_append, rowsPrinted_spacedLines], rfl⟩
        length_eq := by
          rw [rowsOfPaths, List.length_map, length_recursionPaths]
        rearranged := fun _ hline => row_of_mem_rowsOfPaths hle hline
        nodup := nodup_recursionPaths left right
        existsUnique := by
          intro s
          simp only [forall_followPath_eq_iff]
          exact existsUnique_recursionPath hle s
        count_eq := count_rowsOfPaths hle a }

/-- The array `{7, 5, 5}` from position 1: two recursion paths, one row. -/
theorem emitsRows_iff_repeated :
    let a : IntArray := fun i => [7, 5, 5].getD i 0
    EmitsRows a [] 1 2 ∧ rowsOfPaths a 1 2 = [[7, 5, 5], [7, 5, 5]] := by
  intro a
  exact ⟨(emitsRows_iff (by decide) a []).mpr (by decide), by decide⟩

/-- The counter of the last row runs past the largest `int`. -/
theorem not_emitsRows_last :
    ¬∀ (a : IntArray) (output : List ℤ) (left right : ℕ), left ≤ right →
      right ≤ intMax → EmitsRows a output left right := by
  intro hall
  rcases hall (fun _ => 0) [] intMax intMax le_rfl le_rfl with
    ⟨⟨_, _, hrun, _⟩, _⟩
  rw [perm_eq_none le_rfl le_rfl] at hrun
  cases hrun

end Miscellaneous.Permutation
