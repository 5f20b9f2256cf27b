import Miscellaneous.PermutationRows
import Mathlib.Tactic

/-!
# When `permutation` recovers the printed rows

`permutation` cuts the flat output of `printPermutation` at every delimiter.
This gives back the rows exactly when no row contains the delimiter as an
element.  The traversal counts with an `int`, and the flat output of `n`
elements has length `(n + 1)!`, so it can be walked for at most eleven
elements.
-/

namespace Miscellaneous.Permutation

open SwapPaths

def arrayOf (input : List ℤ) : IntArray :=
  fun i => input.getD i 0

/-- The result of `permutation(input, 0, n - 1)` lists every permutation of
the input exactly once, as the rows that were printed. -/
def ListsEveryPermutation (input : List ℤ) : Prop :=
  ∃ rows,
    permutation (arrayOf input) 0 (input.length - 1) = some rows ∧
      rows.length = input.length.factorial ∧
      (∀ line ∈ rows, line.length = input.length) ∧
      rows.Nodup ∧
      (∀ line, line.Perm input → rows.count line = 1) ∧
      ∃ array out, printPermutation (arrayOf input) ⟨[], []⟩ 0
          (input.length - 1) = some (array, out) ∧
        rows = rowsPrinted out.cout

/-! ## Splitting -/

def pieces : List ℤ → List (List ℤ) → List ℤ → List (List ℤ)
  | [], res, _ => res
  | v :: rest, res, onePiece =>
      if v = delimiter then pieces rest (res ++ [onePiece]) []
      else pieces rest res (onePiece ++ [v])

theorem splitRows_eq (flat : List ℤ) {i : ℕ} (hi : i ≤ intMax)
    (res : List (List ℤ)) (onePiece : List ℤ) :
    splitRows flat i res onePiece =
      if i + flat.length ≤ intMax then some (pieces flat res onePiece)
      else none := by
  induction flat generalizing i res onePiece with
  | nil => simp [splitRows, pieces, hi]
  | cons v rest ih =>
      by_cases hlast : i = intMax
      · have hlong : ¬i + (v :: rest).length ≤ intMax := by
          rw [List.length_cons]
          omega
        rw [splitRows, if_pos hlast, if_neg hlong]
      · have hnext : i + 1 ≤ intMax := by omega
        have hlength : i + 1 + rest.length = i + (v :: rest).length := by
          rw [List.length_cons]
          omega
        rw [splitRows, if_neg hlast, ih hnext, ih hnext, hlength, pieces]
        split_ifs <;> rfl

theorem length_pieces (flat : List ℤ) (res : List (List ℤ))
    (onePiece : List ℤ) :
    (pieces flat res onePiece).length = res.length + flat.count delimiter := by
  induction flat generalizing res onePiece with
  | nil => rfl
  | cons v rest ih =>
      unfold pieces
      split_ifs with hv
      · rw [ih, List.length_append, List.length_singleton, hv,
          List.count_cons_self]
        omega
      · rw [ih, List.count_cons_of_ne hv]

theorem pieces_append_of_notMem {line : List ℤ} (hline : delimiter ∉ line)
    (rest : List ℤ) (res : List (List ℤ)) (onePiece : List ℤ) :
    pieces (line ++ delimiter :: rest) res onePiece =
      pieces rest (res ++ [onePiece ++ line]) [] := by
  induction line generalizing onePiece with
  | nil => simp [pieces]
  | cons v line ih =>
      have hv : v ≠ delimiter := fun h => hline (by simp [h])
      have hrest : delimiter ∉ line := fun h => hline (.tail v h)
      simp [pieces, hv, ih hrest]

/-- Cutting at the delimiter inverts joining, for rows without it. -/
theorem pieces_flatMap {rows : List (List ℤ)}
    (hrows : ∀ line ∈ rows, delimiter ∉ line) (res : List (List ℤ)) :
    pieces (rows.flatMap fun row => row ++ [delimiter]) res [] =
      res ++ rows := by
  induction rows generalizing res with
  | nil => simp [pieces]
  | cons line rows ih =>
      have hline : delimiter ∉ line := hrows line (by simp)
      have hrest : ∀ other ∈ rows, delimiter ∉ other :=
        fun other hother => hrows other (by simp [hother])
      simp [pieces_append_of_notMem hline, ih hrest]

/-! ## The rows of the whole array -/

def allRows (input : List ℤ) : List (List ℤ) :=
  rowsOfPaths (arrayOf input) 0 (input.length - 1)

theorem map_arrayOf (input : List ℤ) :
    (List.range input.length).map (arrayOf input) = input := by
  apply List.ext_getElem
  · simp
  · intro i hi _
    have hlt : i < input.length := by simpa using hi
    simp [arrayOf, hlt]

theorem perm_of_mem_allRows {input line : List ℤ} (hne : input ≠ [])
    (hline : line ∈ allRows input) : line.Perm input := by
  have hpos : 0 < input.length := List.length_pos_iff.mpr hne
  have hlength : input.length - 1 + 1 - 0 = input.length := by omega
  rcases row_of_mem_rowsOfPaths (Nat.zero_le _) hline with
    ⟨rest, hsplit, hperm⟩
  rw [hlength, ← List.range_eq_range', map_arrayOf] at hperm
  simpa [hsplit] using hperm

theorem length_allRows {input : List ℤ} (hne : input ≠ []) :
    (allRows input).length = input.length.factorial := by
  have hpos : 0 < input.length := List.length_pos_iff.mpr hne
  have hlength : input.length - 1 - 0 + 1 = input.length := by omega
  rw [allRows, rowsOfPaths, List.length_map, length_recursionPaths, hlength]

theorem arrayOf_injOn {input : List ℤ} (hnodup : input.Nodup) {i j : ℕ}
    (hi : i < input.length) (hj : j < input.length)
    (heq : arrayOf input i = arrayOf input j) : i = j := by
  have hentries : input[i] = input[j] := by
    simpa [arrayOf, hi, hj] using heq
  exact (hnodup.getElem_inj_iff).mp hentries

theorem nodup_allRows {input : List ℤ} (hne : input ≠ [])
    (hnodup : input.Nodup) : (allRows input).Nodup := by
  have hpos : 0 < input.length := List.length_pos_iff.mpr hne
  have hle : 0 ≤ input.length - 1 := Nat.zero_le _
  apply (nodup_recursionPaths 0 (input.length - 1)).map_on
  intro path hpath path' hpath' hrows
  have hperm : pathPerm 0 path = pathPerm 0 path' := by
    ext x
    by_cases hx : x ∈ Finset.Icc 0 (input.length - 1)
    · have himage := (pathPerm_apply_mem_iff hle hpath x).mpr hx
      have himage' := (pathPerm_apply_mem_iff hle hpath' x).mpr hx
      rw [Finset.mem_Icc] at hx himage himage'
      apply arrayOf_injOn hnodup (by omega) (by omega)
      rw [followPath_eq_comp, followPath_eq_comp, row, row] at hrows
      exact List.map_inj_left.mp hrows x (List.mem_range.mpr (by omega))
    · rw [pathPerm_apply_of_not_position hle hpath hx,
        pathPerm_apply_of_not_position hle hpath' hx]
  rcases existsUnique_recursionPath hle (positionPerm hle path hpath) with
    ⟨_, _, hunique⟩
  have hprod := ofSubtype_positionPerm hle hpath
  rw [hunique path ⟨hpath, hprod.symm⟩,
    hunique path' ⟨hpath', hprod.trans hperm |>.symm⟩]

theorem count_allRows {input line : List ℤ} (hne : input ≠ [])
    (hnodup : input.Nodup) (hline : line.Perm input) :
    (allRows input).count line = 1 := by
  have hsubset : allRows input ⊆ input.permutations := fun other hother =>
    List.mem_permutations.mpr (perm_of_mem_allRows hne hother)
  have hsubperm := (nodup_allRows hne hnodup).subperm hsubset
  have hlength : input.permutations.length ≤ (allRows input).length := by
    rw [List.length_permutations, length_allRows hne]
  have hperm := hsubperm.perm_of_length_le hlength
  rw [hperm.count_eq]
  exact List.count_eq_one_of_mem (List.nodup_permutations input hnodup)
    (List.mem_permutations.mpr hline)

theorem length_flat {input : List ℤ} (hne : input ≠ []) :
    ((allRows input).flatMap fun row => row ++ [delimiter]).length =
      (input.length + 1).factorial := by
  have hrow : ∀ line ∈ allRows input,
      (line ++ [delimiter]).length = input.length + 1 := by
    intro line hline
    rw [List.length_append, List.length_singleton,
      (perm_of_mem_allRows hne hline).length_eq]
  rw [List.length_flatMap, List.map_congr_left hrow, List.map_const',
    List.sum_replicate, length_allRows hne, Nat.factorial_succ,
    smul_eq_mul, mul_comm]

theorem factorial_le_intMax_iff (n : ℕ) :
    (n + 1).factorial ≤ intMax ↔ n ≤ 11 := by
  constructor
  · intro hle
    by_contra hlarge
    have hmono : (12 + 1).factorial ≤ (n + 1).factorial :=
      Nat.factorial_le (by omega)
    have hthirteen : intMax < (12 + 1).factorial := by decide
    omega
  · intro hn
    have hmono : (n + 1).factorial ≤ (11 + 1).factorial :=
      Nat.factorial_le (by omega)
    have htwelve : (11 + 1).factorial ≤ intMax := by decide
    omega

theorem permutation_arrayOf {input : List ℤ} (hne : input ≠ []) :
    permutation (arrayOf input) 0 (input.length - 1) =
      if input.length ≤ 11 then
        some (pieces
          ((allRows input).flatMap fun row => row ++ [delimiter]) [] [])
      else none := by
  unfold permutation
  by_cases hfits : input.length - 1 < intMax
  · rw [printPermutation_eq (Nat.zero_le _) hfits]
    simp only [Option.bind_eq_bind, Option.bind_some, List.nil_append]
    rw [← allRows, splitRows_eq _ (Nat.zero_le _), zero_add, length_flat hne]
    simp only [factorial_le_intMax_iff]
  · have hlong : ¬input.length ≤ 11 := by
      have hint : 11 < intMax := by decide
      omega
    rw [printPermutation_eq_none (Nat.zero_le _) (by omega), if_neg hlong]
    rfl

theorem count_flat_of_mem {input : List ℤ} (hne : input ≠ [])
    (hnodup : input.Nodup) (hmem : delimiter ∈ input) :
    ((allRows input).flatMap fun row => row ++ [delimiter]).count delimiter =
      2 * input.length.factorial := by
  have hrow : ∀ line ∈ allRows input,
      (line ++ [delimiter]).count delimiter = 2 := by
    intro line hline
    rw [List.count_append, (perm_of_mem_allRows hne hline).count_eq,
      List.count_eq_one_of_mem hnodup hmem]
    rfl
  rw [List.count_flatMap, Function.comp_def, List.map_congr_left hrow,
    List.map_const', List.sum_replicate, length_allRows hne, smul_eq_mul,
    mul_comm]

/-- For pairwise distinct elements `permutation` lists every permutation once
if and only if the delimiter is not an element and there are at most eleven
elements. -/
theorem listsEveryPermutation_iff {input : List ℤ} (hne : input ≠ [])
    (hnodup : input.Nodup) :
    ListsEveryPermutation input ↔
      delimiter ∉ input ∧ input.length ≤ 11 := by
  constructor
  · rintro ⟨rows, hrun, hlength, _⟩
    rw [permutation_arrayOf hne] at hrun
    split_ifs at hrun with hsmall
    refine ⟨?_, hsmall⟩
    intro hmem
    have hrows := Option.some.inj hrun
    have hcount := length_pieces
      ((allRows input).flatMap fun row => row ++ [delimiter]) [] []
    rw [hrows, count_flat_of_mem hne hnodup hmem, hlength,
      List.length_nil] at hcount
    have hpositive := Nat.factorial_pos input.length
    omega
  · rintro ⟨hmem, hsmall⟩
    have hclean : ∀ line ∈ allRows input, delimiter ∉ line := by
      intro line hline hdelimiter
      exact hmem ((perm_of_mem_allRows hne hline).subset hdelimiter)
    refine ⟨allRows input, ?_, length_allRows hne, ?_,
      nodup_allRows hne hnodup, ?_, ?_⟩
    · rw [permutation_arrayOf hne, if_pos hsmall, pieces_flatMap hclean,
        List.nil_append]
    · intro line hline
      exact (perm_of_mem_allRows hne hline).length_eq
    · intro line hline
      exact count_allRows hne hnodup hline
    · have hint : 11 < intMax := by decide
      refine ⟨_, _, printPermutation_eq (Nat.zero_le _) (by omega) _ _, ?_⟩
      rw [List.nil_append, rowsPrinted_spacedLines, allRows]

theorem listsEveryPermutation_iff_three :
    ListsEveryPermutation [3, -999, 7] ↔
      delimiter ∉ [3, -999, 7] ∧ [(3 : ℤ), -999, 7].length ≤ 11 :=
  listsEveryPermutation_iff (by decide) (by decide)

/-- The array `{-999}` has one permutation, but two empty rows come back. -/
theorem not_listsEveryPermutation_delimiter :
    [(-999 : ℤ)].Nodup ∧
      permutation (arrayOf [-999]) 0 0 = some [[], []] ∧
      ¬ListsEveryPermutation [-999] := by
  have hrun : permutation (arrayOf [-999]) 0 0 = some [[], []] := by decide
  refine ⟨by decide, hrun, ?_⟩
  rintro ⟨rows, hrows, hlength, _⟩
  have hempty : [[], []] = rows := Option.some.inj (hrun.symm.trans hrows)
  rw [← hempty] at hlength
  contradiction

end Miscellaneous.Permutation
