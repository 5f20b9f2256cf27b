import Miscellaneous.PermutationRows
import Mathlib.Tactic

/-!
# What the recursion leaves alone

The recursion of `perm` and `printPermutation` once more, with a record of the
positions that its swaps write.  All of them lie in the part of the array that
it was called for, and when it returns the array is what it was.
-/

namespace Miscellaneous.Permutation

open SwapPaths

/-- An array and the positions which were written to it, in their order. -/
structure WatchedArray where
  contents : IntArray
  written : List ℕ

/-- `std::swap(list[i], list[j])`. -/
def WatchedArray.swap (list : WatchedArray) (i j : ℕ) : WatchedArray where
  contents := Permutation.swap list.contents i j
  written := list.written ++ [i, j]

/-- `swapRecursion` on an array whose writes are recorded. -/
def watchedRecursion {Out : Type*} (leaf : IntArray → ℕ → Out → Option Out) :
    ℕ → WatchedArray × Out → ℕ → ℕ → Option (WatchedArray × Out)
  | 0, (list, out), low, high =>
      if low = high then
        (leaf list.contents low out).map fun out => (list, out)
      else some (list, out)
  | fuel + 1, (list, out), low, high =>
      if low = high then
        (leaf list.contents low out).map fun out => (list, out)
      else
        forUpTo low high
          (fun i state => do
            let inner ← watchedRecursion leaf fuel
              (state.1.swap i low, state.2) (low + 1) high
            return (inner.1.swap i low, inner.2))
          (list, out)

def watchPerm (list : IntArray) (cout : List Token) (low high : ℕ) :
    Option (WatchedArray × List Token) :=
  watchedRecursion printRow (high - low) (⟨list, []⟩, cout) low high

def watchPrintPermutation (input : IntArray) (out : Output)
    (left right : ℕ) : Option (WatchedArray × Output) :=
  watchedRecursion printAndPushRow (right - left) (⟨input, []⟩, out) left right

section Recursion

variable {Out : Type*} (leaf : IntArray → ℕ → Out → Option Out)

/-- Loops whose turns agree after `f` agree after `f`. -/
theorem countUp_map {State State' : Type*} (f : State → State')
    {body : ℕ → State → Option State} {body' : ℕ → State' → Option State'}
    (hbody : ∀ i state, (body i state).map f = body' i (f state))
    (turns i : ℕ) (state : State) :
    (countUp body turns i state).map f = countUp body' turns i (f state) := by
  induction turns generalizing i state with
  | zero => rfl
  | succ turns ih =>
      rw [countUp, countUp, ← hbody]
      cases body i state with
      | none => rfl
      | some next =>
          simp only [Option.bind_eq_bind, Option.bind_some, Option.map_some]
          split_ifs
          · exact ih (i + 1) next
          · rfl

/-- Without the record this is the recursion itself. -/
theorem watchedRecursion_contents (fuel low high : ℕ)
    (state : WatchedArray × Out) :
    (watchedRecursion leaf fuel state low high).map
        (Prod.map WatchedArray.contents id) =
      swapRecursion leaf fuel (state.1.contents, state.2) low high := by
  induction fuel generalizing low state with
  | zero =>
      unfold watchedRecursion swapRecursion
      split_ifs
      · rw [Option.map_map]
        rfl
      · rfl
  | succ fuel ih =>
      unfold watchedRecursion swapRecursion
      split_ifs
      · rw [Option.map_map]
        rfl
      · refine countUp_map (Prod.map WatchedArray.contents id) ?_ _ _ state
        intro i state
        have hinner := ih (low + 1) (state.1.swap i low, state.2)
        have hplain : swapRecursion leaf fuel
            (swap state.1.contents i low, state.2) (low + 1) high =
              (watchedRecursion leaf fuel (state.1.swap i low, state.2)
                (low + 1) high).map (Prod.map WatchedArray.contents id) :=
          hinner.symm
        simp only [Prod.map_fst, Prod.map_snd, id, hplain]
        cases watchedRecursion leaf fuel (state.1.swap i low, state.2)
          (low + 1) high <;> rfl

theorem countUp_invariant {State : Type*} {body : ℕ → State → Option State}
    {P : State → Prop} {turns i : ℕ}
    (hbody : ∀ j, i ≤ j → j < i + turns → ∀ state next, P state →
      body j state = some next → P next) {state final : State} (hP : P state)
    (hrun : countUp body turns i state = some final) : P final := by
  induction turns generalizing i state with
  | zero => exact Option.some.inj hrun ▸ hP
  | succ turns ih =>
      rw [countUp] at hrun
      cases hnext : body i state with
      | none => simp [hnext] at hrun
      | some next =>
          simp only [hnext, Option.bind_eq_bind, Option.bind_some] at hrun
          split_ifs at hrun
          exact ih (fun j hj hlt => hbody j (by omega) (by omega))
            (hbody i le_rfl (by omega) state next hP hnext) hrun

/-- What holds of all positions from `low` to `high` holds of every position
that is written in between. -/
theorem watchedRecursion_written (P : ℕ → Prop) {fuel low high : ℕ}
    (hle : low ≤ high) (hP : ∀ k, low ≤ k → k ≤ high → P k)
    {state final : WatchedArray × Out} (hstate : ∀ k ∈ state.1.written, P k)
    (hrun : watchedRecursion leaf fuel state low high = some final) :
    ∀ k ∈ final.1.written, P k := by
  induction fuel generalizing low state final with
  | zero =>
      unfold watchedRecursion at hrun
      split_ifs at hrun
      · rcases Option.map_eq_some_iff.mp hrun with ⟨_, _, rfl⟩
        exact hstate
      · exact Option.some.inj hrun ▸ hstate
  | succ fuel ih =>
      unfold watchedRecursion at hrun
      split_ifs at hrun with heq
      · rcases Option.map_eq_some_iff.mp hrun with ⟨_, _, rfl⟩
        exact hstate
      · have hswap (list : WatchedArray) (i : ℕ) (hi : P i)
            (hlist : ∀ k ∈ list.written, P k) :
            ∀ k ∈ (list.swap i low).written, P k := by
          intro k hk
          simp only [WatchedArray.swap, List.mem_append, List.mem_cons,
            List.not_mem_nil, or_false] at hk
          rcases hk with hk | rfl | rfl
          · exact hlist k hk
          · exact hi
          · exact hP k le_rfl hle
        refine @countUp_invariant _ _
          (fun state : WatchedArray × Out => ∀ k ∈ state.1.written, P k) _ _ ?_
          state final hstate hrun
        intro i hlow hhigh state next hstate hnext
        have hi : P i := hP i hlow (by omega)
        rcases Option.bind_eq_some_iff.mp hnext with ⟨inner, hinner, hdone⟩
        obtain rfl := Option.some.inj hdone
        apply hswap _ i hi
        -- the part behind `low` is a part of the whole
        exact ih (by omega) (fun k hlow hhigh => hP k (by omega) hhigh)
          (hswap _ i hi hstate) hinner

end Recursion

/-- What a call that returns has done to the array, with the positions that it
has written. -/
def RestoresArray {Out : Type*} (list : IntArray) (left right : ℕ)
    (watched : Option (WatchedArray × Out)) (result : Option (IntArray × Out)) :
    Prop :=
  ∃ array out, watched = some (array, out) ∧ result = some (list, out) ∧
    array.contents = list ∧ ∀ k ∈ array.written, left ≤ k ∧ k ≤ right

theorem restoresArray_swapRecursion {Out : Type*}
    {leaf : IntArray → ℕ → Out → Option Out} {list : IntArray} {out out' : Out}
    {left right fuel : ℕ} (hle : left ≤ right)
    (hrun : swapRecursion leaf fuel (list, out) left right =
      some (list, out')) :
    RestoresArray list left right
      (watchedRecursion leaf fuel (⟨list, []⟩, out) left right)
      (swapRecursion leaf fuel (list, out) left right) := by
  have hcontents := watchedRecursion_contents leaf fuel left right
    (⟨list, []⟩, out)
  rw [hrun] at hcontents
  rcases Option.map_eq_some_iff.mp hcontents with ⟨⟨array, final⟩, hwatch, hpair⟩
  obtain ⟨harray, rfl⟩ := Prod.mk.inj hpair
  refine ⟨array, final, hwatch, hrun, harray, ?_⟩
  exact watchedRecursion_written leaf (fun k => left ≤ k ∧ k ≤ right) hle
    (fun k hlow hhigh => ⟨hlow, hhigh⟩) (fun _ hk => absurd hk List.not_mem_nil) hwatch

/-- Both functions restore the array, write only from `left` to `right`, and
keep what was in `output`. -/
structure LeavesAlone (list : IntArray) (cout : List Token) (out : Output)
    (left right : ℕ) : Prop where
  permRestores : RestoresArray list left right (watchPerm list cout left right)
    (perm list cout left right)
  printPermutationRestores : RestoresArray list left right
    (watchPrintPermutation list out left right)
    (printPermutation list out left right)
  printPermutationAppends : ∀ array out', printPermutation list out left right =
    some (array, out') → out.output <+: out'.output

/-- The calls do so unless the counters run past the largest `int`. -/
theorem leavesAlone_iff {left right : ℕ} (hle : left ≤ right)
    (list : IntArray) (cout : List Token) (out : Output) :
    LeavesAlone list cout out left right ↔ right < intMax := by
  constructor
  · rintro ⟨⟨_, _, _, hrun, _⟩, _, _⟩
    by_contra hover
    rw [perm_eq_none hle (by omega)] at hrun
    cases hrun
  · intro hfits
    have hprint := printPermutation_eq hle hfits list out
    refine ⟨restoresArray_swapRecursion hle (perm_eq hle hfits list cout),
      restoresArray_swapRecursion hle hprint, ?_⟩
    intro array out' hrun
    rw [hprint] at hrun
    obtain ⟨_, rfl⟩ := Prod.mk.inj (Option.some.inj hrun)
    exact List.prefix_append _ _

/-- The array of `main`, permuted from its second position on. -/
theorem leavesAlone_iff_main :
    LeavesAlone (fun k => k + 1) [] ⟨[], [7]⟩ 1 3 :=
  (leavesAlone_iff (by decide) _ _ _).mpr (by decide)

theorem not_leavesAlone_last :
    ¬∀ (list : IntArray) (cout : List Token) (out : Output) (left right : ℕ),
      left ≤ right → right ≤ intMax →
        LeavesAlone list cout out left right := by
  intro hall
  rcases hall (fun _ => 0) [] ⟨[], []⟩ intMax intMax le_rfl le_rfl with
    ⟨⟨_, _, _, hrun, _⟩, _, _⟩
  rw [perm_eq_none le_rfl le_rfl] at hrun
  cases hrun

end Miscellaneous.Permutation
