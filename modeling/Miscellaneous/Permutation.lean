import Miscellaneous.SwapPaths
import Mathlib.Tactic

/-!
# Permutations of an array by recursive swaps

`perm`, `printPermutation` and `permutation` of `permutation.cpp`.  An `int`
array is its contents by index, and what is inserted into `std::cout` is a
list of tokens.  `perm` and `printPermutation` share one recursion and
differ in what they do at its end.

The loop counters are of type `int` and run one past the last index, which is
undefined (`none`) when this index is the largest `int`.  `permutation` walks
the flat output with an `int` index too.
-/

namespace Miscellaneous.Permutation

open SwapPaths

abbrev IntArray := ℕ → ℤ

inductive Token where
  | number (value : ℤ)
  | space
  | newline
  deriving DecidableEq, Repr

def swap (list : IntArray) (i j : ℕ) : IntArray :=
  fun k => if k = i then list j else if k = j then list i else list k

def intMax : ℕ := 2 ^ 31 - 1

/-- The turns of a loop whose counter is `i` before the first of them. -/
def countUp {State : Type*} (body : ℕ → State → Option State) :
    ℕ → ℕ → State → Option State
  | 0, _, state => some state
  | turns + 1, i, state => do
      let next ← body i state
      if i < intMax then countUp body turns (i + 1) next else none

/-- `for (int i = low; i <= high; ++i)`. -/
def forUpTo {State : Type*} (low high : ℕ) (body : ℕ → State → Option State)
    (state : State) : Option State :=
  countUp body (high + 1 - low) low state

/-- The recursion of `perm` and `printPermutation` on the array and on what
else the function writes.  The fuel is the number of levels left. -/
def swapRecursion {Out : Type*} (leaf : IntArray → ℕ → Out → Option Out) :
    ℕ → IntArray × Out → ℕ → ℕ → Option (IntArray × Out)
  | 0, (list, out), low, high =>
      if low = high then (leaf list low out).map fun out => (list, out)
      else some (list, out)
  | fuel + 1, (list, out), low, high =>
      if low = high then (leaf list low out).map fun out => (list, out)
      else
        forUpTo low high
          (fun i state => do
            let inner ← swapRecursion leaf fuel
              (swap state.1 i low, state.2) (low + 1) high
            return (swap inner.1 i low, inner.2))
          (list, out)

/-- `for (i = 0; i <= low; i++) cout << list[i]; cout << endl`. -/
def printRow (list : IntArray) (low : ℕ) (cout : List Token) :
    Option (List Token) := do
  let cout ← forUpTo 0 low (fun i cout => some (cout ++ [.number (list i)])) cout
  return cout ++ [.newline]

def perm (list : IntArray) (cout : List Token) (low high : ℕ) :
    Option (IntArray × List Token) :=
  swapRecursion printRow (high - low) (list, cout) low high

def delimiter : ℤ := -999

structure Output where
  cout : List Token
  output : List ℤ

/-- The leaf of `printPermutation`: every element goes to the screen and to
the flat output, which ends with the delimiter. -/
def printAndPushRow (input : IntArray) (left : ℕ) (out : Output) :
    Option Output := do
  let out ← forUpTo 0 left
    (fun i (out : Output) => some
      ⟨out.cout ++ [.number (input i), .space], out.output ++ [input i]⟩) out
  return ⟨out.cout ++ [.newline], out.output ++ [delimiter]⟩

def printPermutation (input : IntArray) (out : Output) (left right : ℕ) :
    Option (IntArray × Output) :=
  swapRecursion printAndPushRow (right - left) (input, out) left right

/-- The loop of `permutation` over the rest of `oneLine`, from index `i`. -/
def splitRows : List ℤ → ℕ → List (List ℤ) → List ℤ →
    Option (List (List ℤ))
  | [], _, res, _ => some res
  | v :: rest, i, res, onePiece =>
      if i = intMax then none
      else if v = delimiter then splitRows rest (i + 1) (res ++ [onePiece]) []
      else splitRows rest (i + 1) res (onePiece ++ [v])

def permutation (input : IntArray) (left right : ℕ) :
    Option (List (List ℤ)) := do
  let (_, out) ← printPermutation input ⟨[], []⟩ left right
  splitRows out.output 0 [] []

/-! ## The loops -/

section Loops

variable {State : Type*} {body : ℕ → State → Option State}

theorem countUp_eq {value : State → ℕ → State} {turns i : ℕ}
    (hfits : i + turns ≤ intMax)
    (hbody : ∀ j, i ≤ j → j < i + turns → ∀ state,
      body j state = some (value state j)) (state : State) :
    countUp body turns i state =
      some ((List.range' i turns).foldl value state) := by
  induction turns generalizing i state with
  | zero => rfl
  | succ turns ih =>
      have hrest := @ih (i + 1) (by omega)
        (fun j hj hlt => hbody j (by omega) (by omega)) (value state i)
      rw [List.range'_succ, List.foldl_cons, countUp,
        hbody i le_rfl (by omega) state]
      simp only [Option.bind_eq_bind, Option.bind_some]
      rw [if_pos (by omega), hrest]

theorem countUp_eq_none {turns i : ℕ} (hturns : 0 < turns)
    (hover : intMax < i + turns) (state : State) :
    countUp body turns i state = none := by
  induction turns generalizing i state with
  | zero => omega
  | succ turns ih =>
      rw [countUp]
      cases hnext : body i state with
      | none => rfl
      | some next =>
          simp only [Option.bind_eq_bind, Option.bind_some]
          split_ifs with hlt
          · exact ih (by omega) (by omega) next
          · rfl

/-- The counter of the loop ends one past `high`. -/
theorem forUpTo_eq {value : State → ℕ → State} {low high : ℕ}
    (hfits : high < intMax)
    (hbody : ∀ j, low ≤ j → j ≤ high → ∀ state,
      body j state = some (value state j)) (state : State) :
    forUpTo low high body state =
      some ((List.range' low (high + 1 - low)).foldl value state) := by
  by_cases hle : low ≤ high
  · exact countUp_eq (by omega) (fun j hj hlt => hbody j hj (by omega)) state
  · unfold forUpTo
    have hturns : high + 1 - low = 0 := by omega
    rw [hturns]
    rfl

theorem forUpTo_eq_none {low high : ℕ} (hle : low ≤ high)
    (hover : intMax ≤ high) (state : State) :
    forUpTo low high body state = none :=
  countUp_eq_none (by omega) (by omega) state

end Loops

/-! ## The recursion visits the swap paths in order -/

theorem swap_eq_comp (list : IntArray) (i j : ℕ) :
    swap list i j = list ∘ Equiv.swap j i := by
  funext k
  simp only [swap, Function.comp_apply, Equiv.swap_apply_def]
  split_ifs <;> simp_all

theorem swap_swap (list : IntArray) (i j : ℕ) :
    swap (swap list i j) i j = list := by
  rw [swap_eq_comp, swap_eq_comp, Function.comp_assoc]
  funext k
  simp

/-- The recursion leaves the array as it was, and acts at its leaves on the
arrays which the paths of swaps produce. -/
theorem swapRecursion_eq_paths {Out : Type*}
    {leaf : IntArray → ℕ → Out → Option Out} {value : IntArray → Out → Out}
    {k low : ℕ} (hfits : low + k < intMax)
    (hleaf : ∀ list out, leaf list (low + k) out = some (value list out))
    (list : IntArray) (out : Out) :
    swapRecursion leaf k (list, out) low (low + k) =
      some (list, (paths k low).foldl
        (fun out path => value (list ∘ pathPerm low path) out) out) := by
  induction k generalizing low list out with
  | zero =>
      have hleafHere : leaf list low out = some (value list out) :=
        hleaf list out
      simp [swapRecursion, paths, hleafHere]
  | succ k ih =>
      have hne : low ≠ low + (k + 1) := by omega
      have hcount : low + (k + 1) + 1 - low = k + 2 := by omega
      have hlevel : low + (k + 1) = low + 1 + k := by omega
      let turn (state : IntArray × Out) (i : ℕ) : IntArray × Out :=
        (state.1, ((paths k (low + 1)).map (List.cons i)).foldl
          (fun out path => value (state.1 ∘ pathPerm low path) out) state.2)
      have hturn : ∀ i, low ≤ i → i ≤ low + (k + 1) →
          ∀ state : IntArray × Out,
            (do
              let inner ← swapRecursion leaf k
                (swap state.1 i low, state.2) (low + 1) (low + (k + 1))
              return (swap inner.1 i low, inner.2)) = some (turn state i) := by
        intro i _ _ state
        have hinner := ih (by omega) (fun list out => hlevel ▸ hleaf list out)
          (swap state.1 i low) state.2
        rw [hlevel, hinner]
        simp only [Option.bind_eq_bind, Option.bind_some, swap_swap]
        simp only [turn, List.foldl_map, swap_eq_comp, pathPerm_cons,
          Equiv.Perm.coe_mul, Function.comp_assoc]
        rfl
      have hloop : ∀ (choices : List ℕ) (out : Out),
          choices.foldl turn (list, out) =
            (list, (choices.flatMap fun i =>
                (paths k (low + 1)).map (List.cons i)).foldl
              (fun out path => value (list ∘ pathPerm low path) out) out) := by
        intro choices
        induction choices with
        | nil => intro out; rfl
        | cons i rest ihloop =>
            intro out
            rw [List.foldl_cons, List.flatMap_cons, List.foldl_append]
            exact ihloop _
      rw [swapRecursion, if_neg hne, forUpTo_eq hfits hturn, hcount, hloop]
      rfl

/-- With the last index the largest `int` no path comes to its end. -/
theorem swapRecursion_eq_none {Out : Type*}
    {leaf : IntArray → ℕ → Out → Option Out} {k low : ℕ}
    (hleaf : ∀ list out, leaf list (low + k) out = none)
    (list : IntArray) (out : Out) :
    swapRecursion leaf k (list, out) low (low + k) = none := by
  induction k generalizing low list out with
  | zero =>
      have hleafHere : leaf list low out = none := hleaf list out
      simp [swapRecursion, hleafHere]
  | succ k ih =>
      have hne : low ≠ low + (k + 1) := by omega
      have hturns : low + (k + 1) + 1 - low = k + 1 + 1 := by omega
      have hlevel : low + (k + 1) = low + 1 + k := by omega
      have hinner := ih (fun list out => hlevel ▸ hleaf list out)
        (swap list low low) out
      rw [swapRecursion, if_neg hne, forUpTo, hturns, countUp]
      simp only [hlevel, hinner]
      rfl

end Miscellaneous.Permutation
