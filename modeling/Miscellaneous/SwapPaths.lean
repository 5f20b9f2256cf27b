import Mathlib.Tactic
import Mathlib.GroupTheory.Perm.Support

/-!
# Permutations as paths of swaps

A path chooses, for the positions `low`, `low + 1`, ... in turn, a partner
that is not to the left of the position, and swaps the two.  A path over
`k` levels permutes the positions `low, ..., low + k`.  Every permutation of
these positions is the product of exactly one path, which tracks positions
and not the values stored there.
-/

namespace SwapPaths

def paths : ℕ → ℕ → List (List ℕ)
  | 0, _ => [[]]
  | k + 1, low =>
      (List.range' low (k + 2)).flatMap fun i =>
        (paths k (low + 1)).map (List.cons i)

/-- The product of the swaps along a path, the first swap outermost. -/
def pathPerm : ℕ → List ℕ → Equiv.Perm ℕ
  | _, [] => 1
  | low, i :: rest => Equiv.swap low i * pathPerm (low + 1) rest

@[simp] theorem pathPerm_nil (low : ℕ) : pathPerm low [] = 1 := rfl

@[simp] theorem pathPerm_cons (low i : ℕ) (rest : List ℕ) :
    pathPerm low (i :: rest) = Equiv.swap low i * pathPerm (low + 1) rest :=
  rfl

theorem mem_paths_succ {k low : ℕ} {path : List ℕ} :
    path ∈ paths (k + 1) low ↔
      ∃ i rest, (low ≤ i ∧ i ≤ low + (k + 1)) ∧
        rest ∈ paths k (low + 1) ∧ i :: rest = path := by
  simp only [paths, List.mem_flatMap, List.mem_range'_1, List.mem_map]
  constructor
  · rintro ⟨i, hi, rest, hrest, hpath⟩
    exact ⟨i, rest, by omega, hrest, hpath⟩
  · rintro ⟨i, rest, hi, hrest, hpath⟩
    exact ⟨i, by omega, rest, hrest, hpath⟩

theorem length_paths (k low : ℕ) :
    (paths k low).length = (k + 1).factorial := by
  induction k generalizing low with
  | zero => rfl
  | succ k ih =>
      simp only [paths, List.length_flatMap, List.length_map, ih]
      simp [Nat.factorial_succ]

theorem nodup_paths (k low : ℕ) : (paths k low).Nodup := by
  induction k generalizing low with
  | zero => simp [paths]
  | succ k ih =>
      have htails : ∀ i, ((paths k (low + 1)).map (List.cons i)).Nodup :=
        fun i => (ih (low + 1)).map List.cons_injective
      have hheads : (List.range' low (k + 2)).Nodup := List.nodup_range'
      unfold paths
      rw [List.nodup_flatMap]
      refine ⟨fun i _ => htails i, hheads.imp ?_⟩
      intro i j hij
      simp only [Function.onFun, List.disjoint_left, List.mem_map]
      rintro path ⟨rest, _, rfl⟩ ⟨rest', _, heq⟩
      exact hij (List.cons.inj heq).1.symm

theorem pathPerm_apply_of_outside {k low : ℕ} {path : List ℕ}
    (hpath : path ∈ paths k low) {x : ℕ} (hx : ¬(low ≤ x ∧ x ≤ low + k)) :
    pathPerm low path x = x := by
  induction k generalizing low path with
  | zero =>
      obtain rfl : path = [] := by simpa [paths] using hpath
      rfl
  | succ k ih =>
      rcases mem_paths_succ.mp hpath with ⟨i, rest, hi, hrest, rfl⟩
      have htail : pathPerm (low + 1) rest x = x := ih hrest (by omega)
      rw [pathPerm_cons, Equiv.Perm.mul_apply, htail]
      exact Equiv.swap_apply_of_ne_of_ne (by omega) (by omega)

/-- The first choice of a path is where its product sends `low`. -/
theorem pathPerm_cons_apply_low {k low i : ℕ} {rest : List ℕ}
    (hrest : rest ∈ paths k (low + 1)) :
    pathPerm low (i :: rest) low = i := by
  have htail : pathPerm (low + 1) rest low = low :=
    pathPerm_apply_of_outside hrest (by omega)
  rw [pathPerm_cons, Equiv.Perm.mul_apply, htail, Equiv.swap_apply_left]

/-- Every permutation of the positions is the product of exactly one path. -/
theorem existsUnique_path {k low : ℕ} {s : Equiv.Perm ℕ}
    (hs : ∀ x, ¬(low ≤ x ∧ x ≤ low + k) → s x = x) :
    ∃! path, path ∈ paths k low ∧ pathPerm low path = s := by
  induction k generalizing low s with
  | zero =>
      have hone : s = 1 := by
        -- a permutation which moves at most one position moves none
        have hoff : ∀ x, x ≠ low → s x = x := fun x hx => hs x (by omega)
        ext x
        by_cases hx : x = low
        · subst x
          by_contra hmoved
          exact hmoved (s.injective (hoff (s low) hmoved))
        · exact hoff x hx
      refine ⟨[], ⟨by simp [paths], hone.symm⟩, ?_⟩
      rintro path ⟨hpath, _⟩
      simpa [paths] using hpath
  | succ k ih =>
      have hfirst : low ≤ s low ∧ s low ≤ low + (k + 1) := by
        by_contra hout
        have hfixed : s low = low := s.injective (hs (s low) hout)
        rw [hfixed] at hout
        omega
      have htail : ∀ x, ¬(low + 1 ≤ x ∧ x ≤ low + 1 + k) →
          (Equiv.swap low (s low) * s) x = x := by
        intro x hx
        rw [Equiv.Perm.mul_apply]
        by_cases hlow : x = low
        · subst x
          exact Equiv.swap_apply_right low (s low)
        · have hfixed : s x = x := hs x (by omega)
          have hne : x ≠ s low := by
            intro heq
            exact hlow (s.injective (hfixed.trans heq))
          rw [hfixed]
          exact Equiv.swap_apply_of_ne_of_ne hlow hne
      rcases ih htail with ⟨rest, ⟨hrest, hprod⟩, hunique⟩
      refine ⟨s low :: rest, ⟨?_, ?_⟩, ?_⟩
      · exact mem_paths_succ.mpr ⟨s low, rest, hfirst, hrest, rfl⟩
      · rw [pathPerm_cons, hprod, ← mul_assoc, Equiv.swap_mul_self, one_mul]
      · rintro path ⟨hpath, hperm⟩
        rcases mem_paths_succ.mp hpath with ⟨i, rest', _, hrest', rfl⟩
        have hi : i = s low := by
          rw [← hperm, pathPerm_cons_apply_low hrest']
        have hrestPerm :
            pathPerm (low + 1) rest' = Equiv.swap low (s low) * s := by
          rw [← hi, ← hperm, pathPerm_cons, ← mul_assoc,
            Equiv.swap_mul_self, one_mul]
        rw [hi, hunique rest' ⟨hrest', hrestPerm⟩]

end SwapPaths
