import Miscellaneous.PriorityQueueIndices
import Mathlib.Tactic

/-!
# Sifting from any position

`push` lets the last entry swim and `pop` lets the root sink.  Both loops do
their work from every other position, too.  `sink` turns two ordered subtrees
and the entry above them into one ordered subtree, `swim` takes an entry that
is too large for its place up its path to the root.  With positions of type
`int`, `swim` never leaves the range; `sink` does when it comes to a position
whose child indices are too large.
-/

namespace Miscellaneous.PriorityQueue

open ArrayHeaps Relation

variable {T : Type*} (cmp : Comparison T)

/-- The pairs whose lower position satisfies `P` are ordered. -/
def PairsOrdered (P : ℕ → Prop) (heap : Array T) : Prop :=
  ∀ i (_ : i < heap.size), 0 < i → P i →
    cmp.ge heap[(i - 1) / 2] heap[i] = true

/-- The entry at `pos` has sunk: its subtree is ordered and holds the same
entries, and the rest of the array is as it was. -/
structure SunkFrom (heap : Array T) (pos : ℕ) (heap' : Array T) : Prop where
  size_eq : heap'.size = heap.size
  ordered : PairsOrdered cmp (fun i => InSubtree pos (parent i)) heap'
  entries : entriesAt (InSubtree pos) heap' = entriesAt (InSubtree pos) heap
  unchanged : ∀ i, ¬InSubtree pos i → heap'[i]? = heap[i]?

variable {cmp}

theorem pairsOrdered_iff (hlaw : cmp.Lawful) {P : ℕ → Prop} {heap : Array T} :
    PairsOrdered cmp P heap ↔
      ∀ i, 0 < i → P i → Bounds cmp.NotLess heap (parent i) i := by
  constructor
  · intro hordered i hpos hP
    rcases lt_or_ge i heap.size with hi | hi
    · exact (bounds_iff hlaw ((parent_lt hpos).trans hi) hi).mpr
        (hordered i hi hpos hP)
    · exact .of_size_le hi
  · intro hbounds i hi hpos hP
    exact (bounds_iff hlaw ((parent_lt hpos).trans hi) hi).mp
      (hbounds i hpos hP)

/-! ## Sinking -/

theorem sinkReady_of_pairsOrdered (hlaw : cmp.Lawful) {heap : Array T}
    {pos : ℕ} (hbelow : PairsOrdered cmp
      (fun i => InSubtree pos (parent i) ∧ parent i ≠ pos) heap) :
    SinkReady cmp.NotLess heap pos pos := by
  refine ⟨.refl, ?_, fun hne => absurd rfl hne⟩
  intro i hi hinside hne
  exact (pairsOrdered_iff hlaw).mp hbelow i hi ⟨hinside, hne⟩

theorem sink_sunkFrom (hlaw : cmp.Lawful) {heap : Array T} {pos : ℕ}
    (hready : SinkReady cmp.NotLess heap pos pos) :
    ∃ heap', sink cmp heap pos = some heap' ∧ SunkFrom cmp heap pos heap' := by
  rcases sink_spec hlaw hready with
    ⟨heap', hsink, hordered, hperm, hunchanged⟩
  refine ⟨heap', hsink, hperm.size_eq, ?_, ?_, hunchanged⟩
  · exact (pairsOrdered_iff hlaw).mpr hordered
  · exact entriesAt_eq_of_perm hperm hunchanged

theorem sinking_start {heap : Array T} {pos : ℕ} (hpos : pos < heap.size) :
    Sinking heap heap[pos] heap pos :=
  ⟨rfl, fun _ => Array.getElem?_eq_getElem hpos, fun _ _ => rfl⟩

/-- With positions of type `int`, the subtree at `pos` is ordered afterwards
exactly when the child indices are in range at `pos` and at the greater entries
on the path of the larger children. -/
theorem sinkInt_sunkFrom_iff (hlaw : cmp.Lawful) {heap : Array T} {pos : ℕ}
    (hpos : pos < heap.size)
    (hbelow : PairsOrdered cmp
      (fun i => InSubtree pos (parent i) ∧ parent i ≠ pos) heap) :
    (∃ heap', sinkInt cmp heap pos = some heap' ∧
        SunkFrom cmp heap pos heap') ↔
      ∀ q, ReflTransGen (LargerStep cmp heap) pos q →
        (q = pos ∨ ∃ entry, heap[q]? = some entry ∧
          cmp.lt heap[pos] entry = true) →
        ChildIndicesFit heap q := by
  have hready := sinkReady_of_pairsOrdered hlaw hbelow
  have hsinking := sinking_start hpos
  constructor
  · rintro ⟨heap', hsink, _⟩ q hpath hgreater
    by_contra hoverflow
    have hreached := (sinkSteps_iff hlaw hready heap[pos] q).mpr
      ⟨hpath, hgreater⟩
    rw [hsinking.sinkInt_eq_none hlaw hreached hoverflow] at hsink
    cases hsink
  · intro hfits
    rcases sink_sunkFrom hlaw hready with ⟨heap', hsink, hsunk⟩
    refine ⟨heap', ?_, hsunk⟩
    rw [hsinking.sinkInt_eq_sink hlaw, hsink]
    intro q hreached
    rcases (sinkSteps_iff hlaw hready heap[pos] q).mp hreached with
      ⟨hpath, hgreater⟩
    exact hfits q hpath hgreater

/-- An array of at most `2 ^ 30` entries is small enough. -/
theorem childIndicesFit_of_size_le (hlaw : cmp.Lawful) {heap : Array T}
    {pos q : ℕ} (hpos : pos < heap.size)
    (hpath : ReflTransGen (LargerStep cmp heap) pos q)
    (hsize : heap.size ≤ 2 ^ 30) : ChildIndicesFit heap q := by
  have hq : q < heap.size := by
    rcases hpath.cases_tail with rfl | ⟨p, _, hstep⟩
    · exact hpos
    · exact (hstep.child hlaw).2.2
  exact (childIndicesFit_iff (by omega)).mpr (by omega)

theorem sinkInt_sunkFrom_eleven :
    ∃ heap', sinkInt intComparison #[9, 1, 5, 4, 3, 2, 2, 0, 3, 3, 1] 1 =
        some heap' ∧
      SunkFrom intComparison #[9, 1, 5, 4, 3, 2, 2, 0, 3, 3, 1] 1 heap' := by
  have hpos : 1 < (#[9, 1, 5, 4, 3, 2, 2, 0, 3, 3, 1] : Array ℤ).size := by
    decide
  refine (sinkInt_sunkFrom_iff intComparison_lawful hpos ?_).mpr ?_
  · unfold PairsOrdered
    decide
  · intro q hpath _
    exact childIndicesFit_of_size_le intComparison_lawful hpos hpath
      (by decide)

/-- `pop` itself gets there: the array in which it lets the root sink, with
`2 ^ 30 + 1` entries. -/
theorem not_sinkInt_sunkFrom :
    ¬∀ (T : Type) (cmp : Comparison T), cmp.Lawful →
      ∀ (heap : Array T) (pos : ℕ), pos < heap.size →
        PairsOrdered cmp
          (fun i => InSubtree pos (parent i) ∧ parent i ≠ pos) heap →
        ∃ heap', sinkInt cmp heap pos = some heap' ∧
          SunkFrom cmp heap pos heap' := by
  intro hall
  have hexists : ∃ n, n + 1 = 2 ^ 30 := ⟨2 ^ 30 - 1, by decide⟩
  rcases hexists with ⟨n, hn⟩
  have hheap := @isHeap_manyTwos_push n (by omega)
  have hpop : ((manyTwos n).push 0).pop = manyTwos n := Array.pop_push
  have hsize := size_pop_root ((manyTwos n).push 0) 0
  rw [hpop, manyTwos_size] at hsize
  have hordered := (pop_ready hheap 0).ordered
  have hsunk := hall ℤ intComparison intComparison_lawful _ 0
    (by rw [hsize]; omega) ((pairsOrdered_iff intComparison_lawful).mpr
      fun i hi hP => hordered i hi hP.1 hP.2)
  have hreached := (reached_iff intComparison_lawful hheap 0 (2 ^ 30)).mpr
    (Or.inr ⟨hpop ▸ onLargerPath_right hn, 2,
      by rw [hpop, ← hn]; exact manyTwos_last n, by decide⟩)
  have hoverflow := (sinking_pop ((manyTwos n).push 0) 0).sinkInt_eq_none
    intComparison_lawful hreached
    (mt (childIndicesFit_iff (by rw [hsize]; omega)).mp (by omega))
  rcases hsunk with ⟨heap', hsink, _⟩
  rw [hoverflow] at hsink
  cases hsink

/-! ## Swimming -/

theorem swimReady_of_pairsOrdered (hlaw : cmp.Lawful) {heap : Array T}
    {pos : ℕ} (hpos : pos < heap.size)
    (hordered : PairsOrdered cmp (fun i => i ≠ pos) heap)
    (hchildren : ∀ i (_ : i < heap.size), 0 < pos → parent i = pos →
      cmp.ge heap[(pos - 1) / 2] heap[i] = true) :
    SwimReady cmp.NotLess heap pos := by
  refine ⟨(pairsOrdered_iff hlaw).mp hordered, ?_⟩
  intro hpositive i _ hparent
  rcases lt_or_ge i heap.size with hi | hi
  · exact (bounds_iff hlaw ((parent_lt hpositive).trans hpos) hi).mpr
      (hchildren i hi hpositive hparent)
  · exact .of_size_le hi

/-- Where only the pair ending at `pos` may be out of order and the children of
`pos` are no greater than its parent, `swim` restores the heap along the path
from `pos` to the root.  A position of type `int` makes no difference. -/
theorem swim_restores (hlaw : cmp.Lawful) {heap : Array T} {pos : ℕ}
    (hpos : pos < heap.size)
    (hordered : PairsOrdered cmp (fun i => i ≠ pos) heap)
    (hchildren : ∀ i (_ : i < heap.size), 0 < pos → parent i = pos →
      cmp.ge heap[(pos - 1) / 2] heap[i] = true) :
    ∃ heap', swim cmp heap pos = some heap' ∧
      (pos < 2 ^ 31 → swimInt cmp heap pos = some heap') ∧
      PairsOrdered cmp (fun _ => True) heap' ∧ heap'.Perm heap ∧
        ∀ i, ¬InSubtree i pos → heap'[i]? = heap[i]? := by
  have hready := swimReady_of_pairsOrdered hlaw hpos hordered hchildren
  rcases swim_spec hlaw hpos hready with
    ⟨heap', hswim, hheap, hperm, hunchanged⟩
  refine ⟨heap', hswim, ?_, ?_, hperm, hunchanged⟩
  · intro hposition
    rw [swimInt_eq hposition, hswim]
  · exact (pairsOrdered_iff hlaw).mpr fun i hi _ => hheap i hi

theorem swim_restores_nine :
    ∃ heap', swim intComparison #[9, 5, 8, 7, 2, 6, 1, 3, 4] 3 = some heap' ∧
      (3 < 2 ^ 31 →
        swimInt intComparison #[9, 5, 8, 7, 2, 6, 1, 3, 4] 3 = some heap') ∧
      PairsOrdered intComparison (fun _ => True) heap' ∧
      heap'.Perm #[9, 5, 8, 7, 2, 6, 1, 3, 4] ∧
        ∀ i, ¬InSubtree i 3 →
          heap'[i]? = (#[9, 5, 8, 7, 2, 6, 1, 3, 4] : Array ℤ)[i]? := by
  refine swim_restores intComparison_lawful (by decide) ?_ (by decide)
  unfold PairsOrdered
  decide

end Miscellaneous.PriorityQueue
