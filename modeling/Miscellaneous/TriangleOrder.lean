import Miscellaneous.Triangle
import Mathlib.Data.Sym.Sym2

/-!
# The order of the vertices

Vertices with equal `y` have their edges to one and the same third vertex, so
exchanging them exchanges the two ends of every span.
-/

namespace Miscellaneous.Triangle

variable {F : Type}

/-- A span without the order of its ends. -/
def Span.unordered (span : Span F) : ℤ × Sym2 F :=
  (span.scanlineY, s(span.curx1, span.curx2))

def unorderedSpans (drawn : Except Fault (List (Span F))) :
    Except Fault (List (ℤ × Sym2 F)) :=
  drawn.map (List.map Span.unordered)

theorem unordered_walk_comm (direction : ℤ) (next1 next2 : F → F) (n : ℕ)
    (y : ℤ) (x1 x2 : F) :
    (walk direction next1 next2 n y x1 x2).map Span.unordered =
      (walk direction next2 next1 n y x2 x1).map Span.unordered := by
  unfold walk
  rw [List.map_map, List.map_map]
  apply List.map_congr_left
  intro k _
  simp only [Function.comp_apply, Span.unordered, Prod.mk.injEq, true_and]
  exact Sym2.eq_swap

theorem bottomFits_comm {v1 v2 v3 : Vec2i} (hflat : v2.y = v3.y) :
    BottomFits v1 v2 v3 ↔ BottomFits v1 v3 v2 :=
  ⟨fun h => ⟨h.edge2, h.edge1, hflat ▸ h.behind⟩,
    fun h => ⟨h.edge2, h.edge1, hflat ▸ h.behind⟩⟩

theorem topFits_comm (v1 v2 v3 : Vec2i) :
    TopFits v1 v2 v3 ↔ TopFits v2 v1 v3 :=
  ⟨fun h => ⟨h.edge2, h.edge1⟩, fun h => ⟨h.edge2, h.edge1⟩⟩

variable (ops : FloatOps F)

theorem unordered_bottomSpans_comm {v1 v2 v3 : Vec2i} (hflat : v2.y = v3.y) :
    (bottomSpans ops v1 v2 v3).map Span.unordered =
      (bottomSpans ops v1 v3 v2).map Span.unordered := by
  unfold bottomSpans
  rw [unordered_walk_comm, hflat]

theorem unordered_topSpans_comm {v1 v2 v3 : Vec2i} (hflat : v1.y = v2.y) :
    (topSpans ops v1 v2 v3).map Span.unordered =
      (topSpans ops v2 v1 v3).map Span.unordered := by
  unfold topSpans
  rw [unordered_walk_comm, hflat]

theorem drawSorted_comm_bottom {vt1 vt2 vt3 : Vec2i} (hlt : vt1.y < vt2.y)
    (hflat : vt2.y = vt3.y) :
    unorderedSpans (drawSorted ops vt1 vt2 vt3) =
      unorderedSpans (drawSorted ops vt1 vt3 vt2) := by
  rw [drawSorted, if_pos hflat, drawSorted, if_pos hflat.symm,
    fillBottomFlatTriangle_of_lt ops hlt (by omega),
    fillBottomFlatTriangle_of_lt ops (by omega) hlt]
  by_cases hfits : BottomFits vt1 vt2 vt3
  · rw [if_pos hfits, if_pos ((bottomFits_comm hflat).mp hfits)]
    exact congrArg Except.ok (unordered_bottomSpans_comm ops hflat)
  · rw [if_neg hfits, if_neg (mt (bottomFits_comm hflat).mpr hfits)]

theorem drawSorted_comm_top {vt1 vt2 vt3 : Vec2i} (hflat : vt1.y = vt2.y)
    (hlt : vt2.y < vt3.y) :
    unorderedSpans (drawSorted ops vt1 vt2 vt3) =
      unorderedSpans (drawSorted ops vt2 vt1 vt3) := by
  have hlt1 : vt1.y < vt3.y := by omega
  rw [drawSorted, if_neg hlt.ne, if_pos hflat, drawSorted, if_neg hlt1.ne,
    if_pos hflat.symm, fillTopFlatTriangle_of_lt ops hlt1 hlt,
    fillTopFlatTriangle_of_lt ops hlt hlt1]
  by_cases hfits : TopFits vt1 vt2 vt3
  · rw [if_pos hfits, if_pos ((topFits_comm vt1 vt2 vt3).mp hfits)]
    exact congrArg Except.ok (unordered_topSpans_comm ops hflat)
  · rw [if_neg hfits, if_neg (mt (topFits_comm vt1 vt2 vt3).mpr hfits)]

/-- Neither the order of the arguments nor the choice of the sort changes what
is drawn, if the vertices are not all at one `y`. -/
theorem unorderedSpans_drawTriangle_eq {v1 v2 v3 w1 w2 w3 : Vec2i}
    (hlevel : ¬(v1.y = v2.y ∧ v2.y = v3.y))
    (hperm : [w1, w2, w3].Perm [v1, v2, v3]) (sorted : Sorted v1 v2 v3)
    (sorted' : Sorted w1 w2 w3) :
    unorderedSpans (drawTriangle ops sorted') =
      unorderedSpans (drawTriangle ops sorted) := by
  have hfirst := sorted'.first
  have hsecond := sorted'.second
  have hlt : sorted.vt1.y < sorted.vt3.y :=
    lt_of_le_of_ne (sorted.first.trans sorted.second)
      (mt sorted.same_y_iff.mp hlevel)
  have hsame := (sorted'.perm.trans hperm).trans sorted.perm.symm
  unfold drawTriangle
  rcases perm_triple hsame with h | h | h | h | h | h <;>
    obtain ⟨h1, h2, h3⟩ := h <;> rw [h1, h2] at hfirst <;>
    rw [h2, h3] at hsecond <;> rw [h1, h2, h3]
  · have hflat : sorted.vt3.y = sorted.vt2.y := le_antisymm hsecond sorted.second
    exact drawSorted_comm_bottom ops hlt hflat
  · have hflat : sorted.vt2.y = sorted.vt1.y := le_antisymm hfirst sorted.first
    exact drawSorted_comm_top ops hflat hlt
  -- The other orders of the three would put the lowest first.
  all_goals omega

/-- The vertices of `main`, and the two that are at one `y` exchanged. -/
theorem unorderedSpans_drawTriangle_main :
    unorderedSpans (drawTriangle exactFloat
        (⟨mainC, mainA, mainB, .rfl, by decide, by decide⟩ :
          Sorted mainC mainA mainB)) =
      unorderedSpans (drawTriangle exactFloat
        (⟨mainA, mainC, mainB, (List.Perm.swap _ _ _).cons _, by decide,
          by decide⟩ : Sorted mainA mainB mainC)) :=
  unorderedSpans_drawTriangle_eq exactFloat (by decide)
    ((List.Perm.swap _ _ _).trans ((List.Perm.swap _ _ _).cons _)) _ _

end Miscellaneous.Triangle
