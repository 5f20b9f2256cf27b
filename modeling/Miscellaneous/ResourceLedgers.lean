import Mathlib.Data.Multiset.Basic
import Mathlib.Data.Multiset.UnionInter
import Mathlib.Tactic

/-!
# Resources and their releases

Every allocation gets a number that no other one has, and the ledger keeps the
numbers that were released.  The numbers that a program still holds are different
from each other and from the released ones.  Allocating, releasing what is held,
and losing what is held keep this, so nothing is released twice.
-/

namespace ResourceLedgers

structure Ledger where
  fresh : ℕ
  released : List ℕ

def Ledger.empty : Ledger := ⟨0, []⟩

/-- The ledger after an allocation, which gets the number `fresh`. -/
def Ledger.allocate (ledger : Ledger) : Ledger :=
  { ledger with fresh := ledger.fresh + 1 }

def Ledger.release (ledger : Ledger) (handle : ℕ) : Ledger :=
  { ledger with released := handle :: ledger.released }

/-- Releasing through a pointer that may be null. -/
def Ledger.releaseIfSome (ledger : Ledger) : Option ℕ → Ledger
  | none => ledger
  | some handle => ledger.release handle

/-- The resource that a pointer holds. -/
def held : Option ℕ → Multiset ℕ
  | none => 0
  | some handle => {handle}

@[simp] theorem held_none : held none = 0 := rfl

@[simp] theorem held_some (handle : ℕ) : held (some handle) = {handle} := rfl

/-- The handles are held once each, and nothing was released twice. -/
structure Ledger.Owns (ledger : Ledger) (handles : Multiset ℕ) : Prop where
  nodup : handles.Nodup
  known : ∀ handle ∈ handles, handle < ledger.fresh
  notReleased : ∀ handle ∈ handles, handle ∉ ledger.released
  releasedOnce : ledger.released.Nodup
  releasedKnown : ∀ handle ∈ ledger.released, handle < ledger.fresh

namespace Ledger.Owns

theorem empty : Ledger.empty.Owns 0 := by
  constructor <;> simp [Ledger.empty]

variable {ledger : Ledger} {handles more : Multiset ℕ}

theorem mono (howns : ledger.Owns handles) (hle : more ≤ handles) :
    ledger.Owns more where
  nodup := Multiset.nodup_of_le hle howns.nodup
  known handle hmem := howns.known handle (Multiset.mem_of_le hle hmem)
  notReleased handle hmem :=
    howns.notReleased handle (Multiset.mem_of_le hle hmem)
  releasedOnce := howns.releasedOnce
  releasedKnown := howns.releasedKnown

/-- A pointer that is overwritten forgets its handle. -/
theorem forget {lost : Multiset ℕ} (howns : ledger.Owns handles)
    (hsplit : handles = more + lost) : ledger.Owns more :=
  howns.mono (Multiset.le_iff_exists_add.mpr ⟨lost, hsplit⟩)

theorem allocate (howns : ledger.Owns handles) :
    ledger.allocate.Owns ({ledger.fresh} + handles) where
  nodup := by
    rw [Multiset.singleton_add, Multiset.nodup_cons]
    refine ⟨?_, howns.nodup⟩
    intro hmem
    exact lt_irrefl _ (howns.known _ hmem)
  known := by
    intro handle hmem
    rw [Multiset.singleton_add, Multiset.mem_cons] at hmem
    rcases hmem with rfl | hmem
    · exact Nat.lt_succ_self _
    · exact Nat.lt_succ_of_lt (howns.known handle hmem)
  notReleased := by
    intro handle hmem hreleased
    rw [Multiset.singleton_add, Multiset.mem_cons] at hmem
    rcases hmem with rfl | hmem
    · exact lt_irrefl _ (howns.releasedKnown _ hreleased)
    · exact howns.notReleased handle hmem hreleased
  releasedOnce := howns.releasedOnce
  releasedKnown handle hmem :=
    Nat.lt_succ_of_lt (howns.releasedKnown handle hmem)

theorem release {handle : ℕ} (howns : ledger.Owns ({handle} + handles)) :
    (ledger.release handle).Owns handles := by
  have hmem : handle ∈ ({handle} + handles : Multiset ℕ) := by simp
  have hnodup := howns.nodup
  rw [Multiset.singleton_add, Multiset.nodup_cons] at hnodup
  refine ⟨hnodup.2, ?_, ?_, ?_, ?_⟩
  · exact fun other hother => howns.known other (by simp [hother])
  · intro other hother hreleased
    rcases List.mem_cons.mp hreleased with rfl | hreleased
    · exact hnodup.1 hother
    · exact howns.notReleased other (by simp [hother]) hreleased
  · exact List.nodup_cons.mpr
      ⟨howns.notReleased handle hmem, howns.releasedOnce⟩
  · intro other hother
    rcases List.mem_cons.mp hother with rfl | hother
    · exact howns.known other hmem
    · exact howns.releasedKnown other hother

theorem releaseIfSome {pointer : Option ℕ}
    (howns : ledger.Owns (held pointer + handles)) :
    (ledger.releaseIfSome pointer).Owns handles := by
  cases pointer with
  | none => simpa [Ledger.releaseIfSome] using howns
  | some handle => exact howns.release

end Ledger.Owns

end ResourceLedgers
