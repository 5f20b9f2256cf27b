import Mathlib.Tactic

/-!
# Record locks on one file

The locks that processes hold on the whole of one file.  A write lock
conflicts with every lock of another process, a read lock with the write locks
of the others; a table holds no two conflicting locks and no two locks of one
process.
-/

namespace RecordLocks

inductive LockType where
  | read
  | write
  deriving DecidableEq, Repr

def LockType.conflicts : LockType → LockType → Bool
  | .read, .read => false
  | _, _ => true

def Compatible {Owner : Type*} (first second : Owner × LockType) : Prop :=
  first.1 ≠ second.1 ∧ first.2.conflicts second.2 = false

structure Table (Owner : Type*) where
  locks : List (Owner × LockType)
  compatible : locks.Pairwise Compatible

variable {Owner : Type*}

def Table.empty : Table Owner where
  locks := []
  compatible := List.Pairwise.nil

theorem Compatible.symm {first second : Owner × LockType}
    (hcompatible : Compatible first second) : Compatible second first := by
  refine ⟨hcompatible.1.symm, ?_⟩
  have hfree := hcompatible.2
  revert hfree
  cases first.2 <;> cases second.2 <;> simp [LockType.conflicts]

instance : Std.Symm (@Compatible Owner) where
  symm _ _ := Compatible.symm

theorem Table.compatible_of_ne {table : Table Owner}
    {first second : Owner × LockType} (hfirst : first ∈ table.locks)
    (hsecond : second ∈ table.locks) (hne : first ≠ second) :
    Compatible first second :=
  table.compatible.forall hfirst hsecond hne

variable [DecidableEq Owner]

/-- The lock that keeps `owner` from a lock of the type. -/
def Table.blocking (table : Table Owner) (owner : Owner) (type : LockType) :
    Option (Owner × LockType) :=
  table.locks.find? fun lock => lock.1 ≠ owner && type.conflicts lock.2

def Table.clear (table : Table Owner) (owner : Owner) : Table Owner where
  locks := table.locks.filter fun lock => lock.1 ≠ owner
  compatible := table.compatible.filter _

theorem Table.mem_clear {table : Table Owner} {owner : Owner}
    {lock : Owner × LockType} :
    lock ∈ (table.clear owner).locks ↔
      lock ∈ table.locks ∧ lock.1 ≠ owner := by
  simp [Table.clear]

theorem Table.compatible_of_blocking_none {table : Table Owner} {owner : Owner}
    {type : LockType} (hblocking : table.blocking owner type = none)
    {lock : Owner × LockType} (hlock : lock ∈ table.locks)
    (hother : lock.1 ≠ owner) : type.conflicts lock.2 = false := by
  have hfree := List.find?_eq_none.mp hblocking lock hlock
  simpa [hother] using hfree

/-- A lock that nothing blocks replaces the one that the owner had before. -/
def Table.set (table : Table Owner) (owner : Owner) (type : LockType) :
    Option (Table Owner) :=
  if hblocking : table.blocking owner type = none then
    some
      { locks := (owner, type) :: (table.clear owner).locks
        compatible := by
          refine List.Pairwise.cons ?_ (table.clear owner).compatible
          intro lock hlock
          rcases Table.mem_clear.mp hlock with ⟨hmem, hother⟩
          exact ⟨hother.symm,
            table.compatible_of_blocking_none hblocking hmem hother⟩ }
  else none

theorem Table.mem_set {table next : Table Owner} {owner : Owner}
    {type : LockType} (hset : table.set owner type = some next)
    {lock : Owner × LockType} :
    lock ∈ next.locks ↔
      lock = (owner, type) ∨ lock ∈ table.locks ∧ lock.1 ≠ owner := by
  unfold Table.set at hset
  split_ifs at hset with hblocking
  cases hset
  rw [List.mem_cons, Table.mem_clear]

theorem Table.conflicts_of_set {table next : Table Owner} {owner : Owner}
    {type : LockType} (hset : table.set owner type = some next)
    {lock : Owner × LockType} (hlock : lock ∈ table.locks)
    (hother : lock.1 ≠ owner) : type.conflicts lock.2 = false := by
  unfold Table.set at hset
  split_ifs at hset with hblocking
  exact table.compatible_of_blocking_none hblocking hlock hother

/-- Whoever holds the write lock holds the only lock. -/
theorem Table.exclusive {table : Table Owner} {owner : Owner}
    (hwrite : (owner, .write) ∈ table.locks) {lock : Owner × LockType}
    (hlock : lock ∈ table.locks) : lock = (owner, .write) := by
  by_contra hne
  have hfree : lock.2.conflicts .write = false :=
    (table.compatible_of_ne hlock hwrite hne).2
  revert hfree
  cases lock.2 <;> simp [LockType.conflicts]

end RecordLocks
