import Mathlib.Data.List.Basic
import Mathlib.Tactic

/-!
# Copying between two buffers

Single elements copied from an input to an output buffer which starts out
unwritten, and lists whose elements alternate between two others.
-/

namespace ByteCopies

variable {α β : Type*}

/-- The assignment `output[dst] = input[src]`. -/
structure Copy where
  dst : ℕ
  src : ℕ
  deriving DecidableEq

/-- The output after an assignment; an access out of range fails. -/
def Copy.run (input : List α) (output : List (Option α)) (copy : Copy) :
    Option (List (Option α)) :=
  if copy.dst < output.length then
    input[copy.src]?.map fun value => output.set copy.dst (some value)
  else none

/-- The assignments one after another, into a buffer of this size. -/
def runCopies (input : List α) (size : ℕ) (copies : List Copy) :
    Option (List (Option α)) :=
  copies.foldlM (Copy.run input) (List.replicate size none)

theorem Copy.run_eq {input : List α} {output : List (Option α)} {copy : Copy}
    (hsrc : copy.src < input.length) (hdst : copy.dst < output.length) :
    copy.run input output =
      some (output.set copy.dst input[copy.src]?) := by
  unfold Copy.run
  rw [if_pos hdst, List.getElem?_eq_getElem hsrc]
  rfl

/-- The first assignments write the beginning of the buffer. -/
theorem runCopies_append_unwritten {input : List α} {copies : List Copy}
    (hdst : copies.map Copy.dst = List.range copies.length)
    (hsrc : ∀ copy ∈ copies, copy.src < input.length) (rest : ℕ) :
    runCopies input (copies.length + rest) copies =
      some ((copies.map fun copy => input[copy.src]?) ++
        List.replicate rest none) := by
  induction copies using List.reverseRecOn generalizing rest with
  | nil => simp [runCopies]
  | append_singleton copies copy ih =>
      rw [List.map_append, List.length_append, List.length_singleton,
        List.range_succ] at hdst
      have hparts := List.append_inj hdst (by simp)
      have hlast : copy.dst = copies.length := by simpa using hparts.2
      have hbefore := ih hparts.1
        (fun earlier hearlier => hsrc earlier (List.mem_append_left _ hearlier))
        (1 + rest)
      unfold runCopies at hbefore ⊢
      rw [List.foldlM_append, List.length_append, List.length_singleton,
        Nat.add_assoc, hbefore]
      have hmem := hsrc copy (List.mem_append_right _ (List.mem_singleton_self _))
      have hset : (List.map (fun copy : Copy => input[copy.src]?) copies ++
          List.replicate (1 + rest) none).set copy.dst input[copy.src]? =
            List.map (fun copy => input[copy.src]?) (copies ++ [copy]) ++
              List.replicate rest none := by
        rw [hlast, List.set_append_right _ _ (by simp), Nat.add_comm 1 rest,
          List.replicate_succ]
        simp
      simp only [Option.bind_eq_bind, Option.bind_some, List.foldlM_cons,
        List.foldlM_nil]
      rw [Copy.run_eq hmem (by simp [hlast]), hset]
      rfl

/-- When the assignments go through the buffer from its beginning to its end,
they write it all. -/
theorem runCopies_eq {input : List α} {size : ℕ} {copies : List Copy}
    (hdst : copies.map Copy.dst = List.range size)
    (hsrc : ∀ copy ∈ copies, copy.src < input.length) :
    runCopies input size copies =
      some (copies.map fun copy => input[copy.src]?) := by
  have hsize : copies.length = size := by
    simpa using congrArg List.length hdst
  subst hsize
  simpa using runCopies_append_unwritten hdst hsrc 0

/-! ## Alternating elements -/

def interleave : List α → List α → List α
  | x :: xs, y :: ys => x :: y :: interleave xs ys
  | _, _ => []

/-- The elements at the places 0, 2, 4 and so on. -/
def evens : List α → List α
  | [] => []
  | [x] => [x]
  | x :: _ :: rest => x :: evens rest

/-- The elements at the places 1, 3, 5 and so on. -/
def odds : List α → List α
  | [] => []
  | [_] => []
  | _ :: y :: rest => y :: odds rest

theorem evens_interleave {xs ys : List α} (hlength : xs.length = ys.length) :
    evens (interleave xs ys) = xs := by
  induction xs generalizing ys with
  | nil => rfl
  | cons x xs ih =>
      cases ys with
      | nil => cases hlength
      | cons y ys =>
          rw [interleave, evens, ih (by simpa using hlength)]

theorem odds_interleave {xs ys : List α} (hlength : xs.length = ys.length) :
    odds (interleave xs ys) = ys := by
  induction xs generalizing ys with
  | nil =>
      cases ys with
      | nil => rfl
      | cons y ys => cases hlength
  | cons x xs ih =>
      cases ys with
      | nil => cases hlength
      | cons y ys =>
          rw [interleave, odds, ih (by simpa using hlength)]

theorem map_interleave (f : α → β) (xs ys : List α) :
    (interleave xs ys).map f = interleave (xs.map f) (ys.map f) := by
  induction xs generalizing ys with
  | nil => rfl
  | cons x xs ih =>
      cases ys with
      | nil => rfl
      | cons y ys =>
          simp only [interleave, List.map_cons, ih]

theorem flatMap_pair (f g : α → β) (list : List α) :
    list.flatMap (fun turn => [f turn, g turn]) =
      interleave (list.map f) (list.map g) := by
  induction list with
  | nil => rfl
  | cons turn rest ih =>
      rw [List.flatMap_cons, ih]
      rfl

theorem map_getElem?_range {before list behind : List α} :
    ((List.range list.length).map fun k =>
        (before ++ list ++ behind)[before.length + k]?) = list.map some := by
  apply List.ext_getElem
  · simp
  · intro k hleft hright
    have hk : k < list.length := by simpa using hright
    simp [List.getElem?_append, hk]

end ByteCopies
