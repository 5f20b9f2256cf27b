import Mathlib.Tactic

/-!
# Queues whose messages have kinds

A message is put at the end, and the first message of a kind is taken.  Each
kind has a queue of its own inside the queue: taking one kind takes its oldest
message and leaves the others as they are.
-/

namespace TypedQueues

structure Message (Kind Payload : Type*) where
  kind : Kind
  payload : Payload
  deriving DecidableEq, Repr

variable {Kind Payload : Type*} [DecidableEq Kind]

def ofKind (kind : Kind) (queue : List (Message Kind Payload)) :
    List (Message Kind Payload) :=
  queue.filter fun message => message.kind = kind

/-- The first message of a kind, and the queue without it. -/
def take (kind : Kind) : List (Message Kind Payload) →
    Option (Message Kind Payload × List (Message Kind Payload))
  | [] => none
  | message :: rest =>
      if message.kind = kind then some (message, rest)
      else (take kind rest).map fun taken => (taken.1, message :: taken.2)

@[simp] theorem ofKind_nil (kind : Kind) :
    ofKind kind ([] : List (Message Kind Payload)) = [] := rfl

theorem ofKind_cons_self (message : Message Kind Payload)
    (queue : List (Message Kind Payload)) :
    ofKind message.kind (message :: queue) =
      message :: ofKind message.kind queue :=
  List.filter_cons_of_pos (by simp)

theorem ofKind_cons_of_ne {kind : Kind} {message : Message Kind Payload}
    (hkind : message.kind ≠ kind) (queue : List (Message Kind Payload)) :
    ofKind kind (message :: queue) = ofKind kind queue :=
  List.filter_cons_of_neg (by simpa using hkind)

@[simp] theorem ofKind_append (kind : Kind)
    (queue more : List (Message Kind Payload)) :
    ofKind kind (queue ++ more) = ofKind kind queue ++ ofKind kind more :=
  List.filter_append queue more

theorem ofKind_cons (kind : Kind) (message : Message Kind Payload)
    (queue : List (Message Kind Payload)) :
    ofKind kind (message :: queue) =
      ofKind kind [message] ++ ofKind kind queue :=
  ofKind_append kind [message] queue

theorem length_ofKind (kind : Kind) (queue : List (Message Kind Payload)) :
    (ofKind kind queue).length = (queue.map Message.kind).count kind := by
  rw [ofKind, ← List.countP_eq_length_filter, List.count, List.countP_map]
  rfl

theorem take_eq_none_iff {kind : Kind}
    {queue : List (Message Kind Payload)} :
    take kind queue = none ↔ ofKind kind queue = [] := by
  induction queue with
  | nil => simp [take]
  | cons message queue ih =>
      by_cases hkind : message.kind = kind
      · subst hkind
        simp [take, ofKind_cons_self]
      · simp [take, hkind, ofKind_cons_of_ne hkind, ih]

/-- What is taken is the oldest message of its kind. -/
theorem ofKind_of_take {kind : Kind}
    {queue left : List (Message Kind Payload)}
    {message : Message Kind Payload}
    (htake : take kind queue = some (message, left)) :
    message.kind = kind ∧
      ∀ other, ofKind other queue = ofKind other (message :: left) := by
  induction queue generalizing left with
  | nil => simp [take] at htake
  | cons first queue ih =>
      by_cases hkind : first.kind = kind
      · simp only [take, hkind, if_true, Option.some.injEq,
          Prod.mk.injEq] at htake
        obtain ⟨rfl, rfl⟩ := htake
        exact ⟨hkind, fun _ => rfl⟩
      · simp only [take, hkind, if_false, Option.map_eq_some_iff,
          Prod.mk.injEq] at htake
        obtain ⟨⟨taken, rest⟩, hrest, rfl, rfl⟩ := htake
        have htaken := ih hrest
        refine ⟨htaken.1, fun other => ?_⟩
        have hother := htaken.2 other
        by_cases hfirst : first.kind = other
        · have hne : taken.kind ≠ other := by
            rw [htaken.1, ← hfirst]
            exact fun heq => hkind heq.symm
          rw [ofKind_cons_of_ne hne] at hother ⊢
          subst hfirst
          rw [ofKind_cons_self, ofKind_cons_self, hother]
        · rw [ofKind_cons_of_ne hfirst, hother]
          by_cases htakenKind : taken.kind = other
          · subst htakenKind
            rw [ofKind_cons_self, ofKind_cons_self, ofKind_cons_of_ne hfirst]
          · rw [ofKind_cons_of_ne htakenKind, ofKind_cons_of_ne htakenKind,
              ofKind_cons_of_ne hfirst]

/-- Messages of some kinds are received without a miss if each kind has
enough of them. -/
def Suffices (kinds : List Kind) (queue : List (Message Kind Payload)) : Prop :=
  ∀ kind, kinds.count kind ≤ (ofKind kind queue).length

theorem Suffices.append {kinds : List Kind}
    {queue : List (Message Kind Payload)} (hsuffices : Suffices kinds queue)
    (more : List (Message Kind Payload)) : Suffices kinds (queue ++ more) := by
  intro kind
  rw [ofKind_append, List.length_append]
  exact (hsuffices kind).trans (Nat.le_add_right _ _)

theorem Suffices.take {kind : Kind} {kinds : List Kind}
    {queue : List (Message Kind Payload)}
    (hsuffices : Suffices (kind :: kinds) queue) :
    ∃ message left, take kind queue = some (message, left) ∧
      Suffices kinds left := by
  cases htake : TypedQueues.take kind queue with
  | none =>
      have hnone := take_eq_none_iff.mp htake
      have hcount := hsuffices kind
      simp [hnone] at hcount
  | some taken =>
      obtain ⟨message, left⟩ := taken
      refine ⟨message, left, rfl, fun other => ?_⟩
      obtain ⟨rfl, hof⟩ := ofKind_of_take htake
      have hcount := hsuffices other
      rw [hof other] at hcount
      by_cases hother : message.kind = other
      · subst hother
        rw [List.count_cons_self, ofKind_cons_self, List.length_cons] at hcount
        omega
      · rwa [ofKind_cons_of_ne hother, List.count_cons_of_ne hother] at hcount

end TypedQueues
