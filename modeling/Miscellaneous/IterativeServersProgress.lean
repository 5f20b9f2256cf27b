import Miscellaneous.IterativeServers
import Mathlib.Tactic

/-!
# Servers that serve one client after the other: progress

If no conversation gets stuck then neither does the server: when nothing is
possible any more, all clients have been served.  If every step lowers a rank
of its conversation, a run is bounded by the ranks of the clients in it.
-/

namespace IterativeServers

open GuardedRuns

namespace Protocol

variable {Session Action Memory : Type*}
  {protocol : Protocol Session Action Memory} {s t : State Session Memory}
  {admits : Session → Action → Prop} {start : ℕ → Session}
  {waits serves : ℕ → Session → Prop} {remembers : Memory → Prop}

/-! ## Nobody is kept waiting -/

/-- A session in service can go on, and so can the client of a closed one until
it is at its end. -/
structure Progress (protocol : Protocol Session Action Memory)
    (admits : Session → Action → Prop) (serves : ℕ → Session → Prop)
    (exited : Session → Prop) : Prop where
  serving : ∀ {client session}, serves client session →
    protocol.closed session = false →
    ∃ action, admits session action ∧ (protocol.step session action).isSome
  afterClose : ∀ {client session}, serves client session →
    protocol.closed session = true → ¬exited session →
    ∃ action, protocol.isServer action = false ∧ admits session action ∧
      (protocol.step session action).isSome

/-- No admitted step is possible, unless another client connects. -/
def Stuck (protocol : Protocol Session Action Memory)
    (admits : Session → Action → Prop) (s : State Session Memory) : Prop :=
  ∀ label, (∀ client, label ≠ .connect client) → Admits admits s label →
    protocol.systemStep s label = none

theorem Stuck.client_none (hstuck : Stuck protocol admits s) {client : ℕ}
    (hconnected : client ∈ s.connected) {action : Action}
    (hside : protocol.isServer action = false)
    (hadmits : admits (s.sessions client) action) :
    protocol.step (s.sessions client) action = none := by
  have hnone := hstuck (.client client action) (by simp) hadmits
  simpa [systemStep, stepClient, hconnected, hside] using hnone

theorem Stuck.serving_none (hstuck : Stuck protocol admits s)
    {exited : Session → Prop} (hprogress : Progress protocol admits serves exited)
    (hsound : Sound protocol waits serves remembers s) : s.serving = none := by
  cases hserving : s.serving with
  | none => rfl
  | some client =>
      exfalso
      rcases hsound.serving client hserving with ⟨hserves, hopen⟩
      rcases hprogress.serving hserves hopen with ⟨action, hadmits, hsome⟩
      have hconnected : client ∈ s.connected := by
        simp [State.connected, hserving]
      cases hside : protocol.isServer action with
      | false => simp [hstuck.client_none hconnected hside hadmits] at hsome
      | true =>
          have hnone := hstuck (.server action) (by simp) (by
            intro other hother
            obtain rfl : client = other :=
              Option.some.inj (hserving.symm.trans hother)
            exact hadmits)
          simp only [systemStep, stepServer, hserving, hside, if_true,
            Option.map_eq_none_iff] at hnone
          simp [hnone] at hsome

/-- When nothing is possible any more, every client that has connected has been
served and is at its end. -/
theorem Stuck.all_exited (hstuck : Stuck protocol admits s)
    {exited : Session → Prop} (hprogress : Progress protocol admits serves exited)
    (hsound : Sound protocol waits serves remembers s) :
    s.finished = s.connected ∧
      ∀ client ∈ s.connected, exited (s.sessions client) := by
  have hserving := hstuck.serving_none hprogress hsound
  have hqueue : s.queue = [] := by
    cases hqueue : s.queue with
    | nil => rfl
    | cons client queue =>
        have hnone := hstuck .accept (by simp) trivial
        simp [systemStep, stepAccept, hserving, hqueue] at hnone
  have hall : s.finished = s.connected := by
    simp [State.connected, hserving, hqueue]
  refine ⟨hall, ?_⟩
  intro client hclient
  by_contra hnot
  rcases hsound.served client (hall ▸ hclient) with ⟨hserves, hclosed⟩
  rcases hprogress.afterClose hserves hclosed hnot with
    ⟨action, hside, hadmits, hsome⟩
  simp [hstuck.client_none hclient hside hadmits] at hsome

/-! ## How long it takes -/

/-- Every step lowers the rank of its session, which is bounded. -/
structure Bounded (protocol : Protocol Session Action Memory)
    (admits : Session → Action → Prop) (waits serves : ℕ → Session → Prop)
    (remembers : Memory → Prop) (rank : Session → ℕ) (bound : ℕ → ℕ) :
    Prop where
  waiting : ∀ {client session action next}, waits client session →
    protocol.isServer action = false → admits session action →
    protocol.step session action = some next → rank next < rank session
  serving : ∀ {client session action next}, serves client session →
    admits session action → protocol.step session action = some next →
    rank next < rank session
  load : ∀ {client session memory}, waits client session → remembers memory →
    rank (protocol.load memory session) ≤ rank session
  bound : ∀ {client session}, waits client session →
    rank session ≤ bound client

/-- The steps that the clients which have connected can still take. -/
def potential (rank : Session → ℕ) (s : State Session Memory) : ℕ :=
  (s.connected.map fun client => rank (s.sessions client)).sum + s.queue.length

def Label.isConnect : Label Action → Bool
  | .connect _ => true
  | .accept => false
  | .client _ _ => false
  | .server _ => false

theorem sum_rank_lt {rank : Session → ℕ} {clients : List ℕ} {client : ℕ}
    (hmem : client ∈ clients) {session : Session}
    (hlt : rank session < rank (s.sessions client)) :
    (clients.map fun other =>
        rank ((s.setSession client session).sessions other)).sum <
      (clients.map fun other => rank (s.sessions other)).sum := by
  refine List.sum_lt_sum _ _ ?_ ⟨client, hmem, ?_⟩
  · intro other _
    rw [State.setSession_sessions]
    split_ifs with hoc
    · subst hoc
      exact hlt.le
    · exact le_refl _
  · rw [State.setSession_sessions, if_pos rfl]
    exact hlt

theorem Bounded.clientMove {rank : Session → ℕ} {bound : ℕ → ℕ}
    (hbounded : Bounded protocol admits waits serves remembers rank bound)
    (hsound : Sound protocol waits serves remembers s) {client : ℕ}
    {action : Action} {session : Session}
    (hside : protocol.isServer action = false)
    (hadmits : admits (s.sessions client) action)
    (hstep : protocol.step (s.sessions client) action = some session) :
    rank session < rank (s.sessions client) := by
  by_cases hfinished : client ∈ s.finished
  · exact hbounded.serving (hsound.served client hfinished).1 hadmits hstep
  · by_cases hserving : s.serving = some client
    · exact hbounded.serving (hsound.serving client hserving).1 hadmits hstep
    · exact hbounded.waiting (hsound.waiting client hfinished hserving) hside
        hadmits hstep

theorem Bounded.potential_step {rank : Session → ℕ} {bound : ℕ → ℕ}
    (hbounded : Bounded protocol admits waits serves remembers rank bound)
    (hsound : Sound protocol waits serves remembers s) {label : Label Action}
    (hadmits : Admits admits s label)
    (hstep : protocol.systemStep s label = some t) :
    potential rank t + (if Label.isConnect label then 0 else 1) ≤
      potential rank s +
        ((Label.arrival label).map fun client => bound client + 1).sum := by
  have hmove := systemStep_move hstep
  have hconnected := hmove.connected
  cases hmove with
  | @connect client hnew =>
      have hwaits : waits client (s.sessions client) :=
        hsound.waiting client (fun h => hnew (by simp [State.connected, h]))
          (fun h => hnew (by simp [State.connected, h]))
      have hrank := hbounded.bound hwaits
      simp only [potential, hconnected, Label.arrival, Label.isConnect,
        List.map_append, List.sum_append, List.map_cons, List.map_nil,
        List.sum_cons, List.sum_nil, List.length_append, List.length_cons,
        List.length_nil, if_true]
      omega
  | @accept client queue hserving hqueue =>
      have hload := hbounded.load (hsound.head_waits hserving hqueue)
        hsound.memory
      have hsum : (s.connected.map fun other => rank
          ((s.setSession client (protocol.load s.memory
            (s.sessions client))).sessions other)).sum ≤
          (s.connected.map fun other => rank (s.sessions other)).sum := by
        refine List.sum_le_sum fun other _ => ?_
        rw [State.setSession_sessions]
        split_ifs with hoc
        · subst hoc
          exact hload
        · exact le_refl _
      simp only [potential, hconnected, Label.arrival, Label.isConnect,
        List.append_nil, List.map_nil, List.sum_nil, hqueue, List.length_cons]
      simp only [Bool.false_eq_true, if_false]
      omega
  | client hmem hside hsession =>
      have hsum := sum_rank_lt hmem
        (hbounded.clientMove hsound hside hadmits hsession)
      simp only [potential, hconnected, Label.arrival, Label.isConnect,
        List.append_nil, List.map_nil, List.sum_nil, Bool.false_eq_true, if_false]
      have hqueue : ∀ client session,
          (s.setSession client session).queue = s.queue := fun _ _ => rfl
      rw [hqueue]
      omega
  | @server client action session hserving _ hsession =>
      have hmem : client ∈ s.connected := by
        simp [State.connected, hserving]
      have hsum := sum_rank_lt hmem (hbounded.serving
        (hsound.serving client hserving).1 (hadmits client hserving) hsession)
      have hsessions : (protocol.afterServer s client session).sessions =
          (s.setSession client session).sessions := by
        unfold afterServer
        split_ifs <;> rfl
      have hqueue : (protocol.afterServer s client session).queue = s.queue := by
        unfold afterServer
        split_ifs <;> rfl
      simp only [potential, hconnected, Label.arrival, Label.isConnect,
        List.append_nil, List.map_nil, List.sum_nil, Bool.false_eq_true, if_false,
        hsessions, hqueue]
      omega

/-- The steps of a run are bounded by the clients that connect in it. -/
theorem Bounded.run {rank : Session → ℕ} {bound : ℕ → ℕ}
    (hbounded : Bounded protocol admits waits serves remembers rank bound)
    (hrules : Rules protocol admits start waits serves remembers)
    (hsound : Sound protocol waits serves remembers s)
    {labels : List (Label Action)}
    (hadmits : StepsMeet protocol.systemStep (Admits admits) s labels)
    (hrun : GuardedRuns.run protocol.systemStep s labels = some t) :
    potential rank t + labels.countP (fun label => !Label.isConnect label) ≤
      potential rank s +
        ((arrivals labels).map fun client => bound client + 1).sum := by
  induction labels generalizing s with
  | nil =>
      rw [run_nil, Option.some.injEq] at hrun
      simp [hrun, arrivals]
  | cons label labels ih =>
      rcases run_cons_eq_some.mp hrun with ⟨next, hnext, hrest⟩
      rcases hadmits with ⟨hfirst, hmore⟩
      have hstep := hbounded.potential_step hsound hfirst hnext
      have hothers := ih (hrules.systemStep hfirst hsound hnext)
        (hmore next hnext) hrest
      rw [arrivals_cons, List.map_append, List.sum_append, List.countP_cons]
      cases hlabel : Label.isConnect label <;>
      · simp only [hlabel, Bool.not_true, Bool.not_false, if_true,
          Bool.false_eq_true, if_false] at hstep ⊢
        omega

end Protocol

end IterativeServers
