import Miscellaneous.ChatServerDescriptors
import Mathlib.Data.List.Sort
import Mathlib.Tactic

/-!
# One sweep over the ready descriptors

After a successful `select` the loop over `i` services the descriptors of the
working set: it announces each and calls `accept` or `recv` on it.  The loop's bound `max_sd` moves while it runs, and the numbers
it closes can come back from `accept`.  What carries the argument is that a
descriptor of the working set which `i` has not passed is still in the master
set: it is open, so `accept` cannot return it, and `max_sd` is no smaller.
This holds as long as no `FD_SET` is called with a descriptor outside of the set.
-/

namespace Miscellaneous.ChatServer

open GuardedRuns

def serviced (trace : List Event) : List ℕ :=
  trace.filterMap fun event =>
    match event with
    | .readable fd => some fd
    | _ => none

/-- The descriptor that `accept` or `recv` is called on. -/
def Event.calledOn (listenfd : ℕ) : Event → Option ℕ
  | .accept _ | .acceptNone => some listenfd
  | .recv fd => some fd
  | .readable _ | .send _ | .close _ => none

/-- The descriptors that `accept` or `recv` is called on, each of them once for
calls that follow one another. -/
def handled (listenfd : ℕ) (trace : List Event) : List ℕ :=
  trace.foldl
    (fun fds event =>
      match event.calledOn listenfd with
      | some fd => if fds.getLast? = some fd then fds else fds ++ [fd]
      | none => fds) []

def Pc.inSweep : Pc → Bool
  | .sweep | .accepting | .receiving | .sending | .closing => true
  | .select | .cleanup | .exited | .fault | .undefined => false

/-- No call has been made on the current descriptor, or it is for the next call
to be made. -/
def Pc.beforeCall : Pc → Bool
  | .sweep | .accepting | .receiving => true
  | _ => false

def State.visited (s : State) : ℕ :=
  if s.pc = .sweep then s.i else s.i + 1

def Answer.afterSelect : Answer → Bool
  | .selectFailed | .selected _ => false
  | _ => true

/-- Every `recv` is called on the descriptor that was found readable last.
It is in the working set, it is open, and `accept` has not returned it since
the select. -/
def RecvsGuarded (listenfd : ℕ) (ready : Finset ℕ)
    (before during : List Event) : Prop :=
  ∀ earlier fd later, during = earlier ++ .recv fd :: later →
    (serviced earlier).getLast? = some fd ∧ fd ∈ ready ∧
      fd ∈ openDescriptors listenfd (before ++ earlier) ∧
      .accept fd ∉ earlier

theorem recvsGuarded_nil (listenfd : ℕ) (ready : Finset ℕ)
    (before : List Event) : RecvsGuarded listenfd ready before [] := by
  intro earlier fd later hsplit
  simp at hsplit

theorem RecvsGuarded.append {listenfd : ℕ} {ready : Finset ℕ}
    {before during more : List Event}
    (hguarded : RecvsGuarded listenfd ready before during)
    (hmore : ∀ fd, .recv fd ∉ more) :
    RecvsGuarded listenfd ready before (during ++ more) := by
  intro earlier fd later hsplit
  rcases List.append_eq_append_iff.mp hsplit with
    ⟨rest, _, hrest⟩ | ⟨rest, hrest, htail⟩
  · have hmem : Event.recv fd ∈ more := by simp [hrest]
    exact absurd hmem (hmore fd)
  · cases rest with
    | nil =>
        have hmem : Event.recv fd ∈ more := by
          rw [List.nil_append] at htail
          exact htail ▸ List.mem_cons_self
        exact absurd hmem (hmore fd)
    | cons event rest =>
        rw [List.cons_append, List.cons.injEq] at htail
        rw [← htail.1] at hrest
        exact hguarded earlier fd rest hrest

theorem RecvsGuarded.recv {listenfd : ℕ} {ready : Finset ℕ}
    {before during : List Event} {fd : ℕ}
    (hguarded : RecvsGuarded listenfd ready before during)
    (hlast : (serviced during).getLast? = some fd)
    (hready : fd ∈ ready)
    (hopen : fd ∈ openDescriptors listenfd (before ++ during))
    (hfresh : .accept fd ∉ during) :
    RecvsGuarded listenfd ready before (during ++ [.recv fd]) := by
  intro earlier other later hsplit
  cases later using List.reverseRecOn with
  | nil =>
      rcases List.append_inj' hsplit rfl with ⟨rfl, hevent⟩
      obtain rfl : fd = other := by simpa using hevent
      exact ⟨hlast, hready, hopen, hfresh⟩
  | append_singleton later event _ =>
      have hshift : during ++ [.recv fd] =
          (earlier ++ .recv other :: later) ++ [event] := by
        simpa using hsplit
      exact hguarded earlier other later (List.append_inj' hshift rfl).1

theorem handled_append_of_quiet {listenfd : ℕ} {more : List Event}
    (hmore : ∀ event ∈ more, event.calledOn listenfd = none)
    (trace : List Event) :
    handled listenfd (trace ++ more) = handled listenfd trace := by
  induction more using List.reverseRecOn with
  | nil => rw [List.append_nil]
  | append_singleton more event ih =>
      have hevent := hmore event (by simp)
      have hbefore := ih fun other hother => hmore other (by simp [hother])
      rw [← List.append_assoc]
      unfold handled at hbefore ⊢
      rw [List.foldl_append, List.foldl_cons, List.foldl_nil, hevent]
      exact hbefore

theorem handled_append_call {listenfd fd : ℕ} {event : Event}
    (hevent : event.calledOn listenfd = some fd) (trace : List Event) :
    handled listenfd (trace ++ [event]) =
      if (handled listenfd trace).getLast? = some fd then handled listenfd trace
      else handled listenfd trace ++ [fd] := by
  unfold handled
  rw [List.foldl_append, List.foldl_cons, List.foldl_nil, hevent]

/-! ## The invariant of the sweep -/

/-- The calls have been made on the ready descriptors below `i`, in turn. -/
def HandledBelow (setting : Setting) (ready : Finset ℕ) (during : List Event)
    (i : ℕ) : Prop :=
  handled setting.listenfd during = (List.range i).filter (· ∈ ready)

structure Sweep (setting : Setting) (ready : Finset ℕ)
    (before during : List Event) (s : State) : Prop where
  trace : s.trace = before ++ during
  inside : s.pc.inSweep = true
  working : s.workingSet = ready
  serviced : serviced during = (List.range s.visited).filter (· ∈ ready)
  remaining : s.descReady = (ready.filter (s.visited ≤ ·)).card
  pending : ∀ fd ∈ ready, s.i ≤ fd →
    fd ∈ s.masterSet ∧ .accept fd ∉ during
  current : s.pc ≠ .sweep → s.i ∈ ready
  listening : s.pc = .accepting → s.i = setting.listenfd
  handled : HandledBelow setting ready during s.i ∧ s.pc.beforeCall = true ∨
    HandledBelow setting ready during (s.i + 1) ∧ s.pc ≠ .sweep
  recvs : RecvsGuarded setting.listenfd ready before during

structure Swept (setting : Setting) (ready : Finset ℕ)
    (before during : List Event) (s : State) : Prop where
  trace : s.trace = before ++ during
  ended : s.pc = .select ∨ s.pc = .cleanup ∨ s.pc = .exited
  serviced : serviced during = ready.sort (· ≤ ·)
  handled : handled setting.listenfd during = ready.sort (· ≤ ·)
  remaining : s.descReady = 0
  recvs : RecvsGuarded setting.listenfd ready before during

def SweepOrSwept (setting : Setting) (ready : Finset ℕ)
    (before : List Event) (s : State) : Prop :=
  ∃ during, Sweep setting ready before during s ∨
    Swept setting ready before during s

theorem filter_range_eq_sort {fds : Finset ℕ} {bound : ℕ}
    (hbound : ∀ fd ∈ fds, fd < bound) :
    (List.range bound).filter (· ∈ fds) = fds.sort (· ≤ ·) := by
  have hrange : ((List.range bound).filter (· ∈ fds)).Pairwise (· < ·) :=
    List.pairwise_lt_range.filter _
  have hsort : (fds.sort (· ≤ ·)).Pairwise (· < ·) :=
    fds.sortedLT_sort.pairwise
  apply hrange.eq_of_mem_iff hsort
  intro fd
  simp only [List.mem_filter, List.mem_range, decide_eq_true_eq,
    Finset.mem_sort]
  constructor
  · exact fun h => h.2
  · exact fun h => ⟨hbound fd h, h⟩

theorem filter_range_prefix_sort (fds : Finset ℕ) (bound : ℕ) :
    (List.range bound).filter (· ∈ fds) <+: fds.sort (· ≤ ·) := by
  have hsup : ∀ fd ∈ fds, fd < bound + (fds.sup id + 1) := by
    intro fd hfd
    have hle : fd ≤ fds.sup id := @Finset.le_sup ℕ ℕ _ _ fds id fd hfd
    omega
  rw [← filter_range_eq_sort hsup, List.range_add, List.filter_append]
  exact List.prefix_append _ _

theorem Sweep.sweepEnd {setting : Setting} {ready : Finset ℕ}
    {before during : List Event} {s : State}
    (hsweep : Sweep setting ready before during s)
    (hinv : Invariant setting s) (hpc : s.pc = .sweep)
    (hguard : ¬(s.i ≤ s.maxSd ∧ s.descReady > 0)) :
    Swept setting ready before during s.loop := by
  have hvisited : s.visited = s.i := by simp [State.visited, hpc]
  have hremaining : s.descReady = (ready.filter (s.i ≤ ·)).card := by
    rw [hsweep.remaining, hvisited]
  have hempty : ready.filter (s.i ≤ ·) = ∅ := by
    by_cases hzero : s.descReady = 0
    · rw [hremaining] at hzero
      exact Finset.card_eq_zero.mp hzero
    · apply Finset.filter_eq_empty_iff.mpr
      intro fd hfd hle
      have hmem : fd ∈ s.masterSet := (hsweep.pending fd hfd hle).1
      have hmax : fd ≤ s.maxSd := hinv.greatest.2 hmem
      omega
  have hpassed : ∀ fd ∈ ready, fd < s.i := by
    intro fd hfd
    by_contra hle
    exact Finset.filter_eq_empty_iff.mp hempty hfd (by omega)
  have hservice : ChatServer.serviced during = ready.sort (· ≤ ·) := by
    rw [hsweep.serviced, hvisited, filter_range_eq_sort hpassed]
  have hhandled : ChatServer.handled setting.listenfd during =
      ready.sort (· ≤ ·) := by
    rcases hsweep.handled with ⟨hbelow, _⟩ | ⟨_, hnot⟩
    · rw [hbelow, filter_range_eq_sort hpassed]
    · exact absurd hpc hnot
  have hdone : s.descReady = 0 := by rw [hremaining, hempty, Finset.card_empty]
  unfold State.loop
  split_ifs
  · exact ⟨hsweep.trace, by simp, hservice, hhandled, hdone, hsweep.recvs⟩
  · exact ⟨hsweep.trace, by simp, hservice, hhandled, hdone, hsweep.recvs⟩

theorem serviced_append (trace more : List Event) :
    serviced (trace ++ more) = serviced trace ++ serviced more :=
  List.filterMap_append

theorem filter_le_of_not_mem {fds : Finset ℕ} {i : ℕ} (hnot : i ∉ fds) :
    fds.filter (i ≤ ·) = fds.filter (i + 1 ≤ ·) := by
  apply Finset.filter_congr
  intro fd hfd
  have hne : fd ≠ i := fun h => hnot (h ▸ hfd)
  constructor <;> intro hle <;> omega

theorem card_filter_le_of_mem {fds : Finset ℕ} {i : ℕ} (hmem : i ∈ fds) :
    (fds.filter (i ≤ ·)).card = (fds.filter (i + 1 ≤ ·)).card + 1 := by
  have hinsert : fds.filter (i ≤ ·) = insert i (fds.filter (i + 1 ≤ ·)) := by
    ext fd
    simp only [Finset.mem_filter, Finset.mem_insert]
    constructor
    · rintro ⟨hfd, hle⟩
      rcases hle.eq_or_lt with rfl | hlt
      · exact .inl rfl
      · exact .inr ⟨hfd, hlt⟩
    · rintro (rfl | ⟨hfd, hlt⟩)
      · exact ⟨hmem, le_refl _⟩
      · exact ⟨hfd, by omega⟩
  have hnot : i ∉ fds.filter (i + 1 ≤ ·) := by simp
  rw [hinsert, Finset.card_insert_of_notMem hnot]

/-! ## The steps of the sweep -/

theorem start_sweep {setting : Setting} {ready : Finset ℕ} {s : State}
    (hready : ready ⊆ s.masterSet) :
    Sweep setting ready s.trace []
      { s with
        pc := .sweep
        workingSet := ready
        descReady := ready.card
        i := 0 } where
  trace := (List.append_nil _).symm
  inside := rfl
  working := rfl
  serviced := rfl
  remaining := by simp [State.visited]
  pending := fun fd hfd _ => ⟨hready hfd, by simp⟩
  current := fun hpc => absurd rfl hpc
  listening := fun hpc => nomatch hpc
  handled := Or.inl ⟨rfl, rfl⟩
  recvs := recvsGuarded_nil _ _ _

theorem Sweep.skip {setting : Setting} {ready : Finset ℕ}
    {before during : List Event} {s : State}
    (hsweep : Sweep setting ready before during s) (hpc : s.pc = .sweep)
    (hnot : s.i ∉ s.workingSet) :
    Sweep setting ready before during s.next := by
  have hvisited : s.visited = s.i := by simp [State.visited, hpc]
  rw [hsweep.working] at hnot
  constructor
  · exact hsweep.trace
  · rfl
  · exact hsweep.working
  · rw [hsweep.serviced, hvisited]
    simp [State.next, State.visited, List.range_succ, hnot]
  · have hremaining := hsweep.remaining
    rw [hvisited, filter_le_of_not_mem hnot] at hremaining
    exact hremaining
  · intro fd hfd hle
    exact hsweep.pending fd hfd (Nat.le_of_succ_le hle)
  · intro hpc'
    exact absurd rfl hpc'
  · intro hpc'
    cases hpc'
  · rcases hsweep.handled with ⟨hbelow, _⟩ | ⟨_, hnot'⟩
    · refine Or.inl ⟨?_, rfl⟩
      unfold HandledBelow at hbelow ⊢
      rw [hbelow]
      simp [State.next, List.range_succ, hnot]
    · exact absurd hpc hnot'
  · exact hsweep.recvs

theorem Sweep.service {setting : Setting} {ready : Finset ℕ}
    {before during : List Event} {s next : State}
    (hsweep : Sweep setting ready before during s) (hpc : s.pc = .sweep)
    (hmem : s.i ∈ s.workingSet)
    (hinside : next.pc.inSweep = true) (hpc' : next.pc ≠ .sweep)
    (hcall : next.pc.beforeCall = true)
    (hlisten : next.pc = .accepting → s.i = setting.listenfd)
    (htrace : next.trace = s.trace ++ [.readable s.i])
    (hworking : next.workingSet = s.workingSet) (hi : next.i = s.i)
    (hmaster : next.masterSet = s.masterSet)
    (hremaining : next.descReady = s.descReady - 1) :
    Sweep setting ready before (during ++ [.readable s.i]) next := by
  have hvisited : s.visited = s.i := by simp [State.visited, hpc]
  have hvisited' : next.visited = s.i + 1 := by
    simp [State.visited, hpc', hi]
  rw [hsweep.working] at hmem
  constructor
  · rw [htrace, hsweep.trace, List.append_assoc]
  · exact hinside
  · rw [hworking, hsweep.working]
  · rw [serviced_append, hsweep.serviced, hvisited, hvisited',
      List.range_succ, List.filter_append]
    simp [ChatServer.serviced, hmem]
  · rw [hremaining, hsweep.remaining, hvisited, hvisited',
      card_filter_le_of_mem hmem, Nat.add_sub_cancel]
  · intro fd hfd hle
    rw [hi] at hle
    rcases hsweep.pending fd hfd hle with ⟨hopen, hfresh⟩
    exact ⟨hmaster ▸ hopen, by simp [hfresh]⟩
  · exact fun _ => hi ▸ hmem
  · exact fun hpc' => hi ▸ hlisten hpc'
  · rcases hsweep.handled with ⟨hbelow, _⟩ | ⟨_, hnot⟩
    · refine Or.inl ⟨?_, hcall⟩
      unfold HandledBelow at hbelow ⊢
      rw [handled_append_of_quiet (by simp [Event.calledOn]), hbelow, hi]
    · exact absurd hpc hnot
  · exact hsweep.recvs.append (by simp)

/-- A call on the current descriptor, the first one or a further one. -/
theorem Sweep.handledBelow_call {setting : Setting} {ready : Finset ℕ}
    {before during : List Event} {s : State} {event : Event}
    (hsweep : Sweep setting ready before during s) (hpc : s.pc ≠ .sweep)
    (hevent : event.calledOn setting.listenfd = some s.i) :
    HandledBelow setting ready (during ++ [event]) (s.i + 1) := by
  have hmem : s.i ∈ ready := hsweep.current hpc
  have hsucc : (List.range (s.i + 1)).filter (· ∈ ready) =
      (List.range s.i).filter (· ∈ ready) ++ [s.i] := by
    simp [List.range_succ, hmem]
  unfold HandledBelow
  rw [handled_append_call hevent, hsucc]
  rcases hsweep.handled with ⟨hbelow, _⟩ | ⟨hbelow, _⟩
  · have hlast : ((List.range s.i).filter (· ∈ ready)).getLast? ≠ some s.i := by
      intro hlast
      have hin := List.mem_of_getLast? hlast
      rw [List.mem_filter, List.mem_range] at hin
      omega
    rw [hbelow, if_neg hlast]
  · unfold HandledBelow at hbelow
    rw [hbelow, hsucc, if_pos (by simp)]

/-- A step in the body of the loop, or out of the body to the next `i`. -/
theorem Sweep.body {setting : Setting} {ready : Finset ℕ}
    {before during more : List Event} {s next : State}
    (hsweep : Sweep setting ready before during s) (hpc : s.pc ≠ .sweep)
    (hinside : next.pc.inSweep = true)
    (htrace : next.trace = s.trace ++ more)
    (hworking : next.workingSet = s.workingSet)
    (hi : next.pc ≠ .sweep ∧ next.i = s.i ∨
      next.pc = .sweep ∧ next.i = s.i + 1)
    (hremaining : next.descReady = s.descReady)
    (hserviced : ChatServer.serviced more = [])
    (hpending : ∀ fd ∈ s.masterSet, next.i ≤ fd →
      fd ∈ next.masterSet ∧ .accept fd ∉ more)
    (hlisten : next.pc = .accepting → s.pc = .accepting)
    (hhandled : HandledBelow setting ready (during ++ more) (s.i + 1))
    (hrecvs : RecvsGuarded setting.listenfd ready before (during ++ more)) :
    Sweep setting ready before (during ++ more) next := by
  have hvisited : next.visited = s.visited := by
    rcases hi with ⟨hpc', hi⟩ | ⟨hpc', hi⟩
    · simp [State.visited, hpc, hpc', hi]
    · simp [State.visited, hpc, hpc', hi]
  have hle : s.i ≤ next.i := by omega
  constructor
  · rw [htrace, hsweep.trace, List.append_assoc]
  · exact hinside
  · rw [hworking, hsweep.working]
  · rw [serviced_append, hserviced, List.append_nil, hvisited,
      hsweep.serviced]
  · rw [hremaining, hvisited, hsweep.remaining]
  · intro fd hfd hpassed
    rcases hsweep.pending fd hfd (hle.trans hpassed) with ⟨hopen, hfresh⟩
    rcases hpending fd hopen hpassed with ⟨hopen', hfresh'⟩
    exact ⟨hopen', by simp [hfresh, hfresh']⟩
  · intro hpc'
    rcases hi with ⟨_, hi⟩ | ⟨hsweep', _⟩
    · exact hi ▸ hsweep.current hpc
    · exact absurd hsweep' hpc'
  · intro hpc'
    rcases hi with ⟨_, hi⟩ | ⟨hsweep', _⟩
    · exact hi ▸ hsweep.listening (hlisten hpc')
    · rw [hsweep'] at hpc'
      cases hpc'
  · rcases hi with ⟨hpc', hi⟩ | ⟨hpc', hi⟩
    · exact Or.inr ⟨hi ▸ hhandled, hpc'⟩
    · exact Or.inl ⟨hi ▸ hhandled, by rw [hpc']; rfl⟩
  · exact hrecvs

theorem Sweep.recv {setting : Setting} {ready : Finset ℕ}
    {before during : List Event} {s next : State}
    (hsweep : Sweep setting ready before during s)
    (hinv : Invariant setting s) (hpc : s.pc = .receiving)
    (hinside : next.pc.inSweep = true) (hpc' : next.pc ≠ .sweep)
    (haccepting : next.pc ≠ .accepting)
    (htrace : next.trace = s.trace ++ [.recv s.i])
    (hworking : next.workingSet = s.workingSet) (hi : next.i = s.i)
    (hmaster : next.masterSet = s.masterSet)
    (hremaining : next.descReady = s.descReady) :
    Sweep setting ready before (during ++ [.recv s.i]) next := by
  have hmem : s.i ∈ ready := hsweep.current (by simp [hpc])
  rcases hsweep.pending s.i hmem (le_refl _) with ⟨hopen, hfresh⟩
  have htracked := hinv.tracked (by simp [hpc])
  rw [htracked, hsweep.trace] at hopen
  have hlast : (ChatServer.serviced during).getLast? = some s.i := by
    rw [hsweep.serviced]
    simp [State.visited, hpc, List.range_succ, hmem]
  refine hsweep.body (by simp [hpc]) hinside htrace hworking
    (.inl ⟨hpc', hi⟩) hremaining rfl ?_ (fun h => absurd h haccepting)
    (hsweep.handledBelow_call (by simp [hpc]) rfl)
    (hsweep.recvs.recv hlast hmem hopen hfresh)
  intro fd hfd _
  exact ⟨hmaster ▸ hfd, by simp⟩

theorem Sweep.handledBelow_answered {setting : Setting} {ready : Finset ℕ}
    {before during : List Event} {s : State}
    (hsweep : Sweep setting ready before during s)
    (hpc : s.pc.beforeCall = false) :
    HandledBelow setting ready during (s.i + 1) := by
  rcases hsweep.handled with ⟨_, hcall⟩ | ⟨hbelow, _⟩
  · rw [hpc] at hcall
    cases hcall
  · exact hbelow

/-- A step behind a `recv` without a further call of `accept` or `recv`. -/
theorem Sweep.quiet {setting : Setting} {ready : Finset ℕ}
    {before during more : List Event} {s next : State}
    (hsweep : Sweep setting ready before during s)
    (hpc : s.pc = .sending ∨ s.pc = .closing)
    (haccepting : next.pc ≠ .accepting)
    (hinside : next.pc.inSweep = true)
    (htrace : next.trace = s.trace ++ more)
    (hmore : more = [] ∨ more = [.send s.i])
    (hworking : next.workingSet = s.workingSet)
    (hi : next.pc ≠ .sweep ∧ next.i = s.i ∨
      next.pc = .sweep ∧ next.i = s.i + 1)
    (hmaster : next.masterSet = s.masterSet)
    (hremaining : next.descReady = s.descReady) :
    Sweep setting ready before (during ++ more) next := by
  have hserviced : ChatServer.serviced more = [] := by
    rcases hmore with rfl | rfl <;> rfl
  have hnone : ∀ fd, .recv fd ∉ more ∧ .accept fd ∉ more := by
    rcases hmore with rfl | rfl <;> simp
  have hsweeping : s.pc ≠ .sweep ∧ s.pc.beforeCall = false := by
    rcases hpc with hpc | hpc <;> simp [hpc, Pc.beforeCall]
  have hhandled : HandledBelow setting ready (during ++ more) (s.i + 1) := by
    have hbelow := hsweep.handledBelow_answered hsweeping.2
    unfold HandledBelow at hbelow ⊢
    rw [handled_append_of_quiet, hbelow]
    rcases hmore with rfl | rfl <;> simp [Event.calledOn]
  refine hsweep.body hsweeping.1 hinside htrace hworking hi hremaining
    hserviced ?_ (fun h => absurd h haccepting) hhandled
    (hsweep.recvs.append fun fd => (hnone fd).1)
  intro fd hfd _
  exact ⟨hmaster ▸ hfd, (hnone fd).2⟩

theorem Sweep.accepted {setting : Setting} {ready : Finset ℕ}
    {before during : List Event} {s : State} {fd : ℕ}
    (hsweep : Sweep setting ready before during s)
    (hinv : Invariant setting s) (hpc : s.pc = .accepting)
    (hnew : fd ∉ openDescriptors setting.listenfd s.trace)
    (hfits : fd < fdSetSize) :
    Sweep setting ready before (during ++ [.accept fd])
      (s.addConnection fd) := by
  have hpc' : (s.addConnection fd).pc = .accepting := by
    rw [← hpc]
    exact if_pos hfits
  rw [← hinv.tracked (by simp [hpc])] at hnew
  refine hsweep.body (by simp [hpc]) (by simp [hpc', Pc.inSweep]) rfl rfl
    (.inl ⟨by simp [hpc'], rfl⟩) rfl rfl ?_ (fun _ => hpc)
    (hsweep.handledBelow_call (by simp [hpc]) ?_)
    (hsweep.recvs.append (by simp))
  · intro other hother _
    have hne : other ≠ fd := fun h => hnew (h ▸ hother)
    exact ⟨Finset.mem_insert_of_mem hother, by simpa using hne⟩
  · rw [hsweep.listening hpc]
    rfl

/-- The last call of `accept` in a sweep. -/
theorem Sweep.acceptNone {setting : Setting} {ready : Finset ℕ}
    {before during : List Event} {s next : State}
    (hsweep : Sweep setting ready before during s) (hpc : s.pc = .accepting)
    (hpc' : next.pc = .sweep)
    (htrace : next.trace = s.trace ++ [.acceptNone])
    (hworking : next.workingSet = s.workingSet) (hi : next.i = s.i + 1)
    (hmaster : next.masterSet = s.masterSet)
    (hremaining : next.descReady = s.descReady) :
    Sweep setting ready before (during ++ [.acceptNone]) next := by
  refine hsweep.body (by simp [hpc]) (by simp [hpc', Pc.inSweep]) htrace
    hworking (.inr ⟨hpc', hi⟩) hremaining rfl ?_ (by simp [hpc'])
    (hsweep.handledBelow_call (by simp [hpc]) ?_)
    (hsweep.recvs.append (by simp))
  · intro fd hfd _
    exact ⟨hmaster ▸ hfd, by simp⟩
  · rw [hsweep.listening hpc]
    rfl

theorem Sweep.close {setting : Setting} {ready : Finset ℕ}
    {before during : List Event} {s : State} {maxSd : ℕ}
    (hsweep : Sweep setting ready before during s) (hpc : s.pc = .closing) :
    Sweep setting ready before (during ++ [.close s.i])
      { s.closeConnection with maxSd := maxSd }.next := by
  have hhandled : HandledBelow setting ready (during ++ [.close s.i])
      (s.i + 1) := by
    have hbelow := hsweep.handledBelow_answered (by rw [hpc]; rfl)
    unfold HandledBelow at hbelow ⊢
    rw [handled_append_of_quiet (by simp [Event.calledOn]), hbelow]
  refine hsweep.body (by simp [hpc]) rfl rfl rfl (.inr ⟨rfl, rfl⟩) rfl rfl ?_
    (fun h => nomatch h) hhandled (hsweep.recvs.append (by simp))
  intro other hother hpassed
  have hpassed' : s.i + 1 ≤ other := hpassed
  exact ⟨Finset.mem_erase.mpr ⟨by omega, hother⟩, by simp⟩

theorem Swept.cleanup {setting : Setting} {ready : Finset ℕ}
    {before during : List Event} {s : State}
    (hswept : Swept setting ready before during s) :
    Swept setting ready before
      (during ++ (cleanupCloses s.masterSet s.maxSd).map .close)
      { s with
        pc := .exited
        trace := s.trace ++
          (cleanupCloses s.masterSet s.maxSd).map .close } := by
  have hcloses : ChatServer.serviced
      ((cleanupCloses s.masterSet s.maxSd).map .close) = [] := by
    simp [ChatServer.serviced]
  constructor
  · simp [hswept.trace]
  · simp
  · rw [serviced_append, hcloses, List.append_nil, hswept.serviced]
  · rw [handled_append_of_quiet (by simp [Event.calledOn]), hswept.handled]
  · exact hswept.remaining
  · exact hswept.recvs.append (by simp)

theorem SweepOrSwept.step {setting : Setting} {ready : Finset ℕ}
    {before : List Event} {s next : State} {answer : Answer}
    (hstate : SweepOrSwept setting ready before s)
    (hinv : Invariant setting s) (hanswer : answer.afterSelect = true)
    (hbelow : answer.Below fdSetSize)
    (hstep : step setting s answer = some next) :
    SweepOrSwept setting ready before next := by
  rcases hstate with ⟨during, hsweep | hswept⟩
  · have hinside := hsweep.inside
    cases step_transition hstep with
    | selectFailed hpc => simp [hpc, Pc.inSweep] at hinside
    | selectedNone hpc _ _ => simp [hpc, Pc.inSweep] at hinside
    | selected hpc _ _ => simp [hpc, Pc.inSweep] at hinside
    | sweepEnd hpc hguard =>
        exact ⟨_, .inr (hsweep.sweepEnd hinv hpc hguard)⟩
    | sweepSkip hpc _ _ hnot =>
        exact ⟨_, .inl (hsweep.skip hpc hnot)⟩
    | sweepListening hpc _ _ hmem hlisten =>
        exact ⟨_, .inl (hsweep.service hpc hmem rfl (by simp) rfl
          (fun _ => hlisten) rfl rfl rfl rfl rfl)⟩
    | sweepConnection hpc _ _ hmem _ =>
        exact ⟨_, .inl (hsweep.service hpc hmem rfl (by simp) rfl
          (fun h => nomatch h) rfl rfl rfl rfl rfl)⟩
    | accepted hpc _ hnew =>
        exact ⟨_, .inl (hsweep.accepted hinv hpc hnew (hbelow _ rfl))⟩
    | acceptWouldBlock hpc =>
        exact ⟨_, .inl (hsweep.acceptNone hpc rfl rfl rfl rfl rfl rfl)⟩
    | acceptFailed hpc =>
        exact ⟨_, .inl (hsweep.acceptNone hpc rfl rfl rfl rfl rfl rfl)⟩
    | received hpc =>
        exact ⟨_, .inl (hsweep.recv hinv hpc rfl (by simp [State.log])
          (by simp [State.log]) rfl rfl rfl rfl rfl)⟩
    | recvStop _ hpc _ =>
        exact ⟨_, .inl (hsweep.recv hinv hpc rfl (by simp [State.log])
          (by simp [State.log]) rfl rfl rfl rfl rfl)⟩
    | sent hpc =>
        exact ⟨_, .inl (hsweep.quiet (.inl hpc) (by simp [State.log]) rfl rfl
          (.inr rfl) rfl (.inl ⟨by simp [State.log], rfl⟩) rfl rfl)⟩
    | sendFailed hpc =>
        exact ⟨_, .inl (hsweep.quiet (.inl hpc) (by simp [State.log]) rfl rfl
          (.inr rfl) rfl (.inl ⟨by simp [State.log], rfl⟩) rfl rfl)⟩
    | keep hpc _ =>
        exact ⟨_, .inl (hsweep.quiet (.inr hpc) (by simp [State.next]) rfl
          (List.append_nil _).symm (.inl rfl) rfl (.inr ⟨rfl, rfl⟩) rfl rfl)⟩
    | close hpc _ _ => exact ⟨_, .inl (hsweep.close hpc)⟩
    | closeFault hpc _ _ hlower =>
        rcases hinv.lowerMaxSd_erase hpc with ⟨lowered, hlowered, _⟩
        rw [hlower] at hlowered
        contradiction
    | cleanup hpc => simp [hpc, Pc.inSweep] at hinside
  · rcases hswept.ended with hpc | hpc | hpc
    · cases answer <;>
        simp [ChatServer.step, hpc, stepSelect, Answer.afterSelect]
          at hstep hanswer
    · cases step_transition hstep with
      | cleanup _ => exact ⟨_, .inr hswept.cleanup⟩
      | _ => simp_all
    · simp [ChatServer.step, hpc] at hstep

/-! ## The sweep ends -/

def Setting.bound (setting : Setting) : ℕ :=
  max setting.fdLimit (setting.listenfd + 1)

theorem reachable_lt_bound {setting : Setting} {s : State}
    (hreachable : Reachable (step setting) (initial setting) s) :
    ∀ fd ∈ s.masterSet, fd < setting.bound := by
  apply hreachable.invariant
  · intro fd hfd
    obtain rfl : fd = setting.listenfd := by simpa [initial] using hfd
    simp [Setting.bound]
  · intro s answer next hbound hstep fd hfd
    rcases mem_masterSet_of_step hstep hfd with hfd | ⟨_, hlimit⟩
    · exact hbound fd hfd
    · exact lt_max_of_lt_left hlimit

/-- A bound on the answers, chunks received and sent aside, until the server
is at the next `select` or has exited.  Each descriptor costs at most three
and the accept loop at most one for every descriptor number. -/
def sweepRank (bound : ℕ) (s : State) : ℕ :=
  match s.pc with
  | .sweep => (bound + 3) * (bound - s.i) + 2
  | .accepting =>
      (bound + 3) * (bound - (s.i + 1)) + 3 + (bound - s.masterSet.card)
  | .receiving | .sending => (bound + 3) * (bound - (s.i + 1)) + 4
  | .closing => (bound + 3) * (bound - (s.i + 1)) + 3
  | .cleanup => 1
  | .select | .exited | .fault | .undefined => 0

def Answer.carriesData : Answer → Bool
  | .received _ | .sent _ => true
  | _ => false

theorem sweepRank_step {setting : Setting} {s next : State} {answer : Answer}
    (hinv : Invariant setting s)
    (hbound : ∀ fd ∈ s.masterSet, fd < setting.bound)
    (hanswer : answer.afterSelect = true)
    (hstep : step setting s answer = some next) :
    sweepRank setting.bound next + (if !answer.carriesData then 1 else 0) ≤
      sweepRank setting.bound s := by
  have hone (i : ℕ) (hi : i < setting.bound) :
      (setting.bound + 3) * (setting.bound - i) =
        (setting.bound + 3) * (setting.bound - (i + 1)) +
          (setting.bound + 3) := by
    have hsub : setting.bound - i = setting.bound - (i + 1) + 1 := by omega
    rw [hsub, Nat.mul_succ]
  have hmax : s.maxSd < setting.bound := hbound s.maxSd hinv.greatest.1
  cases step_transition hstep with
  | selectFailed _ => simp [Answer.afterSelect] at hanswer
  | selectedNone _ _ _ => simp [Answer.afterSelect] at hanswer
  | selected _ _ _ => simp [Answer.afterSelect] at hanswer
  | sweepEnd hpc _ =>
      unfold State.loop
      split_ifs <;> simp [sweepRank, hpc]
  | sweepSkip hpc hi _ _ =>
      have hstep := hone s.i (by omega)
      simp [sweepRank, hpc, State.next, Answer.carriesData]
      omega
  | sweepListening hpc hi _ _ _ =>
      have hstep := hone s.i (by omega)
      simp [sweepRank, hpc, State.service, State.log, Answer.carriesData]
      omega
  | sweepConnection hpc hi _ _ _ =>
      have hstep := hone s.i (by omega)
      simp [sweepRank, hpc, State.service, State.log, Answer.carriesData]
      omega
  | @accepted fd hpc hlimit hnew =>
      rw [← hinv.tracked (by simp [hpc])] at hnew
      have hrange : insert fd s.masterSet ⊆ Finset.range setting.bound := by
        intro other hother
        rcases Finset.mem_insert.mp hother with rfl | hother
        · exact Finset.mem_range.mpr (lt_max_of_lt_left hlimit)
        · exact Finset.mem_range.mpr (hbound other hother)
      have hcard := Finset.card_le_card hrange
      rw [Finset.card_insert_of_notMem hnew, Finset.card_range] at hcard
      by_cases hfits : fd < fdSetSize
      · simp [sweepRank, hpc, hfits, State.addConnection, State.log,
          Answer.carriesData, Finset.card_insert_of_notMem hnew]
        omega
      · simp [sweepRank, hpc, hfits, State.addConnection, State.log,
          Answer.carriesData]
        omega
  | acceptWouldBlock hpc =>
      simp [sweepRank, hpc, State.next, State.log, Answer.carriesData]
  | acceptFailed hpc =>
      simp [sweepRank, hpc, State.next, State.log, Answer.carriesData]
  | received hpc => simp [sweepRank, hpc, State.log, Answer.carriesData]
  | recvStop _ hpc hanswer =>
      rcases hanswer with rfl | rfl | rfl <;>
        simp [sweepRank, hpc, State.log, Answer.carriesData]
  | sent hpc => simp [sweepRank, hpc, State.log, Answer.carriesData]
  | sendFailed hpc => simp [sweepRank, hpc, State.log, Answer.carriesData]
  | keep hpc _ => simp [sweepRank, hpc, State.next, Answer.carriesData]
  | close hpc _ _ =>
      simp [sweepRank, hpc, State.next, State.closeConnection, State.log,
        Answer.carriesData]
  | closeFault hpc _ _ _ => simp [sweepRank, hpc, Answer.carriesData]
  | cleanup hpc => simp [sweepRank, hpc, Answer.carriesData]

theorem exists_step_of_inSweep (setting : Setting) {s : State}
    (hpc : s.pc.inSweep = true) :
    ∃ answer next, answer.afterSelect = true ∧ answer.carriesData = false ∧
      step setting s answer = some next := by
  cases hcases : s.pc with
  | sweep =>
      refine ⟨.tau, ?_⟩
      simp only [step, hcases, stepSweep]
      split_ifs <;> exact ⟨_, rfl, rfl, rfl⟩
  | accepting =>
      refine ⟨.acceptWouldBlock, ?_⟩
      simp only [step, hcases, stepAccepting]
      exact ⟨_, rfl, rfl, rfl⟩
  | receiving =>
      refine ⟨.recvWouldBlock, ?_⟩
      simp only [step, hcases, stepReceiving]
      exact ⟨_, rfl, rfl, rfl⟩
  | sending =>
      refine ⟨.sendFailed, ?_⟩
      simp only [step, hcases, stepSending]
      exact ⟨_, rfl, rfl, rfl⟩
  | closing =>
      refine ⟨.tau, ?_⟩
      simp only [step, hcases, stepClosing]
      split_ifs
      · cases lowerMaxSd (s.masterSet.erase s.i) s.maxSd with
        | some maxSd => exact ⟨_, rfl, rfl, rfl⟩
        | none => exact ⟨_, rfl, rfl, rfl⟩
      · exact ⟨_, rfl, rfl, rfl⟩
      · exact ⟨_, rfl, rfl, rfl⟩
  | _ => simp [hcases, Pc.inSweep] at hpc

/-- The sweep after a successful `select`, from any reachable state and under
any answers, as long as `accept` returns descriptors that fit into the sets.
What has been announced, and what `accept` and `recv` have been called on, is an
initial part of the working set in increasing order; every `recv` is guarded; a
sweep that has ended has serviced the whole set and `desc_ready` is zero; until
then the server can go on without further data, and it does end but for the data
of the peers. -/
theorem selected_services_each_once
    {setting : Setting} {s next final : State} {ready : Finset ℕ}
    {answers : List Answer}
    (hreachable : Reachable (step setting) (initial setting) s)
    (hselect : step setting s (.selected ready) = some next)
    (hcard : ready.card ≠ 0)
    (hanswers : ∀ answer ∈ answers,
      answer.afterSelect = true ∧ answer.Below fdSetSize)
    (hrun : run (step setting) next answers = some final) :
    (∃ during,
      final.trace = s.trace ++ during ∧
      serviced during <+: ready.sort (· ≤ ·) ∧
      handled setting.listenfd during <+: ready.sort (· ≤ ·) ∧
      RecvsGuarded setting.listenfd ready s.trace during ∧
      (final.pc.inSweep = false →
        serviced during = ready.sort (· ≤ ·) ∧
        handled setting.listenfd during = ready.sort (· ≤ ·) ∧
        final.descReady = 0)) ∧
    (final.pc.inSweep = true →
      ∃ answer next, answer.afterSelect = true ∧
        answer.carriesData = false ∧
        step setting final answer = some next) ∧
    answers.countP (!·.carriesData) ≤
      (setting.bound + 3) * setting.bound + 2 := by
  have hstart : Sweep setting ready s.trace [] next ∧
      sweepRank setting.bound next = (setting.bound + 3) * setting.bound + 2 := by
    cases step_transition hselect with
    | selectedNone _ _ hzero => exact absurd hzero hcard
    | selected _ hready _ => exact ⟨start_sweep hready, by simp [sweepRank]⟩
    | recvStop _ _ hanswer => simp at hanswer
  have hreachable' : Reachable (step setting) (initial setting) next :=
    hreachable.extend hselect
  let P (state : State) : Prop :=
    Reachable (step setting) (initial setting) state ∧
      SweepOrSwept setting ready s.trace state
  have hP : P next := ⟨hreachable', [], .inl hstart.1⟩
  have hstep : ∀ state answer after,
      answer.afterSelect = true ∧ answer.Below fdSetSize → P state →
      step setting state answer = some after → P after := by
    intro state answer after hanswer hstate hafter
    exact ⟨hstate.1.extend hafter, hstate.2.step (reachable_invariant hstate.1)
      hanswer.1 hanswer.2 hafter⟩
  have hfinal : P final := run_invariant_of_admitted hstep hanswers hP hrun
  constructor
  · rcases hfinal.2 with ⟨during, hsweep | hswept⟩
    · refine ⟨during, hsweep.trace, ?_, ?_, hsweep.recvs, ?_⟩
      · rw [hsweep.serviced]
        exact filter_range_prefix_sort ready final.visited
      · rcases hsweep.handled with ⟨hbelow, _⟩ | ⟨hbelow, _⟩
        · exact hbelow ▸ filter_range_prefix_sort ready final.i
        · exact hbelow ▸ filter_range_prefix_sort ready (final.i + 1)
      · intro hpc
        simp [hsweep.inside] at hpc
    · refine ⟨during, hswept.trace, ?_, ?_, hswept.recvs, ?_⟩
      · rw [hswept.serviced]
      · rw [hswept.handled]
      · exact fun _ => ⟨hswept.serviced, hswept.handled, hswept.remaining⟩
  constructor
  · exact exists_step_of_inSweep setting
  · have hcount := run_countP_add_rank_le hstep
      (fun state answer after hanswer hstate hafter =>
        sweepRank_step (reachable_invariant hstate.1)
          (reachable_lt_bound hstate.1) hanswer.1 hafter)
      hanswers hP hrun
    omega

/-- Descriptor 1 is closed in the sweep over `{1}` and `max_sd` falls. -/
theorem selected_services_each_once_closed :
    ∃ s next final during,
      run (step ⟨0, fdSetSize⟩) (initial ⟨0, fdSetSize⟩)
        [.selected {0}, .tau, .accepted 1, .acceptWouldBlock, .tau] =
          some s ∧
      step ⟨0, fdSetSize⟩ s (.selected {1}) = some next ∧
      run (step ⟨0, fdSetSize⟩) next [.tau, .tau, .recvEof, .tau, .tau] =
        some final ∧
      final.trace = s.trace ++ during ∧
      serviced during = ({1} : Finset ℕ).sort (· ≤ ·) ∧
      handled 0 during = ({1} : Finset ℕ).sort (· ≤ ·) ∧
      final.descReady = 0 ∧ final.maxSd = 0 := by
  have hrun : ∃ s next final,
      run (step ⟨0, fdSetSize⟩) (initial ⟨0, fdSetSize⟩)
        [.selected {0}, .tau, .accepted 1, .acceptWouldBlock, .tau] =
          some s ∧
      step ⟨0, fdSetSize⟩ s (.selected {1}) = some next ∧
      run (step ⟨0, fdSetSize⟩) next [.tau, .tau, .recvEof, .tau, .tau] =
        some final ∧
      final.pc.inSweep = false ∧ final.maxSd = 0 :=
    ⟨_, _, _, rfl, rfl, rfl, rfl, rfl⟩
  rcases hrun with ⟨s, next, final, hs, hselect, hfinal, hpc, hmax⟩
  have hanswers : ∀ answer ∈
      [Answer.tau, .tau, .recvEof, .tau, .tau],
      answer.afterSelect = true ∧ answer.Below fdSetSize := by
    simp [Answer.afterSelect, Answer.Below]
  have hsweep := selected_services_each_once ⟨_, hs⟩ hselect (by simp)
    hanswers hfinal
  rcases hsweep.1 with ⟨during, htrace, _, _, _, hended⟩
  exact ⟨s, next, final, during, hs, hselect, hfinal, htrace, (hended hpc).1,
    (hended hpc).2.1, (hended hpc).2.2, hmax⟩

/-- With a descriptor outside of the set the sweep over `{0, 1}` does not come
to its end. -/
theorem not_selected_services_each_once :
    ¬∀ (setting : Setting) (s next final : State) (ready : Finset ℕ)
      (answers : List Answer),
      Reachable (step setting) (initial setting) s →
      step setting s (.selected ready) = some next → ready.card ≠ 0 →
      (∀ answer ∈ answers, answer.afterSelect = true) →
      run (step setting) next answers = some final →
      final.pc.inSweep = false →
        ∃ during, final.trace = s.trace ++ during ∧
          handled setting.listenfd during = ready.sort (· ≤ ·) := by
  intro hall
  have hrun : ∃ s next final,
      run (step ⟨0, 4096⟩) (initial ⟨0, 4096⟩)
        [.selected {0}, .tau, .accepted 1, .acceptWouldBlock, .tau] =
          some s ∧
      step ⟨0, 4096⟩ s (.selected {0, 1}) = some next ∧
      run (step ⟨0, 4096⟩) next [.tau, .accepted 1024] = some final ∧
      final.pc.inSweep = false ∧
      final.trace = s.trace ++ [.readable 0, .accept 1024] :=
    ⟨_, _, _, rfl, rfl, rfl, rfl, rfl⟩
  rcases hrun with ⟨s, next, final, hs, hselect, hfinal, hpc, htrace⟩
  rcases hall _ s next final {0, 1} _ ⟨_, hs⟩ hselect (by decide) (by decide)
    hfinal hpc with ⟨during, hduring, hhandled⟩
  obtain rfl := List.append_cancel_left (htrace.symm.trans hduring)
  have hlength := congrArg List.length hhandled
  rw [Finset.length_sort] at hlength
  exact absurd hlength (by decide)

end Miscellaneous.ChatServer
