import Miscellaneous.ChatServer
import Mathlib.Tactic

/-!
# The descriptor bookkeeping of the chat server

Every step is one of a few transitions.  In every reachable state before the
final clean-up the master set is exactly the set of open descriptors, it
contains the listening one, and `max_sd` is its maximum.  So lowering
`max_sd` stops inside the set, and the clean-up closes what is still open.
-/

namespace Miscellaneous.ChatServer

open GuardedRuns

/-- What one step can do, with the guards it passed. -/
inductive Transition (setting : Setting) (s : State) : Answer → State → Prop where
  | selectFailed (hpc : s.pc = .select) :
      Transition setting s .selectFailed { s with pc := .cleanup }
  | selectedNone {ready : Finset ℕ} (hpc : s.pc = .select)
      (hready : ready ⊆ s.masterSet) (hcard : ready.card = 0) :
      Transition setting s (.selected ready)
        { s with workingSet := ready }.loop
  | selected {ready : Finset ℕ} (hpc : s.pc = .select)
      (hready : ready ⊆ s.masterSet) (hcard : ready.card ≠ 0) :
      Transition setting s (.selected ready)
        { s with
          pc := .sweep
          workingSet := ready
          descReady := ready.card
          i := 0 }
  | sweepEnd (hpc : s.pc = .sweep)
      (hguard : ¬(s.i ≤ s.maxSd ∧ s.descReady > 0)) :
      Transition setting s .tau s.loop
  | sweepSkip (hpc : s.pc = .sweep) (hi : s.i ≤ s.maxSd)
      (hready : s.descReady > 0) (hnot : s.i ∉ s.workingSet) :
      Transition setting s .tau s.next
  | sweepListening (hpc : s.pc = .sweep) (hi : s.i ≤ s.maxSd)
      (hready : s.descReady > 0) (hmem : s.i ∈ s.workingSet)
      (hlisten : s.i = setting.listenfd) :
      Transition setting s .tau
        { s.service with pc := .accepting }
  | sweepConnection (hpc : s.pc = .sweep) (hi : s.i ≤ s.maxSd)
      (hready : s.descReady > 0) (hmem : s.i ∈ s.workingSet)
      (hlisten : s.i ≠ setting.listenfd) :
      Transition setting s .tau
        { s.service with pc := .receiving, closeConn := false }
  | accepted {fd : ℕ} (hpc : s.pc = .accepting) (hlimit : fd < setting.fdLimit)
      (hnew : fd ∉ openDescriptors setting.listenfd s.trace) :
      Transition setting s (.accepted fd)
        (s.addConnection fd)
  | acceptWouldBlock (hpc : s.pc = .accepting) :
      Transition setting s .acceptWouldBlock (s.log .acceptNone).next
  | acceptFailed (hpc : s.pc = .accepting) :
      Transition setting s .acceptFailed
        ({ s with endServer := true }.log .acceptNone).next
  | received {len : ℕ} (hpc : s.pc = .receiving) :
      Transition setting s (.received len)
        ({ s with pc := .sending }.log (.recv s.i))
  | recvStop {answer : Answer} (closeConn : Bool) (hpc : s.pc = .receiving)
      (hanswer : answer = .recvEof ∨ answer = .recvWouldBlock ∨
        answer = .recvFailed) :
      Transition setting s answer
        ({ s with pc := .closing, closeConn := closeConn }.log (.recv s.i))
  | sent {count : ℕ} (hpc : s.pc = .sending) :
      Transition setting s (.sent count)
        ({ s with pc := .receiving }.log (.send s.i))
  | sendFailed (hpc : s.pc = .sending) :
      Transition setting s .sendFailed
        ({ s with pc := .closing, closeConn := true }.log (.send s.i))
  | keep (hpc : s.pc = .closing) (hkeep : s.closeConn = false) :
      Transition setting s .tau s.next
  | close {maxSd : ℕ} (hpc : s.pc = .closing) (hclose : s.closeConn = true)
      (hmax : s.i ≠ s.maxSd ∧ maxSd = s.maxSd ∨
        s.i = s.maxSd ∧
          lowerMaxSd (s.masterSet.erase s.i) s.maxSd = some maxSd) :
      Transition setting s .tau
        { s.closeConnection with maxSd := maxSd }.next
  | closeFault (hpc : s.pc = .closing) (hclose : s.closeConn = true)
      (hmax : s.i = s.maxSd)
      (hlower : lowerMaxSd (s.masterSet.erase s.i) s.maxSd = none) :
      Transition setting s .tau
        { s.closeConnection with pc := .fault }
  | cleanup (hpc : s.pc = .cleanup) :
      Transition setting s .tau
        { s with
          pc := .exited
          trace := s.trace ++
            (cleanupCloses s.masterSet s.maxSd).map .close }

theorem step_transition {setting : Setting} {s next : State} {answer : Answer}
    (hstep : step setting s answer = some next) :
    Transition setting s answer next := by
  unfold step at hstep
  cases hpc : s.pc with
  | select =>
      rw [hpc] at hstep
      cases answer with
      | selectFailed =>
          cases hstep
          exact .selectFailed hpc
      | selected ready =>
          simp only [stepSelect] at hstep
          split_ifs at hstep with hready hcard
          · cases hstep
            exact .selectedNone hpc hready hcard
          · cases hstep
            exact .selected hpc hready hcard
      | _ => simp [stepSelect] at hstep
  | sweep =>
      rw [hpc] at hstep
      cases answer with
      | tau =>
          simp only [stepSweep] at hstep
          split_ifs at hstep with hguard hmem hlisten
          · cases hstep
            exact .sweepListening hpc hguard.1 hguard.2 hmem hlisten
          · cases hstep
            exact .sweepConnection hpc hguard.1 hguard.2 hmem hlisten
          · cases hstep
            exact .sweepSkip hpc hguard.1 hguard.2 hmem
          · cases hstep
            exact .sweepEnd hpc hguard
      | _ => simp [stepSweep] at hstep
  | accepting =>
      rw [hpc] at hstep
      cases answer with
      | accepted fd =>
          simp only [stepAccepting] at hstep
          split_ifs at hstep with hnew
          cases hstep
          exact .accepted hpc hnew.1 hnew.2
      | acceptWouldBlock =>
          cases hstep
          exact .acceptWouldBlock hpc
      | acceptFailed =>
          cases hstep
          exact .acceptFailed hpc
      | _ => simp [stepAccepting] at hstep
  | receiving =>
      rw [hpc] at hstep
      cases answer with
      | received len =>
          simp only [stepReceiving] at hstep
          split_ifs at hstep
          cases hstep
          exact .received hpc
      | recvEof =>
          cases hstep
          exact .recvStop true hpc (by simp)
      | recvWouldBlock =>
          cases hstep
          exact .recvStop s.closeConn hpc (by simp)
      | recvFailed =>
          cases hstep
          exact .recvStop true hpc (by simp)
      | _ => simp [stepReceiving] at hstep
  | sending =>
      rw [hpc] at hstep
      cases answer with
      | sent count =>
          simp only [stepSending] at hstep
          split_ifs at hstep
          cases hstep
          exact .sent hpc
      | sendFailed =>
          cases hstep
          exact .sendFailed hpc
      | _ => simp [stepSending] at hstep
  | closing =>
      rw [hpc] at hstep
      cases answer with
      | tau =>
          simp only [stepClosing] at hstep
          split_ifs at hstep with hclose hmax
          · cases hlower : lowerMaxSd (s.masterSet.erase s.i) s.maxSd with
            | some maxSd =>
                rw [hlower] at hstep
                cases hstep
                exact .close hpc hclose (.inr ⟨hmax, hlower⟩)
            | none =>
                rw [hlower] at hstep
                cases hstep
                exact .closeFault hpc hclose hmax hlower
          · cases hstep
            exact .close hpc hclose (.inl ⟨hmax, rfl⟩)
          · cases hstep
            exact .keep hpc (by simpa using hclose)
      | _ => simp [stepClosing] at hstep
  | cleanup =>
      rw [hpc] at hstep
      cases answer with
      | tau =>
          cases hstep
          exact .cleanup hpc
      | _ => simp [stepCleanup] at hstep
  | exited => simp [hpc] at hstep
  | fault => simp [hpc] at hstep
  | undefined => simp [hpc] at hstep

/-- A step adds no descriptor to the master set but the accepted one. -/
theorem mem_masterSet_of_step {setting : Setting} {s next : State}
    {answer : Answer} (hstep : step setting s answer = some next) {fd : ℕ}
    (hmem : fd ∈ next.masterSet) :
    fd ∈ s.masterSet ∨ answer = .accepted fd ∧ fd < setting.fdLimit := by
  cases step_transition hstep with
  | selectedNone _ _ _ =>
      rw [State.loop_masterSet] at hmem
      exact Or.inl hmem
  | sweepEnd _ _ =>
      rw [State.loop_masterSet] at hmem
      exact Or.inl hmem
  | accepted _ hlimit _ =>
      rcases Finset.mem_insert.mp hmem with rfl | hmem
      · exact Or.inr ⟨rfl, hlimit⟩
      · exact Or.inl hmem
  | close _ _ _ => exact Or.inl (Finset.mem_of_mem_erase hmem)
  | closeFault _ _ _ _ => exact Or.inl (Finset.mem_of_mem_erase hmem)
  | _ => exact Or.inl hmem

/-! ## Open descriptors and the maximum -/

@[simp] theorem openDescriptors_accept
    (listenfd : ℕ) (trace : List Event) (fd : ℕ) :
    openDescriptors listenfd (trace ++ [.accept fd]) =
      insert fd (openDescriptors listenfd trace) := by
  simp [openDescriptors]

@[simp] theorem openDescriptors_close
    (listenfd : ℕ) (trace : List Event) (fd : ℕ) :
    openDescriptors listenfd (trace ++ [.close fd]) =
      (openDescriptors listenfd trace).erase fd := by
  simp [openDescriptors]

@[simp] theorem openDescriptors_readable
    (listenfd : ℕ) (trace : List Event) (fd : ℕ) :
    openDescriptors listenfd (trace ++ [.readable fd]) =
      openDescriptors listenfd trace := by
  simp [openDescriptors]

@[simp] theorem openDescriptors_acceptNone
    (listenfd : ℕ) (trace : List Event) :
    openDescriptors listenfd (trace ++ [.acceptNone]) =
      openDescriptors listenfd trace := by
  simp [openDescriptors]

@[simp] theorem openDescriptors_recv
    (listenfd : ℕ) (trace : List Event) (fd : ℕ) :
    openDescriptors listenfd (trace ++ [.recv fd]) =
      openDescriptors listenfd trace := by
  simp [openDescriptors]

@[simp] theorem openDescriptors_send
    (listenfd : ℕ) (trace : List Event) (fd : ℕ) :
    openDescriptors listenfd (trace ++ [.send fd]) =
      openDescriptors listenfd trace := by
  simp [openDescriptors]

theorem openDescriptors_closes
    (listenfd : ℕ) (trace : List Event) (fds : List ℕ) :
    openDescriptors listenfd (trace ++ fds.map .close) =
      openDescriptors listenfd trace \ fds.toFinset := by
  induction fds generalizing trace with
  | nil => simp
  | cons fd fds ih =>
      rw [List.map_cons, ← List.singleton_append, ← List.append_assoc, ih,
        openDescriptors_close, List.toFinset_cons]
      ext x
      simp only [Finset.mem_sdiff, Finset.mem_erase, Finset.mem_insert]
      tauto

theorem lowerMaxSd_spec {fds : Finset ℕ} {maxSd : ℕ}
    (hsome : ∃ fd ∈ fds, fd ≤ maxSd) (hbound : ∀ fd ∈ fds, fd ≤ maxSd) :
    ∃ lowered, lowerMaxSd fds maxSd = some lowered ∧
      IsGreatest (fds : Set ℕ) lowered := by
  induction maxSd with
  | zero =>
      rcases hsome with ⟨fd, hfd, hle⟩
      obtain rfl : fd = 0 := by omega
      exact ⟨0, by simp [lowerMaxSd, hfd], hfd, fun other => hbound other⟩
  | succ maxSd ih =>
      by_cases hmem : maxSd + 1 ∈ fds
      · exact ⟨maxSd + 1, by simp [lowerMaxSd, hmem], hmem,
          fun other => hbound other⟩
      · have hbelow : ∀ fd ∈ fds, fd ≤ maxSd := by
          intro fd hfd
          have hle := hbound fd hfd
          have hne : fd ≠ maxSd + 1 := fun h => hmem (h ▸ hfd)
          omega
        rcases hsome with ⟨fd, hfd, _⟩
        rcases ih ⟨fd, hfd, hbelow fd hfd⟩ hbelow with
          ⟨lowered, hlowered, hgreatest⟩
        exact ⟨lowered, by simp [lowerMaxSd, hmem, hlowered], hgreatest⟩

theorem isGreatest_insert_if {fds : Finset ℕ} {maxSd fd : ℕ}
    (hgreatest : IsGreatest (fds : Set ℕ) maxSd) :
    IsGreatest ((insert fd fds : Finset ℕ) : Set ℕ)
      (if fd > maxSd then fd else maxSd) := by
  have hmax : (if fd > maxSd then fd else maxSd) = max fd maxSd := by
    split_ifs <;> omega
  rw [hmax, Finset.coe_insert]
  exact hgreatest.insert fd

theorem mem_cleanupCloses {masterSet : Finset ℕ} {maxSd fd : ℕ}
    (hgreatest : IsGreatest (masterSet : Set ℕ) maxSd) :
    fd ∈ cleanupCloses masterSet maxSd ↔ fd ∈ masterSet := by
  simp only [cleanupCloses, List.mem_filter, List.mem_range,
    decide_eq_true_eq]
  constructor
  · exact fun h => h.2
  · intro hfd
    have hle : fd ≤ maxSd := hgreatest.2 hfd
    exact ⟨by omega, hfd⟩

theorem nodup_cleanupCloses (masterSet : Finset ℕ) (maxSd : ℕ) :
    (cleanupCloses masterSet maxSd).Nodup :=
  List.nodup_range.filter _

/-! ## The invariant -/

/-- The clean-up closes every open descriptor once, and no other. -/
structure CleansUp (setting : Setting) (s next : State) : Prop where
  exited : next.pc = .exited
  closes : ∃ fds : List ℕ,
    next.trace = s.trace ++ fds.map .close ∧ fds.Nodup ∧
      ∀ fd, fd ∈ fds ↔ fd ∈ openDescriptors setting.listenfd s.trace
  nothingOpen : openDescriptors setting.listenfd next.trace = ∅

structure Invariant (setting : Setting) (s : State) : Prop where
  listening : setting.listenfd ∈ s.masterSet
  greatest : IsGreatest (s.masterSet : Set ℕ) s.maxSd
  tracked : s.pc ≠ .exited →
    s.masterSet = openDescriptors setting.listenfd s.trace
  connection : s.pc = .receiving ∨ s.pc = .sending ∨ s.pc = .closing →
    s.i ≠ setting.listenfd
  noFault : s.pc ≠ .fault
  cleaned : s.pc = .exited →
    ∃ before,
      s.masterSet = openDescriptors setting.listenfd before ∧
      s.trace = before ++ (cleanupCloses s.masterSet s.maxSd).map .close

theorem initial_pc (setting : Setting) :
    (initial setting).pc = .select ∨ (initial setting).pc = .undefined := by
  unfold initial
  split_ifs
  · exact Or.inl rfl
  · exact Or.inr rfl

theorem State.addConnection_pc (s : State) (fd : ℕ) :
    (s.addConnection fd).pc = s.pc ∨ (s.addConnection fd).pc = .undefined := by
  by_cases hfd : fd < fdSetSize
  · exact Or.inl (if_pos hfd)
  · exact Or.inr (if_neg hfd)

theorem initial_invariant (setting : Setting) :
    Invariant setting (initial setting) where
  listening := by simp [initial]
  greatest := by simp [initial]
  tracked := fun _ => rfl
  connection := by
    rcases initial_pc setting with hpc | hpc <;> simp [hpc]
  noFault := by
    rcases initial_pc setting with hpc | hpc <;> simp [hpc]
  cleaned := by
    rcases initial_pc setting with hpc | hpc <;> simp [hpc]

theorem Invariant.lowerMaxSd_erase {setting : Setting} {s : State}
    (hinv : Invariant setting s) (hpc : s.pc = .closing) :
    ∃ lowered,
      lowerMaxSd (s.masterSet.erase s.i) s.maxSd = some lowered ∧
        IsGreatest ((s.masterSet.erase s.i : Finset ℕ) : Set ℕ) lowered := by
  have hlisten : setting.listenfd ∈ s.masterSet.erase s.i :=
    Finset.mem_erase.mpr
      ⟨(hinv.connection (by simp [hpc])).symm, hinv.listening⟩
  have hbound : ∀ fd ∈ s.masterSet.erase s.i, fd ≤ s.maxSd :=
    fun fd hfd => hinv.greatest.2 (Finset.mem_of_mem_erase hfd)
  exact lowerMaxSd_spec ⟨_, hlisten, hbound _ hlisten⟩ hbound

/-- A step that opens and closes nothing keeps the bookkeeping. -/
theorem Invariant.of_same {setting : Setting} {s next : State}
    (hinv : Invariant setting s) (hexited : s.pc ≠ .exited)
    (hmaster : next.masterSet = s.masterSet) (hmax : next.maxSd = s.maxSd)
    (hopen : openDescriptors setting.listenfd next.trace =
      openDescriptors setting.listenfd s.trace)
    (hconnection :
      next.pc = .receiving ∨ next.pc = .sending ∨ next.pc = .closing →
        next.i ≠ setting.listenfd)
    (hfault : next.pc ≠ .fault) (hexited' : next.pc ≠ .exited) :
    Invariant setting next where
  listening := hmaster ▸ hinv.listening
  greatest := hmaster ▸ hmax ▸ hinv.greatest
  tracked := fun _ => by rw [hmaster, hopen, hinv.tracked hexited]
  connection := hconnection
  noFault := hfault
  cleaned := fun h => absurd h hexited'

theorem Invariant.loop {setting : Setting} {s : State}
    (hinv : Invariant setting s) (hpc : s.pc ≠ .exited) :
    Invariant setting s.loop := by
  unfold State.loop
  split_ifs
  · exact hinv.of_same hpc rfl rfl rfl (by simp) (by simp) (by simp)
  · exact hinv.of_same hpc rfl rfl rfl (by simp) (by simp) (by simp)

theorem Invariant.next {setting : Setting} {s : State}
    (hinv : Invariant setting s) (hpc : s.pc ≠ .exited) :
    Invariant setting s.next :=
  hinv.of_same hpc rfl rfl rfl (by simp [State.next]) (by simp [State.next])
    (by simp [State.next])

theorem Invariant.addConnection {setting : Setting} {s : State} {fd : ℕ}
    (hinv : Invariant setting s) (hpc : s.pc = .accepting) :
    Invariant setting (s.addConnection fd) where
  listening := Finset.mem_insert_of_mem hinv.listening
  greatest := isGreatest_insert_if hinv.greatest
  tracked := fun _ => by
    simp [State.addConnection, State.log, hinv.tracked (by simp [hpc])]
  connection := by
    rcases s.addConnection_pc fd with hpc' | hpc' <;> simp [hpc', hpc]
  noFault := by
    rcases s.addConnection_pc fd with hpc' | hpc' <;> simp [hpc', hpc]
  cleaned := by
    rcases s.addConnection_pc fd with hpc' | hpc' <;> simp [hpc', hpc]

theorem Invariant.closeConnection {setting : Setting} {s : State}
    (hinv : Invariant setting s) (hpc : s.pc = .closing) {maxSd : ℕ}
    (hmax : s.i ≠ s.maxSd ∧ maxSd = s.maxSd ∨
      s.i = s.maxSd ∧
        lowerMaxSd (s.masterSet.erase s.i) s.maxSd = some maxSd) :
    Invariant setting { s.closeConnection with maxSd := maxSd }.next where
  listening := Finset.mem_erase.mpr
    ⟨(hinv.connection (by simp [hpc])).symm, hinv.listening⟩
  greatest := by
    rcases hmax with ⟨hne, rfl⟩ | ⟨_, hlower⟩
    · have hmem : s.maxSd ∈ s.masterSet.erase s.i :=
        Finset.mem_erase.mpr ⟨hne.symm, hinv.greatest.1⟩
      exact ⟨hmem, fun fd hfd =>
        hinv.greatest.2 (Finset.mem_of_mem_erase hfd)⟩
    · rcases hinv.lowerMaxSd_erase hpc with ⟨lowered, hlowered, hgreatest⟩
      rw [hlower, Option.some.injEq] at hlowered
      exact hlowered ▸ hgreatest
  tracked := fun _ => by
    simp [State.next, State.closeConnection, State.log,
      hinv.tracked (by simp [hpc])]
  connection := by simp [State.next]
  noFault := by simp [State.next]
  cleaned := by simp [State.next]

theorem Invariant.cleanup {setting : Setting} {s : State}
    (hinv : Invariant setting s) (hpc : s.pc = .cleanup) :
    Invariant setting { s with
      pc := .exited
      trace := s.trace ++ (cleanupCloses s.masterSet s.maxSd).map .close } where
  listening := hinv.listening
  greatest := hinv.greatest
  tracked := by simp
  connection := by simp
  noFault := by simp
  cleaned := fun _ => ⟨s.trace, hinv.tracked (by simp [hpc]), rfl⟩

theorem Invariant.step {setting : Setting} {s next : State} {answer : Answer}
    (hinv : Invariant setting s)
    (hstep : step setting s answer = some next) :
    Invariant setting next := by
  cases step_transition hstep with
  | selectFailed hpc =>
      exact hinv.of_same (by simp [hpc]) rfl rfl rfl (by simp) (by simp)
        (by simp)
  | @selectedNone ready hpc _ _ =>
      have hwait : Invariant setting { s with workingSet := ready } :=
        hinv.of_same (by simp [hpc]) rfl rfl rfl (by simp [hpc])
          (by simp [hpc]) (by simp [hpc])
      exact hwait.loop (by simp [hpc])
  | selected hpc _ _ =>
      exact hinv.of_same (by simp [hpc]) rfl rfl rfl (by simp) (by simp)
        (by simp)
  | sweepEnd hpc _ => exact hinv.loop (by simp [hpc])
  | sweepSkip hpc _ _ _ => exact hinv.next (by simp [hpc])
  | sweepListening hpc _ _ _ _ =>
      exact hinv.of_same (by simp [hpc]) rfl rfl
        (openDescriptors_readable _ _ _) (by simp) (by simp) (by simp)
  | sweepConnection hpc _ _ _ hlisten =>
      exact hinv.of_same (by simp [hpc]) rfl rfl
        (openDescriptors_readable _ _ _) (fun _ => hlisten) (by simp)
        (by simp)
  | accepted hpc _ _ => exact hinv.addConnection hpc
  | acceptWouldBlock hpc =>
      exact hinv.of_same (by simp [hpc]) rfl rfl
        (openDescriptors_acceptNone _ _) (by simp [State.next])
        (by simp [State.next]) (by simp [State.next])
  | acceptFailed hpc =>
      exact hinv.of_same (by simp [hpc]) rfl rfl
        (openDescriptors_acceptNone _ _) (by simp [State.next])
        (by simp [State.next]) (by simp [State.next])
  | received hpc =>
      exact hinv.of_same (by simp [hpc]) rfl rfl
        (openDescriptors_recv _ _ _)
        (fun _ => hinv.connection (by simp [hpc])) (by simp [State.log])
        (by simp [State.log])
  | recvStop _ hpc _ =>
      exact hinv.of_same (by simp [hpc]) rfl rfl
        (openDescriptors_recv _ _ _)
        (fun _ => hinv.connection (by simp [hpc])) (by simp [State.log])
        (by simp [State.log])
  | sent hpc =>
      exact hinv.of_same (by simp [hpc]) rfl rfl
        (openDescriptors_send _ _ _)
        (fun _ => hinv.connection (by simp [hpc])) (by simp [State.log])
        (by simp [State.log])
  | sendFailed hpc =>
      exact hinv.of_same (by simp [hpc]) rfl rfl
        (openDescriptors_send _ _ _)
        (fun _ => hinv.connection (by simp [hpc])) (by simp [State.log])
        (by simp [State.log])
  | keep hpc _ => exact hinv.next (by simp [hpc])
  | close hpc _ hmax => exact hinv.closeConnection hpc hmax
  | closeFault hpc _ _ hlower =>
      rcases hinv.lowerMaxSd_erase hpc with ⟨lowered, hlowered, _⟩
      rw [hlower] at hlowered
      contradiction
  | cleanup hpc => exact hinv.cleanup hpc

theorem reachable_invariant {setting : Setting} {s : State}
    (hreachable : Reachable (step setting) (initial setting) s) :
    Invariant setting s :=
  hreachable.invariant (initial_invariant setting)
    fun _ _ _ hinv hstep => hinv.step hstep

/-! ## The exits -/

theorem Invariant.cleansUp {setting : Setting} {s next : State}
    (hinv : Invariant setting s) (hpc : s.pc = .cleanup)
    (hstep : ChatServer.step setting s .tau = some next) :
    CleansUp setting s next := by
  have hmem : ∀ fd, fd ∈ cleanupCloses s.masterSet s.maxSd ↔
      fd ∈ openDescriptors setting.listenfd s.trace := by
    intro fd
    rw [mem_cleanupCloses hinv.greatest, hinv.tracked (by simp [hpc])]
  simp only [ChatServer.step, hpc, stepCleanup, Option.some.injEq] at hstep
  subst hstep
  refine ⟨rfl, ⟨_, rfl, nodup_cleanupCloses _ _, hmem⟩, ?_⟩
  rw [openDescriptors_closes]
  ext fd
  simp [hmem]

theorem endServer_of_step {setting : Setting} {s next : State}
    {answer : Answer} (hstep : step setting s answer = some next)
    (hend : s.endServer = true) : next.endServer = true := by
  cases step_transition hstep with
  | selectedNone _ _ _ => rwa [State.loop_endServer]
  | sweepEnd _ _ => rwa [State.loop_endServer]
  | acceptFailed _ => rfl
  | _ => exact hend

theorem endServer_of_select {setting : Setting} {s next : State}
    {answer : Answer} (hstep : step setting s answer = some next)
    (hselect : next.pc = .select) : next.endServer = false := by
  cases step_transition hstep with
  | selectedNone _ _ _ => exact State.endServer_of_loop_pc hselect
  | sweepEnd _ _ => exact State.endServer_of_loop_pc hselect
  | @accepted fd hpc _ _ =>
      rcases s.addConnection_pc fd with h | h <;> simp [h, hpc] at hselect
  | _ => cases hselect

theorem undefined_of_step {setting : Setting} {s next : State}
    {answer : Answer} (hstep : step setting s answer = some next)
    (hpc : next.pc = .undefined) :
    ∃ fd, fdSetSize ≤ fd ∧ fd < setting.fdLimit ∧ .accept fd ∈ next.trace := by
  cases step_transition hstep with
  | @selectedNone ready _ _ _ =>
      rcases State.loop_pc { s with workingSet := ready } with h | h <;>
        simp [h] at hpc
  | sweepEnd _ _ => rcases s.loop_pc with h | h <;> simp [h] at hpc
  | @accepted fd haccepting hlimit _ =>
      refine ⟨fd, ?_, hlimit, by simp [State.addConnection, State.log]⟩
      by_contra hlt
      have hsame : (s.addConnection fd).pc = s.pc := if_pos (by omega)
      simp [hsame, haccepting] at hpc
  | _ => cases hpc

theorem cleanup_of_exited_step {setting : Setting} {s next : State}
    {answer : Answer} (hstep : step setting s answer = some next)
    (hpc : next.pc = .exited) : s.pc = .cleanup ∧ answer = .tau := by
  cases step_transition hstep with
  | @selectedNone ready _ _ _ =>
      rcases State.loop_pc { s with workingSet := ready } with h | h <;>
        simp [h] at hpc
  | sweepEnd _ _ => rcases s.loop_pc with h | h <;> simp [h] at hpc
  | @accepted fd haccepting _ _ =>
      rcases s.addConnection_pc fd with h | h <;> simp [h, haccepting] at hpc
  | cleanup hcleanup => exact ⟨hcleanup, rfl⟩
  | _ => cases hpc

/-- The bookkeeping of every run.  Up to the exit, and unless a descriptor
outside of the sets was added, the master set holds the listening descriptor
and the open connections, with `max_sd` as its maximum; and lowering `max_sd`
ends at the maximum of what is left.  A failure of `select` leads to the
clean-up at once and one of `accept` at the next end of the outer loop, and an
exit is always behind a clean-up. -/
theorem reachable_bookkeeping {setting : Setting} {s : State}
    (hreachable : Reachable (step setting) (initial setting) s) :
    (s.pc ≠ .exited → s.pc ≠ .undefined →
      setting.listenfd ∈ s.masterSet ∧
      s.masterSet = openDescriptors setting.listenfd s.trace ∧
      IsGreatest (s.masterSet : Set ℕ) s.maxSd) ∧
    s.pc ≠ .fault ∧
    (s.pc = .undefined →
      fdSetSize ≤ setting.listenfd ∨
        ∃ fd, fdSetSize ≤ fd ∧ .accept fd ∈ s.trace) ∧
    (s.pc = .closing → s.closeConn = true → s.i = s.maxSd →
      ∃ lowered,
        lowerMaxSd (s.masterSet.erase s.i) s.maxSd = some lowered ∧
        IsGreatest ((s.masterSet.erase s.i : Finset ℕ) : Set ℕ) lowered) ∧
    (∀ next, step setting s .selectFailed = some next → next.pc = .cleanup) ∧
    (∀ next, step setting s .acceptFailed = some next →
      next.endServer = true) ∧
    (s.endServer = true → s.pc ≠ .select ∧
      ∀ answer next, step setting s answer = some next →
        next.endServer = true) ∧
    (s.pc = .cleanup →
      ∃ next, step setting s .tau = some next ∧ CleansUp setting s next) ∧
    (s.pc = .exited →
      ∃ before, Reachable (step setting) (initial setting) before ∧
        before.pc = .cleanup ∧ step setting before .tau = some s ∧
        CleansUp setting before s) := by
  have hinv : Invariant setting s := reachable_invariant hreachable
  refine ⟨?_, hinv.noFault, ?_, ?_, ?_, ?_, ?_, ?_, ?_⟩
  · intro hpc _
    exact ⟨hinv.listening, hinv.tracked hpc, hinv.greatest⟩
  · intro hpc
    rcases hreachable.eq_or_last with rfl | ⟨before, answer, _, hstep⟩
    · refine Or.inl (Nat.le_of_not_lt fun hlt => ?_)
      simp [initial, hlt] at hpc
    · rcases undefined_of_step hstep hpc with ⟨fd, hsize, _, haccept⟩
      exact Or.inr ⟨fd, hsize, haccept⟩
  · intro hpc _ _
    exact hinv.lowerMaxSd_erase hpc
  · intro next hstep
    cases step_transition hstep with
    | selectFailed _ => rfl
    | recvStop _ _ hanswer => simp at hanswer
  · intro next hstep
    cases step_transition hstep with
    | acceptFailed _ => rfl
    | recvStop _ _ hanswer => simp at hanswer
  · intro hend
    refine ⟨fun hpc => ?_, fun answer next hstep => endServer_of_step hstep hend⟩
    rcases hreachable.eq_or_last with rfl | ⟨before, answer, _, hstep⟩
    · cases hend
    · rw [endServer_of_select hstep hpc] at hend
      cases hend
  · intro hpc
    have hstep : ∃ next, step setting s .tau = some next := by
      simp only [step, hpc, stepCleanup]
      exact ⟨_, rfl⟩
    rcases hstep with ⟨next, hnext⟩
    exact ⟨next, hnext, hinv.cleansUp hpc hnext⟩
  · intro hpc
    rcases hreachable.eq_or_last with rfl | ⟨before, answer, hbefore, hstep⟩
    · rcases initial_pc setting with h | h <;> simp [h] at hpc
    · rcases cleanup_of_exited_step hstep hpc with ⟨hcleanup, rfl⟩
      exact ⟨before, hbefore, hcleanup, hstep,
        (reachable_invariant hbefore).cleansUp hcleanup hstep⟩

/-- A connection is closed, and the server exits when `select` fails. -/
theorem reachable_bookkeeping_closed :
    ∃ s final, run (step ⟨0, fdSetSize⟩) (initial ⟨0, fdSetSize⟩)
        [.selected {0}, .tau, .accepted 1, .acceptWouldBlock, .tau,
          .selected {1}, .tau, .tau, .recvEof] = some s ∧
      s.masterSet = openDescriptors 0 s.trace ∧
      (∃ lowered,
        lowerMaxSd (s.masterSet.erase s.i) s.maxSd = some lowered ∧
        IsGreatest ((s.masterSet.erase s.i : Finset ℕ) : Set ℕ) lowered) ∧
      run (step ⟨0, fdSetSize⟩) s [.tau, .tau, .selectFailed, .tau] =
        some final ∧
      openDescriptors 0 final.trace = ∅ := by
  have hrun : ∃ s final, run (step ⟨0, fdSetSize⟩) (initial ⟨0, fdSetSize⟩)
        [.selected {0}, .tau, .accepted 1, .acceptWouldBlock, .tau,
          .selected {1}, .tau, .tau, .recvEof] = some s ∧
      s.pc = .closing ∧ s.closeConn = true ∧ s.i = s.maxSd ∧
      run (step ⟨0, fdSetSize⟩) s [.tau, .tau, .selectFailed, .tau] =
        some final ∧ final.pc = .exited :=
    ⟨_, _, rfl, rfl, rfl, rfl, rfl, rfl⟩
  rcases hrun with ⟨s, final, hs, hpc, hclose, hi, hfinal, hexited⟩
  have hbookkeeping := reachable_bookkeeping ⟨_, hs⟩
  have hreachable : Reachable (step ⟨0, fdSetSize⟩) (initial ⟨0, fdSetSize⟩)
      final := Reachable.run ⟨_, hs⟩ hfinal
  rcases (reachable_bookkeeping hreachable).2.2.2.2.2.2.2.2 hexited with
    ⟨_, _, _, _, hcleansUp⟩
  exact ⟨s, final, hs, (hbookkeeping.1 (by simp [hpc]) (by simp [hpc])).2.1,
    hbookkeeping.2.2.2.1 hpc hclose hi, hfinal, hcleansUp.nothingOpen⟩

end Miscellaneous.ChatServer
