import Miscellaneous.SharedMemory
import Mathlib.Tactic

/-!
# When a positive semaphore means a complete segment

The semaphore is never removed, so once somebody has posted it stays posted:
its value is positive or a reader is between its wait and its post.  As long
as segments are created only before that, there is one segment, the first post
comes after the contents have been copied into it, and every reader prints the
contents.  A segment created later is empty under a semaphore that already
lets readers through.
-/

namespace Miscellaneous.SharedMemory

open GuardedRuns

variable {Pid : Type*}

/-- A reader between its wait and its post. -/
def Process.Inside : Process → Prop
  | .reader (.print _) _ _ | .reader .semPost _ _ => True
  | _ => False

def State.Posted (s : State Pid) : Prop :=
  0 < s.value ∨ ∃ pid, (s.processes pid).Inside

/-- The first `i` bytes of the contents and its NUL are in the segment. -/
def State.Copied (s : State Pid) (segment i : ℕ) : Prop :=
  memContents.memory.take i <+: s.memory segment

def State.Complete (s : State Pid) (segment : ℕ) : Prop :=
  memContents.bytes <+: s.memory segment

def WriterCall.Consistent (s : State Pid) (segment : ℕ) : WriterCall → Prop
  | .ftruncate => True
  | .semOpen => byteSize ≤ (s.memory segment).length
  | .strcpy i => byteSize ≤ (s.memory segment).length ∧ s.Copied segment i
  | .semPost => s.Complete segment
  | .shmUnlink => s.Posted

def ReaderCall.Consistent (output : List UInt8) : ReaderCall → Prop
  | .semOpen | .semWait => output = []
  | .print i =>
      output = memContents.bytes.take i ∧ i ≤ memContents.bytes.length
  | .semPost => output = memContents.bytes

def Process.Consistent (s : State Pid) : Process → Prop
  | .shmOpen _ => True
  | .writer call segment =>
      segment < s.segments.length ∧ call.Consistent s segment
  | .reader call segment output =>
      segment < s.segments.length ∧ call.Consistent output
  | .exited output => output = [] ∨ output = memContents.bytes

/-- What the shared objects keep: the name is removed, and the semaphore is
positive, only when the one segment is complete. -/
structure State.Sound (s : State Pid) : Prop where
  single : s.segments.length ≤ 1
  named : ∀ segment, s.name = some segment → segment < s.segments.length
  created : s.name = none → s.segments = [] ∨ s.Posted
  bounded : (s.memory 0).length ≤ byteSize
  ready : s.Posted → s.Complete 0

structure Invariant (s : State Pid) : Prop extends State.Sound s where
  consistent : ∀ pid, (s.processes pid).Consistent s

theorem initial_invariant (programs : Pid → Program) :
    Invariant (initial programs) where
  single := Nat.zero_le 1
  named := by simp [initial]
  created := fun _ => Or.inl rfl
  bounded := Nat.zero_le _
  ready := by
    rintro (hvalue | ⟨pid, hinside⟩)
    · cases hvalue
    · cases hinside
  consistent := fun _ => trivial

/-! ## What the other processes rely on -/

/-- Nothing that a process relies on is lost. -/
structure Grows (s next : State Pid) : Prop where
  length_le : s.segments.length ≤ next.segments.length
  posted : s.Posted → next.Posted
  size : ∀ segment, byteSize ≤ (s.memory segment).length →
    byteSize ≤ (next.memory segment).length
  kept : ∀ segment i, s.Copied segment i → next.Copied segment i

theorem copied_length_iff (s : State Pid) (segment : ℕ) :
    s.Copied segment memContents.bytes.length ↔ s.Complete segment := by
  simp [State.Copied, State.Complete, CString.memory]

theorem Grows.complete {s next : State Pid} (hgrows : Grows s next)
    {segment : ℕ} (hcomplete : s.Complete segment) :
    next.Complete segment := by
  rw [← copied_length_iff] at hcomplete ⊢
  exact hgrows.kept _ _ hcomplete

theorem Process.Consistent.grow {s next : State Pid} {process : Process}
    (hgrows : Grows s next) (hprocess : process.Consistent s) :
    process.Consistent next := by
  cases process with
  | shmOpen program => trivial
  | writer call segment =>
      rcases hprocess with ⟨hsegment, hcall⟩
      refine ⟨hsegment.trans_le hgrows.length_le, ?_⟩
      cases call with
      | ftruncate => trivial
      | semOpen => exact hgrows.size _ hcall
      | strcpy i => exact ⟨hgrows.size _ hcall.1, hgrows.kept _ _ hcall.2⟩
      | semPost => exact hgrows.complete hcall
      | shmUnlink => exact hgrows.posted hcall
  | reader call segment output =>
      exact ⟨hprocess.1.trans_le hgrows.length_le, hprocess.2⟩
  | exited output => exact hprocess

theorem Grows.of_same_memory {s next : State Pid}
    (hsegments : next.segments = s.segments)
    (hposted : s.Posted → next.Posted) : Grows s next where
  length_le := by rw [hsegments]
  posted := hposted
  size := by
    intro segment hsize
    rwa [State.memory, hsegments]
  kept := by
    intro segment i hcopied
    rwa [State.Copied, State.memory, hsegments]

theorem Invariant.segment_eq_zero {s : State Pid} (hs : Invariant s)
    {segment : ℕ} (hsegment : segment < s.segments.length) : segment = 0 := by
  have hsingle := hs.single
  omega

theorem Invariant.length_memory_le {s : State Pid} (hs : Invariant s)
    {segment : ℕ} (hsegment : segment < s.segments.length) :
    (s.memory segment).length ≤ byteSize := by
  rw [hs.segment_eq_zero hsegment]
  exact hs.bounded

variable [DecidableEq Pid]

@[simp] theorem memory_move (s : State Pid) (pid : Pid) (process : Process)
    (segment : ℕ) : (s.move pid process).memory segment = s.memory segment :=
  rfl

@[simp] theorem processes_move_self (s : State Pid) (pid : Pid)
    (process : Process) : (s.move pid process).processes pid = process :=
  Function.update_self _ _ _

theorem processes_move_of_ne (s : State Pid) {pid other : Pid}
    (hother : other ≠ pid) (process : Process) :
    (s.move pid process).processes other = s.processes other :=
  Function.update_of_ne hother _ _

theorem Invariant.of_step {s next : State Pid} (hs : Invariant s) {pid : Pid}
    {process : Process}
    (hprocesses : next.processes = (s.move pid process).processes)
    (hgrows : Grows s next) (hsound : next.Sound)
    (hprocess : process.Consistent next) : Invariant next where
  toSound := hsound
  consistent := by
    intro other
    rw [hprocesses]
    by_cases hother : other = pid
    · subst hother
      simpa using hprocess
    · rw [processes_move_of_ne _ hother]
      exact (hs.consistent other).grow hgrows

/-- A step that changes neither the value nor whether the process is between
its wait and its post. -/
theorem posted_iff_of_step {s next : State Pid} {pid : Pid} {process : Process}
    (hprocesses : next.processes = (s.move pid process).processes)
    (hvalue : next.value = s.value)
    (hinside : process.Inside ↔ (s.processes pid).Inside) :
    next.Posted ↔ s.Posted := by
  have hother : ∀ other,
      (next.processes other).Inside ↔ (s.processes other).Inside := by
    intro other
    rw [hprocesses]
    by_cases hother : other = pid
    · subst hother
      simpa using hinside
    · rw [processes_move_of_ne _ hother]
  simp [State.Posted, hvalue, hother]

/-! ## The steps -/

/-- A step that only moves a process, possibly opening the semaphore. -/
theorem Invariant.of_quiet {s next : State Pid} (hs : Invariant s) {pid : Pid}
    {process : Process}
    (hprocesses : next.processes = (s.move pid process).processes)
    (hsegments : next.segments = s.segments) (hname : next.name = s.name)
    (hvalue : next.value = s.value)
    (hinside : process.Inside ↔ (s.processes pid).Inside)
    (hprocess : process.Consistent s) : Invariant next := by
  have hposted : next.Posted ↔ s.Posted :=
    posted_iff_of_step hprocesses hvalue hinside
  have hgrows : Grows s next := Grows.of_same_memory hsegments hposted.mpr
  refine hs.of_step hprocesses hgrows ?_ (hprocess.grow hgrows)
  exact
    { single := by
        rw [hsegments]
        exact hs.single
      named := by
        rw [hsegments, hname]
        exact hs.named
      created := by
        rw [hsegments, hname, hposted]
        exact hs.created
      bounded := by
        rw [State.memory, hsegments]
        exact hs.bounded
      ready := fun hnext => hgrows.complete (hs.ready (hposted.mp hnext)) }

/-- A step of a process that has seen a post, or that posts a complete
segment. -/
theorem Invariant.of_posted {s next : State Pid} (hs : Invariant s) {pid : Pid}
    {process : Process}
    (hprocesses : next.processes = (s.move pid process).processes)
    (hsegments : next.segments = s.segments)
    (hname : next.name = none ∨ next.name = s.name) (hposted : next.Posted)
    (hcomplete : s.Complete 0)
    (hprocess : process.Consistent next) : Invariant next := by
  have hgrows : Grows s next := Grows.of_same_memory hsegments fun _ => hposted
  refine hs.of_step hprocesses hgrows ?_ hprocess
  exact
    { single := by
        rw [hsegments]
        exact hs.single
      named := by
        intro segment hsegment
        rw [hsegments]
        rcases hname with hname | hname
        · rw [hname] at hsegment
          cases hsegment
        · exact hs.named segment (hname ▸ hsegment)
      created := fun _ => Or.inr hposted
      bounded := by
        rw [State.memory, hsegments]
        exact hs.bounded
      ready := fun _ => hgrows.complete hcomplete }

theorem Invariant.of_write {s next : State Pid} (hs : Invariant s) {pid : Pid}
    {process : Process} {segment : ℕ} {bytes : List UInt8}
    (hsegment : segment < s.segments.length)
    (hnext : next = { s with
      segments := s.segments.set segment bytes }.move pid process)
    (hinside : process.Inside ↔ (s.processes pid).Inside)
    (hlength : (s.memory segment).length ≤ bytes.length)
    (hbound : bytes.length ≤ byteSize)
    (hkept : ∀ i, s.Copied segment i → memContents.memory.take i <+: bytes)
    (hprocess : process.Consistent next) : Invariant next := by
  have hzero := hs.segment_eq_zero hsegment
  subst hnext hzero
  have hself : State.memory { s with segments := s.segments.set 0 bytes } 0 =
      bytes := by
    simp [State.memory, hsegment]
  have hother : ∀ other, other ≠ 0 →
      State.memory { s with segments := s.segments.set 0 bytes } other =
        s.memory other := by
    intro other hother
    simp [State.memory, List.getElem?_set_ne hother.symm]
  have hposted : State.Posted
      ({ s with segments := s.segments.set 0 bytes }.move pid process) ↔
        s.Posted :=
    posted_iff_of_step rfl rfl hinside
  have hgrows : Grows s
      ({ s with segments := s.segments.set 0 bytes }.move pid process) :=
    { length_le := by simp [State.move]
      posted := hposted.mpr
      size := by
        intro other hsize
        rw [memory_move]
        by_cases hzero : other = 0
        · subst hzero
          rw [hself]
          exact hsize.trans hlength
        · rw [hother other hzero]
          exact hsize
      kept := by
        intro other i hcopied
        rw [State.Copied, memory_move]
        by_cases hzero : other = 0
        · subst hzero
          rw [hself]
          exact hkept i hcopied
        · rw [hother other hzero]
          exact hcopied }
  refine hs.of_step rfl hgrows ?_ hprocess
  exact
    { single := by simpa [State.move] using hs.single
      named := by simpa [State.move] using hs.named
      created := by
        intro hname
        rw [hposted]
        simpa [State.move] using hs.created hname
      bounded := by
        rw [memory_move, hself]
        exact hbound
      ready := fun hnext => hgrows.complete (hs.ready (hposted.mp hnext)) }

/-- A segment that is created before the first post is the only one. -/
theorem Invariant.of_create {s : State Pid} (hs : Invariant s) {pid : Pid}
    (hprocess : s.processes pid = .shmOpen .memwriter)
    (hname : s.name = none) (hposted : ¬s.Posted) :
    Invariant (stepOpen s pid .memwriter) := by
  have hempty : s.segments = [] := (hs.created hname).resolve_right hposted
  have hcreate : stepOpen s pid .memwriter =
      { s with segments := [[]], name := some 0 }.move pid
        (.writer .ftruncate 0) := by
    simp [stepOpen, hname, hempty]
  rw [hcreate]
  have hmemory : ∀ segment,
      State.memory { s with segments := [[]], name := some 0 } segment =
        s.memory segment := by
    intro segment
    cases segment <;> simp [State.memory, hempty]
  have hnext : ¬State.Posted
      ({ s with segments := [[]], name := some 0 }.move pid
        (.writer .ftruncate 0)) := by
    rwa [posted_iff_of_step rfl rfl (by simp [hprocess, Process.Inside])]
  refine hs.of_step rfl
    { length_le := by simp [hempty]
      posted := fun h => absurd h hposted
      size := ?_
      kept := ?_ } ?_ ⟨Nat.zero_lt_one, trivial⟩
  · intro segment hsize
    rwa [memory_move, hmemory]
  · intro segment i hcopied
    rwa [State.Copied, memory_move, hmemory]
  · exact
      { single := le_refl 1
        named := by
          rintro segment ⟨⟩
          exact Nat.zero_lt_one
        created := by
          rintro ⟨⟩
        bounded := by
          rw [memory_move, hmemory]
          exact hs.bounded
        ready := fun h => absurd h hnext }

theorem length_truncate {memory : List UInt8} {size : ℕ}
    (hsize : memory.length ≤ size) : (truncate memory size).length = size := by
  simp [truncate]
  omega

theorem isPrefix_truncate {memory : List UInt8} {size : ℕ}
    (hsize : memory.length ≤ size) : memory <+: truncate memory size := by
  rw [truncate, List.take_of_length_le hsize]
  exact List.prefix_append _ _

/-- Another byte of the text in its place leaves the bytes that are there. -/
theorem isPrefix_set {text memory : List UInt8} {n i : ℕ} {byte : UInt8}
    (hstarts : text.take n <+: memory) (hbyte : text[i]? = some byte) :
    text.take n <+: memory.set i byte := by
  rw [List.prefix_iff_getElem?] at hstarts ⊢
  intro j hj
  by_cases hij : i = j
  · subst hij
    have hmemory := hstarts i hj
    have hlt : i < memory.length := (List.getElem?_eq_some_iff.mp hmemory).1
    have hsame : (text.take n)[i] = byte := by
      rw [List.getElem_take]
      exact (List.getElem?_eq_some_iff.mp hbyte).2
    rw [List.getElem?_set_self hlt, hsame]
  · rw [List.getElem?_set_ne hij]
    exact hstarts j hj

theorem take_succ_isPrefix_set {text memory : List UInt8} {i : ℕ}
    {byte : UInt8} (hstarts : text.take i <+: memory)
    (hbyte : text[i]? = some byte) (hlt : i < memory.length) :
    text.take (i + 1) <+: memory.set i byte := by
  have hi : i < text.length := (List.getElem?_eq_some_iff.mp hbyte).1
  have hlength : (text.take i).length = i := by
    rw [List.length_take]
    omega
  rcases hstarts with ⟨rest, hrest⟩
  rw [← hrest, List.length_append, hlength] at hlt
  cases rest with
  | nil => exact absurd hlt (by simp)
  | cons head tail =>
      refine ⟨tail, ?_⟩
      rw [← hrest, List.set_append_right _ _ hlength.le, hlength, Nat.sub_self,
        List.take_add_one, hbyte]
      simp

/-! ## The steps keep the invariant -/

/-- A segment is created only as long as nothing has been posted. -/
def CreatesBeforePost (s : State Pid) : Action Pid → Prop
  | .call pid =>
      s.processes pid = .shmOpen .memwriter → s.name = none → ¬s.Posted
  | .interrupt _ => True

theorem stepOpen_invariant {s : State Pid} (hs : Invariant s) {pid : Pid}
    {program : Program} (hprocess : s.processes pid = .shmOpen program)
    (hcreates : CreatesBeforePost s (.call pid)) :
    Invariant (stepOpen s pid program) := by
  have hinside : ¬(s.processes pid).Inside := by
    rw [hprocess]
    exact id
  cases hname : s.name with
  | none =>
      cases program with
      | memwriter => exact hs.of_create hprocess hname (hcreates hprocess hname)
      | memreader =>
          simp only [stepOpen, hname]
          exact hs.of_quiet rfl rfl rfl rfl (iff_of_false id hinside)
            (Or.inl rfl)
  | some segment =>
      have hsegment := hs.named segment hname
      cases program with
      | memwriter =>
          simp only [stepOpen, hname]
          exact hs.of_quiet rfl rfl rfl rfl (iff_of_false id hinside)
            ⟨hsegment, trivial⟩
      | memreader =>
          simp only [stepOpen, hname]
          exact hs.of_quiet rfl rfl rfl rfl (iff_of_false id hinside)
            ⟨hsegment, rfl⟩

theorem memory_set_move {s : State Pid} {segment : ℕ}
    (hsegment : segment < s.segments.length) (bytes : List UInt8) (pid : Pid)
    (process : Process) :
    State.memory ({ s with
      segments := s.segments.set segment bytes }.move pid process) segment =
        bytes := by
  rw [memory_move, State.memory, List.getElem?_set_self hsegment]
  rfl

theorem stepWriter_invariant {s : State Pid} (hs : Invariant s) {pid : Pid}
    {call : WriterCall} {segment : ℕ}
    (hprocess : s.processes pid = .writer call segment) :
    Invariant (stepWriter s pid segment call) := by
  have hinside : ¬(s.processes pid).Inside := by
    rw [hprocess]
    exact id
  have hconsistent := hs.consistent pid
  rw [hprocess] at hconsistent
  rcases hconsistent with ⟨hsegment, hcall⟩
  have hbound := hs.length_memory_le hsegment
  have hsegment' : ∀ bytes, segment <
      (s.segments.set segment bytes).length := by simp [hsegment]
  cases call with
  | ftruncate =>
      have hlength := length_truncate hbound
      refine hs.of_write hsegment rfl (iff_of_false id hinside) ?_ ?_ ?_
        ⟨hsegment' _, ?_⟩
      · rw [hlength]
        exact hbound
      · rw [hlength]
      · intro i hcopied
        exact hcopied.trans (isPrefix_truncate hbound)
      · change byteSize ≤ List.length _
        rw [stepWriter, memory_set_move hsegment, hlength]
  | semOpen =>
      exact hs.of_quiet rfl rfl rfl rfl (iff_of_false id hinside)
        ⟨hsegment, hcall, List.nil_prefix⟩
  | strcpy i =>
      rcases hcall with ⟨hsize, hcopied⟩
      simp only [stepWriter]
      split
      · rename_i byte hbyte
        have hlt : i < (s.memory segment).length := by
          have hi := (List.getElem?_eq_some_iff.mp hbyte).1
          have hfits : memContents.memory.length ≤ byteSize := by decide
          omega
        refine hs.of_write hsegment rfl (iff_of_false id hinside) ?_ ?_ ?_
          ⟨hsegment' _, ?_, ?_⟩
        · rw [List.length_set]
        · rwa [List.length_set]
        · intro j hj
          exact isPrefix_set hj hbyte
        · rwa [memory_set_move hsegment, List.length_set]
        · rw [State.Copied, memory_set_move hsegment]
          exact take_succ_isPrefix_set hcopied hbyte hlt
      · rename_i hend
        refine hs.of_quiet rfl rfl rfl rfl (iff_of_false id hinside)
          ⟨hsegment, ?_⟩
        rw [State.Copied, List.take_of_length_le
          (List.getElem?_eq_none_iff.mp hend)] at hcopied
        exact (List.prefix_append _ _).trans hcopied
  | semPost =>
      have hposted : (stepWriter s pid segment .semPost).Posted :=
        Or.inl (Nat.succ_pos _)
      rw [hs.segment_eq_zero hsegment] at hcall
      exact hs.of_posted rfl rfl (Or.inr rfl) hposted hcall
        ⟨hsegment, hposted⟩
  | shmUnlink =>
      have hposted : (stepWriter s pid segment .shmUnlink).Posted :=
        (posted_iff_of_step rfl rfl (iff_of_false id hinside)).mpr hcall
      exact hs.of_posted rfl rfl (Or.inl rfl) hposted (hs.ready hcall)
        (Or.inl rfl)

theorem stepReader_invariant {s next : State Pid} (hs : Invariant s) {pid : Pid}
    {call : ReaderCall} {segment : ℕ} {output : List UInt8}
    (hprocess : s.processes pid = .reader call segment output)
    (hstep : stepReader s pid segment output call = some next) :
    Invariant next := by
  have hconsistent := hs.consistent pid
  rw [hprocess] at hconsistent
  rcases hconsistent with ⟨hsegment, hcall⟩
  cases call with
  | semOpen =>
      cases hstep
      exact hs.of_quiet rfl rfl rfl rfl (by rw [hprocess]; exact Iff.rfl)
        ⟨hsegment, hcall⟩
  | semWait =>
      simp only [stepReader] at hstep
      split_ifs at hstep with hvalue
      cases hstep
      refine hs.of_posted rfl rfl (Or.inr rfl) ?_ (hs.ready (Or.inl hvalue))
        ⟨hsegment, hcall, Nat.zero_le _⟩
      right
      exact ⟨pid, by rw [processes_move_self]; trivial⟩
  | print i =>
      have hinside : (s.processes pid).Inside := by
        rw [hprocess]
        trivial
      rcases hcall with ⟨houtput, hi⟩
      simp only [stepReader, CString.strlen_memory] at hstep
      split_ifs at hstep with hlt
      · cases hstep
        refine hs.of_quiet rfl rfl rfl rfl (iff_of_true trivial hinside)
          ⟨hsegment, ?_, hlt⟩
        have hcomplete : s.Complete segment := by
          rw [hs.segment_eq_zero hsegment]
          exact hs.ready (Or.inr ⟨pid, hinside⟩)
        rw [houtput, List.take_add_one,
          (List.prefix_iff_getElem?.mp hcomplete) i hlt,
          List.getElem?_eq_getElem hlt]
      · cases hstep
        refine hs.of_quiet rfl rfl rfl rfl (iff_of_true trivial hinside)
          ⟨hsegment, ?_⟩
        change output = memContents.bytes
        rw [houtput, List.take_of_length_le (by omega)]
  | semPost =>
      cases hstep
      have hinside : (s.processes pid).Inside := by
        rw [hprocess]
        trivial
      exact hs.of_posted rfl rfl (Or.inr rfl) (Or.inl (Nat.succ_pos _))
        (hs.ready (Or.inr ⟨pid, hinside⟩)) (Or.inr hcall)

theorem step_invariant {s next : State Pid} {action : Action Pid}
    (hcreates : CreatesBeforePost s action) (hs : Invariant s)
    (hstep : step s action = some next) : Invariant next := by
  cases action with
  | call pid =>
      simp only [step] at hstep
      split at hstep
      · rename_i program hprocess
        cases hstep
        exact stepOpen_invariant hs hprocess hcreates
      · rename_i call segment hprocess
        cases hstep
        exact stepWriter_invariant hs hprocess
      · rename_i call segment output hprocess
        exact stepReader_invariant hs hprocess hstep
      · cases hstep
  | interrupt pid =>
      simp only [step] at hstep
      split at hstep
      · rename_i segment output hprocess
        cases hstep
        have hconsistent := hs.consistent pid
        rw [hprocess] at hconsistent
        exact hs.of_quiet rfl rfl rfl rfl (by rw [hprocess]; exact Iff.rfl)
          (Or.inl hconsistent.2)
      · cases hstep

theorem run_invariant_of_createsBeforePost {programs : Pid → Program}
    {actions : List (Action Pid)} {s : State Pid}
    (hcreates : StepsMeet step CreatesBeforePost (initial programs) actions)
    (hrun : run step (initial programs) actions = some s) : Invariant s :=
  run_invariant_of_stepsMeet
    (fun _ _ _ hmeets hstate hstep => step_invariant hmeets hstate hstep)
    hcreates (initial_invariant programs) hrun

/-! ## What the readers print -/

/-- A positive semaphore means that the mapped segments are complete, and a
reader prints the contents and nothing else. -/
structure PrintsContents (s : State Pid) : Prop where
  mapped : ∀ pid call segment output,
    s.processes pid = .reader call segment output → 0 < s.value →
      memContents.bytes <+: s.memory segment
  printing : ∀ pid call segment output,
    s.processes pid = .reader call segment output →
      output <+: memContents.bytes ∧
        (call = .semPost → output = memContents.bytes)
  printed : ∀ pid output, s.processes pid = .exited output →
    output = [] ∨ output = memContents.bytes

omit [DecidableEq Pid] in
theorem Invariant.printsContents {s : State Pid} (hs : Invariant s) :
    PrintsContents s where
  mapped := by
    intro pid call segment output hprocess hvalue
    have hconsistent := hs.consistent pid
    rw [hprocess] at hconsistent
    rw [hs.segment_eq_zero hconsistent.1]
    exact hs.ready (Or.inl hvalue)
  printing := by
    intro pid call segment output hprocess
    have hconsistent := hs.consistent pid
    rw [hprocess] at hconsistent
    have hcall := hconsistent.2
    cases call with
    | semOpen | semWait =>
        rw [show output = [] from hcall]
        exact ⟨List.nil_prefix, by simp⟩
    | print i =>
        rw [hcall.1]
        exact ⟨List.take_prefix _ _, by simp⟩
    | semPost =>
        rw [show output = memContents.bytes from hcall]
        exact ⟨List.prefix_refl _, fun _ => rfl⟩
  printed := by
    intro pid output hprocess
    have hconsistent := hs.consistent pid
    rwa [hprocess] at hconsistent

theorem printsContents_of_createsBeforePost {programs : Pid → Program}
    {actions : List (Action Pid)} {s : State Pid}
    (hcreates : StepsMeet step CreatesBeforePost (initial programs) actions)
    (hrun : run step (initial programs) actions = some s) : PrintsContents s :=
  (run_invariant_of_createsBeforePost hcreates hrun).printsContents

instance : DecidablePred Process.Inside
  | .reader (.print _) _ _ | .reader .semPost _ _ => isTrue trivial
  | .reader .semOpen _ _ | .reader .semWait _ _ => isFalse id
  | .shmOpen _ | .writer _ _ | .exited _ => isFalse id

instance {Pid : Type*} [Fintype Pid] (s : State Pid) : Decidable s.Posted :=
  inferInstanceAs (Decidable (_ ∨ _))

instance {Pid : Type*} [Fintype Pid] (s : State Pid) :
    ∀ action, Decidable (CreatesBeforePost s action)
  | .call _ => inferInstanceAs (Decidable (_ → _ → _))
  | .interrupt _ => isTrue trivial

/-- A writer that has posted, and a reader. -/
theorem printsContents_of_createsBeforePost_pair :
    ∃ s : State Bool, run step
        (initial fun pid => if pid then .memreader else .memwriter)
        (List.replicate 40 (.call false) ++ List.replicate 39 (.call true)) =
          some s ∧
      s.processes true = .exited memContents.bytes ∧ PrintsContents s := by
  have hmeets : StepsMeet step CreatesBeforePost
      (initial fun pid : Bool => if pid then .memreader else .memwriter)
      (List.replicate 40 (.call false) ++ List.replicate 39 (.call true)) := by
    decide +kernel
  have hrun : (run step
      (initial fun pid : Bool => if pid then .memreader else .memwriter)
      (List.replicate 40 (.call false) ++ List.replicate 39 (.call true))).map
        (fun s => s.processes true) = some (.exited memContents.bytes) := by
    decide +kernel
  rcases Option.map_eq_some_iff.mp hrun with ⟨s, hs, hprinted⟩
  exact ⟨s, hs, hprinted, printsContents_of_createsBeforePost hmeets hs⟩

/-- The second writer creates its segment under the semaphore that the first
one has posted. -/
theorem printsContents_fails :
    ¬∀ (programs : ℕ → Program) (actions : List (Action ℕ)) (s : State ℕ),
      run step (initial programs) actions = some s → PrintsContents s := by
  intro hprints
  have hrun : (run step
      (initial fun pid : ℕ => if pid = 2 then .memreader else .memwriter)
      (List.replicate 41 (.call 0) ++ List.replicate 2 (.call 1) ++
        List.replicate 39 (.call 2))).map (fun s => s.processes 2) =
          some (.exited (List.replicate 34 0)) := by
    decide +kernel
  rcases Option.map_eq_some_iff.mp hrun with ⟨s, hs, hprinted⟩
  rcases (hprints _ _ s hs).printed 2 _ hprinted with hempty | hcontents
  · cases hempty
  · exact absurd hcontents (by decide)

/-- A segment that is created after a post has none of the contents, and is
the one that the name leads to. -/
theorem created_after_post {s : State Pid} {pid : Pid}
    (hprocess : s.processes pid = .shmOpen .memwriter) (hname : s.name = none)
    (hposted : s.Posted) :
    ∃ next segment, step s (.call pid) = some next ∧
      next.name = some segment ∧ ¬next.Complete segment ∧ next.Posted := by
  refine ⟨stepOpen s pid .memwriter, s.segments.length,
    by simp only [step, hprocess], ?_, ?_, ?_⟩
  · simp only [stepOpen, hname]
    rfl
  · simp only [stepOpen, hname]
    simp [State.Complete, State.memory, State.move, memContents, CString.ascii]
  · simp only [stepOpen, hname]
    exact (posted_iff_of_step rfl rfl
      (by simp [hprocess, Process.Inside])).mpr hposted

end Miscellaneous.SharedMemory
