import Miscellaneous.FlockFile
import Mathlib.Tactic

/-!
# What the locks of the file protect

The lock of a process is determined by the call that it is at.  Only the
holder of the write lock changes the file, and everybody who relies on the
content holds a lock, so the content that a process relies on stays.  A
producer starts from an empty or complete file and overwrites it from the
start, which leaves it complete.
-/

namespace Miscellaneous.FlockFile

open GuardedRuns RecordLocks

variable {Pid : Type*}

@[simp] theorem message_eq (dataString : CString) :
    message dataString = dataString.bytes :=
  CString.take_strlen_memory dataString

theorem writeAt_take {bytes : List UInt8} {offset : ℕ} {byte : UInt8}
    (hbyte : bytes[offset]? = some byte) :
    writeAt (bytes.take offset) offset byte = bytes.take (offset + 1) := by
  have hlt : offset < bytes.length := (List.getElem?_eq_some_iff.mp hbyte).1
  have hlength : (bytes.take offset).length = offset := by
    rw [List.length_take]
    omega
  simp [writeAt, List.take_add_one, hbyte, hlength, List.drop_take]

theorem writeAt_self {bytes : List UInt8} {offset : ℕ} {byte : UInt8}
    (hbyte : bytes[offset]? = some byte) :
    writeAt bytes offset byte = bytes := by
  rcases List.getElem?_eq_some_iff.mp hbyte with ⟨hlt, hget⟩
  have hgap : offset - bytes.length = 0 := by omega
  rw [writeAt, hgap, ← hget]
  simp

/-! ## The invariant -/

def Process.lockType : Process → Option LockType
  | .producer (.write _) | .producer .unlock => some .write
  | .consumer (.read _) _ | .consumer (.print _ _) _ | .consumer .unlock _ =>
      some .read
  | _ => none

def Whole (bytes content : List UInt8) : Prop :=
  content = [] ∨ content = bytes

/-- What a process relies on and has done, given the content of the file. -/
def Process.Consistent (bytes content : List UInt8) : Process → Prop
  | .producer (.write offset) =>
      content = bytes ∨ content = bytes.take offset
  | .producer .unlock => content = bytes
  | .producer _ => True
  | .consumer (.read offset) output =>
      output = content.take offset ∧ offset ≤ content.length
  | .consumer (.print offset c) output =>
      output ++ [c] = content.take offset ∧ offset ≤ content.length
  | .consumer .unlock output => output = content
  | .consumer .close output | .consumer .exited output => Whole bytes output
  | .consumer _ output => output = []

structure Invariant (bytes : List UInt8) (s : State Pid) : Prop where
  mem_locks : ∀ pid type, (pid, type) ∈ s.locks.locks ↔
    (s.processes pid).lockType = some type
  settled : (∀ pid, (pid, .write) ∉ s.locks.locks) → Whole bytes s.content
  consistent : ∀ pid, (s.processes pid).Consistent bytes s.content

theorem initial_invariant (bytes : List UInt8) (present : Bool)
    (programs : Pid → Program) :
    Invariant bytes (initial present programs) where
  mem_locks := by
    intro pid type
    cases hprogram : programs pid <;>
      simp [initial, Table.empty, Program.start, Process.lockType, hprogram]
  settled := fun _ => by
    left
    cases present <;> rfl
  consistent := by
    intro pid
    cases hprogram : programs pid <;>
      simp [initial, Program.start, Process.Consistent, hprogram]

variable [DecidableEq Pid]

/-- A process without a lock relies on nothing in the file. -/
theorem Process.Consistent.of_unlocked {bytes content : List UInt8}
    {process : Process} (hlock : process.lockType = none)
    (hprocess : process.Consistent bytes content) (other : List UInt8) :
    process.Consistent bytes other := by
  cases process with
  | producer call =>
      cases call <;> simp [Process.lockType] at hlock <;> trivial
  | consumer call output =>
      cases call <;> simp [Process.lockType] at hlock <;> exact hprocess

/-- After a step of one process, the other processes have their locks and
find what they rely on. -/
theorem Invariant.of_step {bytes : List UInt8} {s next : State Pid}
    (hs : Invariant bytes s) {pid : Pid} {process : Process}
    (hprocesses : next.processes = (s.move pid process).processes)
    (hself : ∀ type, (pid, type) ∈ next.locks.locks ↔
      process.lockType = some type)
    (hothers : ∀ other type, other ≠ pid →
      ((other, type) ∈ next.locks.locks ↔ (other, type) ∈ s.locks.locks))
    (hcontent : next.content = s.content ∨ (pid, .write) ∈ s.locks.locks)
    (hprocess : process.Consistent bytes next.content)
    (hsettled : (∀ other, (other, .write) ∉ next.locks.locks) →
      Whole bytes next.content) : Invariant bytes next where
  mem_locks := by
    intro other type
    rw [hprocesses]
    by_cases hother : other = pid
    · subst hother
      simpa using hself type
    · rw [hothers other type hother, hs.mem_locks,
        State.processes_move_of_ne _ hother]
  settled := hsettled
  consistent := by
    intro other
    rw [hprocesses]
    by_cases hother : other = pid
    · subst hother
      simpa using hprocess
    · rw [State.processes_move_of_ne _ hother]
      rcases hcontent with hcontent | hwrite
      · rw [hcontent]
        exact hs.consistent other
      · refine (hs.consistent other).of_unlocked ?_ _
        rw [Option.eq_none_iff_forall_ne_some]
        intro type htype
        have hlock := Table.exclusive hwrite ((hs.mem_locks other type).mpr htype)
        exact hother (congrArg Prod.fst hlock)

theorem Invariant.move {bytes : List UInt8} {s : State Pid}
    (hs : Invariant bytes s) {pid : Pid} {process : Process}
    (hlock : process.lockType = (s.processes pid).lockType)
    (hprocess : process.Consistent bytes s.content) :
    Invariant bytes (s.move pid process) := by
  refine hs.of_step rfl ?_ (fun _ _ _ => Iff.rfl) (Or.inl rfl) hprocess
    hs.settled
  intro type
  rw [State.locks_move, hs.mem_locks, hlock]

/-- A lock that is granted is granted on a file at rest. -/
theorem Invariant.acquire {bytes : List UInt8} {s : State Pid}
    (hs : Invariant bytes s) {pid : Pid} {process : Process} {type : LockType}
    {locks : Table Pid} (hset : s.locks.set pid type = some locks)
    (hfree : (s.processes pid).lockType = none)
    (hlock : process.lockType = some type)
    (hprocess : Whole bytes s.content → process.Consistent bytes s.content) :
    Invariant bytes ({ s with locks := locks }.move pid process) := by
  have hrest : Whole bytes s.content := by
    apply hs.settled
    intro other hmem
    by_cases hother : other = pid
    · subst hother
      rw [hs.mem_locks, hfree] at hmem
      cases hmem
    · have hconflict := Table.conflicts_of_set hset hmem hother
      cases type <;> simp [LockType.conflicts] at hconflict
  refine hs.of_step rfl ?_ ?_ (Or.inl rfl) (hprocess hrest) (fun _ => hrest)
  · intro other
    simp [Table.mem_set hset, hlock, eq_comm]
  · intro other otherType hother
    simp [Table.mem_set hset, hother]

theorem Invariant.release {bytes : List UInt8} {s : State Pid}
    (hs : Invariant bytes s) {pid : Pid} {process : Process}
    (hlock : process.lockType = none)
    (hprocess : process.Consistent bytes s.content)
    (hwhole : (s.processes pid).lockType = some .write →
      Whole bytes s.content) :
    Invariant bytes ((s.unlock pid).move pid process) := by
  refine hs.of_step rfl ?_ ?_ (Or.inl rfl) hprocess ?_
  · intro type
    simp [State.unlock, Table.mem_clear, hlock]
  · intro other type hother
    simp [State.unlock, Table.mem_clear, hother]
  · intro hnone
    by_cases hwrite : (s.processes pid).lockType = some .write
    · exact hwhole hwrite
    · apply hs.settled
      intro other hmem
      by_cases hother : other = pid
      · subst hother
        exact hwrite ((hs.mem_locks other .write).mp hmem)
      · exact hnone other (Table.mem_clear.mpr ⟨hmem, hother⟩)

theorem Invariant.exit {bytes : List UInt8} {s : State Pid}
    (hs : Invariant bytes s) {pid : Pid} {process : Process}
    (hfree : (s.processes pid).lockType = none)
    (hlock : process.lockType = none)
    (hprocess : process.Consistent bytes s.content) :
    Invariant bytes ((s.unlock pid).move pid process) := by
  refine hs.release hlock hprocess ?_
  intro hwrite
  rw [hfree] at hwrite
  cases hwrite

theorem Invariant.write {bytes : List UInt8} {s : State Pid}
    (hs : Invariant bytes s) {pid : Pid} {offset : ℕ} {byte : UInt8}
    (hprocess : s.processes pid = .producer (.write offset))
    (hbyte : bytes[offset]? = some byte) :
    Invariant bytes
      ({ s with file := some (writeAt s.content offset byte) }.move pid
        (.producer (.write (offset + 1)))) := by
  have hwrite : (pid, .write) ∈ s.locks.locks := by
    rw [hs.mem_locks, hprocess]
    rfl
  have hcontent := hs.consistent pid
  rw [hprocess] at hcontent
  refine hs.of_step rfl ?_ (fun _ _ _ => Iff.rfl) (Or.inr hwrite) ?_ ?_
  · intro type
    rw [State.locks_move, hs.mem_locks, hprocess]
    rfl
  · change writeAt s.content offset byte = bytes ∨
      writeAt s.content offset byte = bytes.take (offset + 1)
    rcases hcontent with hcontent | hcontent
    · left
      rw [hcontent, writeAt_self hbyte]
    · right
      rw [hcontent, writeAt_take hbyte]
  · intro hnone
    exact absurd hwrite (hnone pid)

/-! ## The steps keep the invariant -/

variable {dataString : CString}

theorem stepProducer_invariant {s next : State Pid} {pid : Pid}
    {call : ProducerCall} (hs : Invariant dataString.bytes s)
    (hprocess : s.processes pid = .producer call)
    (hstep : stepProducer dataString s pid call = some next) :
    Invariant dataString.bytes next := by
  have hconsistent := hs.consistent pid
  rw [hprocess] at hconsistent
  cases call with
  | openFile =>
      cases hstep
      have hopened : Invariant dataString.bytes
          { s with file := some s.content } := ⟨hs.mem_locks, hs.settled,
            hs.consistent⟩
      exact hopened.move (by rw [hprocess]; rfl) trivial
  | setLock =>
      simp only [stepProducer] at hstep
      split at hstep
      · rename_i locks hset
        cases hstep
        refine hs.acquire hset (by rw [hprocess]; rfl) rfl ?_
        intro hrest
        change s.content = dataString.bytes ∨
          s.content = dataString.bytes.take 0
        rcases hrest with hrest | hrest
        · exact Or.inr hrest
        · exact Or.inl hrest
      · cases hstep
        exact hs.exit (by rw [hprocess]; rfl) rfl trivial
  | write offset =>
      simp only [stepProducer, message_eq] at hstep
      split at hstep
      · rename_i byte hbyte
        cases hstep
        exact hs.write hprocess hbyte
      · rename_i hbyte
        cases hstep
        refine hs.move (by rw [hprocess]; rfl) ?_
        change s.content = dataString.bytes
        rcases hconsistent with hcontent | hcontent
        · exact hcontent
        · rw [hcontent, List.take_of_length_le
            (List.getElem?_eq_none_iff.mp hbyte)]
  | unlock =>
      cases hstep
      exact hs.release rfl trivial (fun _ => Or.inr hconsistent)
  | close =>
      cases hstep
      exact hs.exit (by rw [hprocess]; rfl) rfl trivial
  | exited => cases hstep

theorem Invariant.whole_of_lock {bytes : List UInt8} {s : State Pid}
    (hs : Invariant bytes s) {pid : Pid}
    (hlock : (s.processes pid).lockType = some .read) :
    Whole bytes s.content := by
  have hread := (hs.mem_locks pid .read).mpr hlock
  apply hs.settled
  intro other hwrite
  have hsame := Table.exclusive hwrite hread
  cases hsame

theorem stepConsumer_invariant {s next : State Pid} {pid : Pid}
    {call : ConsumerCall} {output : List UInt8}
    (hs : Invariant dataString.bytes s)
    (hprocess : s.processes pid = .consumer call output)
    (hstep : stepConsumer s pid output call = some next) :
    Invariant dataString.bytes next := by
  have hconsistent := hs.consistent pid
  rw [hprocess] at hconsistent
  cases call with
  | openFile =>
      simp only [stepConsumer] at hstep
      split at hstep <;> cases hstep
      · exact hs.move (by rw [hprocess]; rfl) hconsistent
      · exact hs.exit (by rw [hprocess]; rfl) rfl (Or.inl hconsistent)
  | getLock =>
      simp only [stepConsumer] at hstep
      split at hstep <;> cases hstep
      · exact hs.move (by rw [hprocess]; rfl) hconsistent
      · exact hs.exit (by rw [hprocess]; rfl) rfl (Or.inl hconsistent)
  | setLock =>
      simp only [stepConsumer] at hstep
      split at hstep
      · rename_i locks hset
        cases hstep
        refine hs.acquire hset (by rw [hprocess]; rfl) rfl ?_
        intro _
        exact ⟨hconsistent, Nat.zero_le _⟩
      · cases hstep
        exact hs.exit (by rw [hprocess]; rfl) rfl (Or.inl hconsistent)
  | read offset =>
      rcases hconsistent with ⟨houtput, hle⟩
      simp only [stepConsumer] at hstep
      split at hstep
      · rename_i c hc
        cases hstep
        have hlt : offset < s.content.length :=
          (List.getElem?_eq_some_iff.mp hc).1
        refine hs.move (by rw [hprocess]; rfl) ⟨?_, hlt⟩
        rw [houtput, List.take_add_one, hc]
        rfl
      · rename_i hend
        cases hstep
        refine hs.move (by rw [hprocess]; rfl) ?_
        change output = s.content
        rw [houtput, List.take_of_length_le (List.getElem?_eq_none_iff.mp hend)]
  | print offset c =>
      cases hstep
      exact hs.move (by rw [hprocess]; rfl) hconsistent
  | unlock =>
      cases hstep
      have hwhole : Whole dataString.bytes s.content :=
        @Invariant.whole_of_lock _ _ _ _ hs pid (by rw [hprocess]; rfl)
      refine hs.release rfl ?_ (fun _ => hwhole)
      change Whole dataString.bytes output
      rw [show output = s.content from hconsistent]
      exact hwhole
  | close =>
      cases hstep
      exact hs.exit (by rw [hprocess]; rfl) rfl hconsistent
  | exited => cases hstep

theorem step_invariant {s next : State Pid} {action : Action Pid}
    (hs : Invariant dataString.bytes s)
    (hstep : step dataString s action = some next) :
    Invariant dataString.bytes next := by
  cases action with
  | call pid =>
      simp only [step] at hstep
      split at hstep
      · rename_i call hprocess
        exact stepProducer_invariant hs hprocess hstep
      · rename_i call output hprocess
        exact stepConsumer_invariant hs hprocess hstep
  | halt pid =>
      simp only [step] at hstep
      split_ifs at hstep with hnone
      cases hstep
      have hfree : (s.processes pid).lockType = none := by
        rw [Option.eq_none_iff_forall_ne_some]
        intro type htype
        have hlock := (hs.mem_locks pid type).mpr htype
        simpa using List.all_eq_true.mp hnone _ hlock
      have hconsistent := hs.consistent pid
      cases hprocess : s.processes pid with
      | producer call =>
          exact hs.move (by rw [hfree]; rfl) trivial
      | consumer call output =>
          rw [hprocess] at hfree hconsistent
          refine hs.move (by rw [hprocess, hfree]; rfl) ?_
          change Whole dataString.bytes output
          cases call <;> simp [Process.lockType] at hfree
          all_goals first
            | exact hconsistent
            | exact Or.inl hconsistent

theorem reachable_invariant {present : Bool} {programs : Pid → Program}
    {s : State Pid}
    (hs : Reachable (step dataString) (initial present programs) s) :
    Invariant dataString.bytes s :=
  Reachable.invariant (initial_invariant dataString.bytes present programs)
    (fun _ _ _ => step_invariant) hs

/-! ## What the programs observe -/

/-- A producer between its lock and its unlock. -/
def Process.Writing : Process → Prop
  | .producer (.write _) | .producer .unlock => True
  | _ => False

/-- A consumer whose next call is a `read`. -/
def Process.Reading : Process → Prop
  | .consumer (.read _) _ => True
  | _ => False

/-- The output of a consumer that has left its loop. -/
def Process.printed : Process → Option (List UInt8)
  | .consumer .unlock output | .consumer .close output
  | .consumer .exited output => some output
  | _ => none

theorem Process.Writing.lockType {process : Process}
    (hprocess : process.Writing) : process.lockType = some .write := by
  cases process with
  | producer call => cases call <;> first | rfl | cases hprocess
  | consumer call output => cases hprocess

theorem Process.Reading.lockType {process : Process}
    (hprocess : process.Reading) : process.lockType = some .read := by
  cases process with
  | producer call => cases hprocess
  | consumer call output => cases call <;> first | rfl | cases hprocess

theorem Whole.isPrefix {bytes content : List UInt8}
    (hcontent : Whole bytes content) : content <+: bytes := by
  rcases hcontent with hempty | hfull
  · rw [hempty]
    exact List.nil_prefix
  · rw [hfull]

theorem Invariant.printed_whole {bytes : List UInt8} {s : State Pid}
    (hs : Invariant bytes s) {pid : Pid} {output : List UInt8}
    (hprinted : (s.processes pid).printed = some output) :
    Whole bytes output := by
  have hconsistent := hs.consistent pid
  cases hprocess : s.processes pid with
  | producer call =>
      rw [hprocess] at hprinted
      cases hprinted
  | consumer call written =>
      rw [hprocess] at hprinted hconsistent
      cases call <;> cases hprinted
      · rw [show output = s.content from hconsistent]
        exact @Invariant.whole_of_lock _ _ _ _ hs pid (by rw [hprocess]; rfl)
      · exact hconsistent
      · exact hconsistent

theorem Invariant.output_isPrefix {bytes : List UInt8} {s : State Pid}
    (hs : Invariant bytes s) {pid : Pid} {call : ConsumerCall}
    {output : List UInt8}
    (hprocess : s.processes pid = .consumer call output) :
    output <+: bytes := by
  have hconsistent := hs.consistent pid
  have hcontent : (s.processes pid).lockType = some .read →
      s.content <+: bytes :=
    fun hlock => (hs.whole_of_lock hlock).isPrefix
  rw [hprocess] at hconsistent hcontent
  cases call with
  | read offset =>
      rw [hconsistent.1]
      exact (List.take_prefix _ _).trans (hcontent rfl)
  | print offset c =>
      have htake : output ++ [c] <+: bytes := by
        rw [hconsistent.1]
        exact (List.take_prefix _ _).trans (hcontent rfl)
      exact (List.prefix_append _ _).trans htake
  | unlock =>
      rw [show output = s.content from hconsistent]
      exact hcontent rfl
  | close => exact hconsistent.isPrefix
  | exited => exact hconsistent.isPrefix
  | openFile | getLock | setLock =>
      rw [show output = [] from hconsistent]
      exact List.nil_prefix

/-- The file is empty or complete unless the write lock is held, nobody reads
while a producer has the lock, and a consumer prints nothing or everything. -/
theorem file_whole_and_printed_whole {present : Bool}
    {programs : Pid → Program} {s : State Pid}
    (hs : Reachable (step dataString) (initial present programs) s) :
    ((∀ pid, (pid, .write) ∉ s.locks.locks) →
      s.content = [] ∨ s.content = dataString.bytes) ∧
    (∀ pid other, (s.processes pid).Reading → ¬(s.processes other).Writing) ∧
    (∀ pid call output, s.processes pid = .consumer call output →
      output <+: dataString.bytes) ∧
    (∀ pid output, (s.processes pid).printed = some output →
      output = [] ∨ output = dataString.bytes) := by
  have hinv := reachable_invariant hs
  refine ⟨hinv.settled, ?_, ?_, ?_⟩
  · intro pid other hreading hwriting
    have hread := (hinv.mem_locks pid .read).mpr hreading.lockType
    have hwrite := (hinv.mem_locks other .write).mpr hwriting.lockType
    cases Table.exclusive hwrite hread
  · intro pid call output hprocess
    exact hinv.output_isPrefix hprocess
  · intro pid output hprinted
    exact hinv.printed_whole hprinted

/-- A producer writes two bytes, and a consumer prints them. -/
theorem file_whole_and_printed_whole_two :
    ∃ s : State Bool, Reachable (step ⟨[104, 105], by decide⟩)
        (initial false fun pid => if pid then .consumer else .producer) s ∧
      (s.processes true).printed = some [104, 105] ∧
      ((∀ pid, (pid, .write) ∉ s.locks.locks) →
        s.content = [] ∨ s.content = [104, 105]) := by
  have hrun : (run (step ⟨[104, 105], by decide⟩)
      (initial false fun pid => if pid then .consumer else .producer)
      (List.replicate 7 (.call false) ++ List.replicate 10 (.call true))).map
        (fun s => (s.processes true).printed) = some (some [104, 105]) := by
    decide +kernel
  rcases Option.map_eq_some_iff.mp hrun with ⟨s, hs, hprinted⟩
  exact ⟨s, ⟨_, hs⟩, hprinted, (file_whole_and_printed_whole ⟨_, hs⟩).1⟩

end Miscellaneous.FlockFile
