import Miscellaneous.FifoPrimes
import Mathlib.Tactic

/-!
# What the reader counts

At every moment the bytes in the channel are the values that have been
written and not yet read, so every read takes one whole value.  The reader
leaves its loop when everything has been read, and its two `unsigned`
counters are then the number of values and of primes modulo `2 ^ 32`.
-/

namespace Miscellaneous.FifoPrimes

open ByteRecords PrimeTest GuardedRuns

def isPrimeValue (value : Int32) : Bool := decide value.toInt.toNat.Prime

theorem length_intBytes (value : Int32) : (intBytes value).length = intSize :=
  length_littleEndian _ _

theorem intOfBytes_intBytes (value : Int32) :
    intOfBytes (intBytes value) = value := by
  have hsmall : value.toUInt32.toNat < 256 ^ intSize :=
    value.toUInt32.toNat_lt
  rw [intOfBytes, intBytes, ofLittleEndian_littleEndian hsmall]
  simp

theorem isPrime_value {value : Int32} (hvalue : 0 ≤ value) :
    isPrime value.toUInt32 =
      .ok (if isPrimeValue value = true then 1 else 0) := by
  have htoNat : value.toUInt32.toNat = value.toInt.toNat :=
    Int32.toNat_toUInt32_of_le hvalue
  have hlt : value.toInt < 2 ^ 31 := value.toInt_lt
  have hsmall : value.toUInt32.toNat < 65531 * 65531 := by
    rw [htoNat]
    omega
  rw [isPrime_spec hsmall, htoNat]
  simp [isPrimeValue]

/-! ## The transitions -/

/-- What one step can do, with the guards it passed. -/
inductive Transition (setting : Setting) (s : State) : Action → State → Prop where
  | write {chunk : List Int32} (hi : s.i < setting.maxLoops)
      (hj : s.j < chunkSize) (hlength : chunk.length = intsPerChunk)
      (hvalues : ∀ value ∈ chunk, 0 ≤ value) :
      Transition setting s (.write chunk)
        { s with
          j := s.j + 1
          fifo := s.fifo ++ chunk.flatMap intBytes
          sent := s.sent ++ chunk }
  | pause (hi : s.i < setting.maxLoops) (hj : s.j = chunkSize) :
      Transition setting s .pause { s with i := s.i + 1, j := 0 }
  | closeWriteEnd (hi : s.i = setting.maxLoops) (hopen : s.writeEnd = true) :
      Transition setting s .closeWriteEnd { s with writeEnd := false }
  | readEnd (hreading : s.reading = true) (hfifo : s.fifo = [])
      (hclosed : s.writeEnd = false) :
      Transition setting s .read { s with reading := false }
  | read {next : State} (hreading : s.reading = true) (hfifo : s.fifo ≠ [])
      (hnext : { s with
        fifo := s.fifo.drop intSize
        reads := s.reads ++ [s.fifo.take intSize] }.receive
          (s.fifo.take intSize) = some next) :
      Transition setting s .read next

theorem step_transition {setting : Setting} {s next : State} {action : Action}
    (hstep : step setting s action = some next) :
    Transition setting s action next := by
  cases action with
  | write chunk =>
      simp only [step, stepWrite] at hstep
      split_ifs at hstep with hguard
      cases hstep
      have hvalues : ∀ value ∈ chunk, 0 ≤ value := by
        simpa using hguard.2.2.2.1
      exact .write hguard.1 hguard.2.1 hguard.2.2.1 hvalues
  | pause =>
      simp only [step, stepPause] at hstep
      split_ifs at hstep with hguard
      cases hstep
      exact .pause hguard.1 hguard.2
  | closeWriteEnd =>
      simp only [step, stepCloseWriteEnd] at hstep
      split_ifs at hstep with hguard
      cases hstep
      exact .closeWriteEnd hguard.1 hguard.2
  | read =>
      simp only [step, stepRead] at hstep
      split_ifs at hstep with hreading hfifo hopen
      · cases hstep
        exact .readEnd hreading hfifo (by simpa using hopen)
      · exact .read hreading hfifo hstep

/-! ## The invariant -/

/-- The values that have been read and those that are still in the channel. -/
structure InFlight (received waiting : List Int32) (s : State) : Prop where
  sent : s.sent = received ++ waiting
  reads : s.reads = received.map intBytes
  fifo : s.fifo = waiting.flatMap intBytes
  total : s.total = UInt32.ofNat received.length
  primesCount : s.primesCount = UInt32.ofNat (received.countP isPrimeValue)

structure Invariant (setting : Setting) (s : State) : Prop where
  i_le : s.i ≤ setting.maxLoops
  j_le : s.j ≤ chunkSize
  done : s.i = setting.maxLoops → s.j = 0
  length_sent : s.sent.length =
    intsPerChunk * (chunkSize * s.i + s.j)
  values : ∀ value ∈ s.sent, 0 ≤ value
  closed : s.writeEnd = false → s.i = setting.maxLoops
  left : s.reading = false → s.writeEnd = false ∧ s.fifo = []
  flight : ∃ received waiting, InFlight received waiting s

theorem initial_invariant (setting : Setting) :
    Invariant setting initial where
  i_le := Nat.zero_le _
  j_le := Nat.zero_le _
  done := fun _ => rfl
  length_sent := rfl
  values := by simp [initial]
  closed := by simp [initial]
  left := by simp [initial]
  flight := ⟨[], [], rfl, rfl, rfl, rfl, rfl⟩

def State.receiveValue (s : State) (value : Int32) (waiting : List Int32) :
    State :=
  { s with
    fifo := waiting.flatMap intBytes
    reads := s.reads ++ [intBytes value]
    total := s.total + 1
    primesCount := if isPrimeValue value then s.primesCount + 1
      else s.primesCount }

theorem receive_eq {s : State} {value : Int32} {waiting : List Int32}
    (hfifo : s.fifo = (value :: waiting).flatMap intBytes)
    (hvalue : 0 ≤ value) :
    { s with
      fifo := s.fifo.drop intSize
      reads := s.reads ++ [s.fifo.take intSize] }.receive
        (s.fifo.take intSize) = some (s.receiveValue value waiting) := by
  have htake : s.fifo.take intSize = intBytes value := by
    rw [hfifo, take_flatMap_encode length_intBytes]
  have hdrop : s.fifo.drop intSize = waiting.flatMap intBytes := by
    rw [hfifo, drop_flatMap_encode length_intBytes]
  rw [htake, hdrop]
  unfold State.receive
  rw [if_pos (length_intBytes value), intOfBytes_intBytes,
    isPrime_value hvalue]
  cases hprime : isPrimeValue value with
  | false => simp [State.receiveValue, hprime]
  | true => simp [State.receiveValue, hprime]

theorem InFlight.receiveValue {received waiting : List Int32} {value : Int32}
    {s : State} (hflight : InFlight received (value :: waiting) s) :
    InFlight (received ++ [value]) waiting (s.receiveValue value waiting) where
  sent := by
    simp [State.receiveValue, hflight.sent]
  reads := by
    simp [State.receiveValue, hflight.reads]
  fifo := rfl
  total := by
    simp [State.receiveValue, hflight.total]
  primesCount := by
    cases hprime : isPrimeValue value with
    | false => simp [State.receiveValue, hflight.primesCount, hprime]
    | true => simp [State.receiveValue, hflight.primesCount, hprime]

theorem Invariant.read_eq {setting : Setting} {s next : State}
    (hinv : Invariant setting s) (hfifo : s.fifo ≠ [])
    (hnext : { s with
      fifo := s.fifo.drop intSize
      reads := s.reads ++ [s.fifo.take intSize] }.receive
        (s.fifo.take intSize) = some next) :
    ∃ received value waiting, InFlight received (value :: waiting) s ∧
      next = s.receiveValue value waiting := by
  rcases hinv.flight with ⟨received, waiting, hflight⟩
  cases waiting with
  | nil => exact absurd hflight.fifo hfifo
  | cons value waiting =>
      have hvalue : 0 ≤ value := hinv.values value (by simp [hflight.sent])
      rw [receive_eq hflight.fifo hvalue, Option.some.injEq] at hnext
      exact ⟨received, value, waiting, hflight, hnext.symm⟩

theorem Invariant.write {setting : Setting} {s : State} {chunk : List Int32}
    (hinv : Invariant setting s) (hi : s.i < setting.maxLoops)
    (hj : s.j < chunkSize) (hlength : chunk.length = intsPerChunk)
    (hvalues : ∀ value ∈ chunk, 0 ≤ value) :
    Invariant setting
      { s with
        j := s.j + 1
        fifo := s.fifo ++ chunk.flatMap intBytes
        sent := s.sent ++ chunk } where
  i_le := hinv.i_le
  j_le := hj
  done := fun hdone => absurd hdone hi.ne
  length_sent := by
    rw [List.length_append, hinv.length_sent, hlength]
    ring
  values := by
    intro value hmem
    rcases List.mem_append.mp hmem with hmem | hmem
    · exact hinv.values value hmem
    · exact hvalues value hmem
  closed := hinv.closed
  left := by
    intro hleft
    have hdone := hinv.closed (hinv.left hleft).1
    exact absurd hdone hi.ne
  flight := by
    rcases hinv.flight with ⟨received, waiting, hflight⟩
    refine ⟨received, waiting ++ chunk, ?_, hflight.reads, ?_, hflight.total,
      hflight.primesCount⟩
    · simp [hflight.sent]
    · simp [hflight.fifo]

theorem Invariant.receiveValue {setting : Setting} {s : State}
    {received waiting : List Int32} {value : Int32}
    (hinv : Invariant setting s) (hreading : s.reading = true)
    (hflight : InFlight received (value :: waiting) s) :
    Invariant setting (s.receiveValue value waiting) where
  i_le := hinv.i_le
  j_le := hinv.j_le
  done := hinv.done
  length_sent := hinv.length_sent
  values := hinv.values
  closed := hinv.closed
  left := by
    intro hleft
    have hleft' : s.reading = false := hleft
    rw [hreading] at hleft'
    contradiction
  flight := ⟨_, _, hflight.receiveValue⟩

/-- A step of neither the values nor the counters of the reader. -/
theorem Invariant.of_same {setting : Setting} {s next : State}
    (hinv : Invariant setting s) (hsent : next.sent = s.sent)
    (hreads : next.reads = s.reads) (hfifo : next.fifo = s.fifo)
    (htotal : next.total = s.total)
    (hprimes : next.primesCount = s.primesCount)
    (hi : next.i ≤ setting.maxLoops) (hj : next.j ≤ chunkSize)
    (hdone : next.i = setting.maxLoops → next.j = 0)
    (hposition : chunkSize * next.i + next.j = chunkSize * s.i + s.j)
    (hclosed : next.writeEnd = false → next.i = setting.maxLoops)
    (hleft : next.reading = false → next.writeEnd = false ∧ s.fifo = []) :
    Invariant setting next where
  i_le := hi
  j_le := hj
  done := hdone
  length_sent := by rw [hsent, hinv.length_sent, hposition]
  values := hsent ▸ hinv.values
  closed := hclosed
  left := hfifo ▸ hleft
  flight := by
    rcases hinv.flight with ⟨received, waiting, hflight⟩
    exact ⟨received, waiting, hsent ▸ hflight.sent, hreads ▸ hflight.reads,
      hfifo ▸ hflight.fifo, htotal ▸ hflight.total,
      hprimes ▸ hflight.primesCount⟩

theorem Invariant.step {setting : Setting} {s next : State} {action : Action}
    (hinv : Invariant setting s)
    (hstep : step setting s action = some next) : Invariant setting next := by
  cases step_transition hstep with
  | write hi hj hlength hvalues => exact hinv.write hi hj hlength hvalues
  | pause hi hj =>
      have hposition : chunkSize * (s.i + 1) + 0 = chunkSize * s.i + s.j := by
        rw [hj, Nat.mul_succ, Nat.add_zero]
      exact hinv.of_same rfl rfl rfl rfl rfl hi (Nat.zero_le _)
        (fun _ => rfl) hposition
        (fun hclosed => absurd (hinv.closed hclosed) hi.ne) hinv.left
  | closeWriteEnd hi _ =>
      exact hinv.of_same rfl rfl rfl rfl rfl hinv.i_le hinv.j_le hinv.done rfl
        (fun _ => hi) (fun hleft => ⟨rfl, (hinv.left hleft).2⟩)
  | readEnd _ hfifo hclosed =>
      exact hinv.of_same rfl rfl rfl rfl rfl hinv.i_le hinv.j_le hinv.done rfl
        hinv.closed (fun _ => ⟨hclosed, hfifo⟩)
  | read hreading hfifo hnext =>
      rcases hinv.read_eq hfifo hnext with
        ⟨received, value, waiting, hflight, rfl⟩
      exact hinv.receiveValue hreading hflight

/-! ## Every run comes to its end -/

def stepsLeft (setting : Setting) (s : State) : ℕ :=
  (17 * (setting.maxLoops - s.i) - s.j) +
    (64 * setting.maxLoops - s.reads.length) +
    s.writeEnd.toNat + s.reading.toNat

theorem stepsLeft_step {setting : Setting} {s next : State} {action : Action}
    (hinv : Invariant setting s)
    (hstep : step setting s action = some next) :
    stepsLeft setting next + 1 ≤ stepsLeft setting s := by
  have hj : s.j ≤ 16 := hinv.j_le
  cases step_transition hstep with
  | write hi hj' _ _ =>
      have hj'' : s.j < 16 := hj'
      simp only [stepsLeft]
      omega
  | pause hi hj' =>
      have hj'' : s.j = 16 := hj'
      simp only [stepsLeft]
      omega
  | closeWriteEnd _ hopen =>
      simp only [stepsLeft, hopen, Bool.toNat_true, Bool.toNat_false]
      omega
  | readEnd hreading _ _ =>
      simp only [stepsLeft, hreading, Bool.toNat_true, Bool.toNat_false]
      omega
  | read hreading hfifo hnext =>
      rcases hinv.read_eq hfifo hnext with
        ⟨received, value, waiting, hflight, rfl⟩
      have hsent : s.sent.length = 4 * (16 * s.i + s.j) := hinv.length_sent
      have hwaiting : s.reads.length < s.sent.length := by
        rw [hflight.reads, hflight.sent]
        simp
      have hbound : s.sent.length ≤ 64 * setting.maxLoops := by
        have hi := hinv.i_le
        have hdone := hinv.done
        omega
      simp only [stepsLeft, State.receiveValue, List.length_append,
        List.length_singleton]
      omega

def Action.WritesZeros : Action → Prop
  | .write chunk => chunk = List.replicate intsPerChunk 0
  | _ => True

theorem exists_step {setting : Setting} {s : State}
    (hinv : Invariant setting s)
    (hcapacity : intsPerChunk * intSize ≤ setting.capacity)
    (hreading : s.reading = true) :
    ∃ action next, action.WritesZeros ∧
      step setting s action = some next := by
  by_cases hfifo : s.fifo = []
  · cases hopen : s.writeEnd with
    | false =>
        exact ⟨.read, { s with reading := false }, trivial, by
          simp [step, stepRead, hreading, hfifo, hopen]⟩
    | true =>
        by_cases hi : s.i < setting.maxLoops
        · by_cases hj : s.j < chunkSize
          · refine ⟨.write (List.replicate intsPerChunk 0), ?_⟩
            have hguard : s.i < setting.maxLoops ∧ s.j < chunkSize ∧
                (List.replicate intsPerChunk (0 : Int32)).length =
                  intsPerChunk ∧
                (List.replicate intsPerChunk (0 : Int32)).all (0 ≤ ·) =
                  true ∧
                s.fifo.length + intsPerChunk * intSize ≤
                  setting.capacity := by
              refine ⟨hi, hj, List.length_replicate, rfl, ?_⟩
              simpa [hfifo] using hcapacity
            simp only [step, stepWrite, if_pos hguard]
            exact ⟨_, rfl, rfl⟩
          · have hguard : s.i < setting.maxLoops ∧ s.j = chunkSize :=
              ⟨hi, le_antisymm hinv.j_le (not_lt.mp hj)⟩
            refine ⟨.pause, ?_⟩
            simp only [step, stepPause, if_pos hguard]
            exact ⟨_, trivial, rfl⟩
        · have hguard : s.i = setting.maxLoops ∧ s.writeEnd = true :=
            ⟨le_antisymm hinv.i_le (not_lt.mp hi), hopen⟩
          refine ⟨.closeWriteEnd, ?_⟩
          simp only [step, stepCloseWriteEnd, if_pos hguard]
          exact ⟨_, trivial, rfl⟩
  · rcases hinv.flight with ⟨received, waiting, hflight⟩
    cases waiting with
    | nil => exact absurd hflight.fifo hfifo
    | cons value waiting =>
        have hvalue : 0 ≤ value := hinv.values value (by simp [hflight.sent])
        refine ⟨.read, s.receiveValue value waiting, trivial, ?_⟩
        simp only [step, stepRead, if_pos hreading, if_neg hfifo]
        exact receive_eq hflight.fifo hvalue

theorem Invariant.counts {setting : Setting} {s : State}
    (hinv : Invariant setting s) (hleft : s.reading = false) :
    s.reads = s.sent.map intBytes ∧
      s.sent.length = 64 * setting.maxLoops ∧
      s.total = UInt32.ofNat s.sent.length ∧
      s.primesCount = UInt32.ofNat (s.sent.countP isPrimeValue) := by
  rcases hinv.flight with ⟨received, waiting, hflight⟩
  rcases hinv.left hleft with ⟨hclosed, hfifo⟩
  have hnone : waiting = [] := by
    have hlength := length_flatMap_encode length_intBytes waiting
    rw [← hflight.fifo, hfifo, List.length_nil] at hlength
    have hzero : waiting.length = 0 := by
      simp only [intSize] at hlength
      omega
    exact List.length_eq_zero_iff.mp hzero
  have hsent : s.sent = received := by rw [hflight.sent, hnone, List.append_nil]
  have hi : s.i = setting.maxLoops := hinv.closed hclosed
  have hlength : s.sent.length = 4 * (16 * s.i + s.j) := hinv.length_sent
  rw [hinv.done hi, hi] at hlength
  refine ⟨?_, by omega, ?_, ?_⟩
  · rw [hflight.reads, hsent]
  · rw [hflight.total, hsent]
  · rw [hflight.primesCount, hsent]

/-- Every run of the two programs, for every number of outer iterations and
whatever is drawn.  The reads return the values written, one by one; at the
end the reader has seen all of them and counts them and the primes modulo
`2 ^ 32`, so exactly below `2 ^ 26` outer iterations.  The end is reached:
no run is longer than the bound, and until then one of the two can go on. -/
theorem reads_and_counts {setting : Setting} {s : State}
    {actions : List Action}
    (hrun : run (step setting) initial actions = some s) :
    s.reads <+: s.sent.map intBytes ∧
    (s.reading = false →
      s.reads = s.sent.map intBytes ∧
      s.sent.length = 64 * setting.maxLoops ∧
      s.total.toNat = s.sent.length % 2 ^ 32 ∧
      s.primesCount.toNat = s.sent.countP isPrimeValue % 2 ^ 32 ∧
      (setting.maxLoops < 2 ^ 26 →
        s.total.toNat = s.sent.length ∧
        s.primesCount.toNat = s.sent.countP isPrimeValue)) ∧
    (intsPerChunk * intSize ≤ setting.capacity → s.reading = true →
      ∃ action next, step setting s action = some next) ∧
    actions.length ≤ 81 * setting.maxLoops + 2 := by
  have hinv : Invariant setting s :=
    run_invariant (fun _ _ _ hstate hstep => hstate.step hstep)
      (initial_invariant setting) hrun
  refine ⟨?_, ?_, ?_, ?_⟩
  · rcases hinv.flight with ⟨received, waiting, hflight⟩
    rw [hflight.reads, hflight.sent, List.map_append]
    exact List.prefix_append _ _
  · intro hleft
    rcases hinv.counts hleft with ⟨hreads, hlength, htotal, hprimes⟩
    have htotal' : s.total.toNat = s.sent.length % 2 ^ 32 := by
      rw [htotal, UInt32.toNat_ofNat']
    have hprimes' : s.primesCount.toNat =
        s.sent.countP isPrimeValue % 2 ^ 32 := by
      rw [hprimes, UInt32.toNat_ofNat']
    refine ⟨hreads, hlength, htotal', hprimes', ?_⟩
    intro hloops
    have hcount : s.sent.countP isPrimeValue ≤ s.sent.length :=
      List.countP_le_length
    rw [htotal', hprimes']
    exact ⟨Nat.mod_eq_of_lt (by omega), Nat.mod_eq_of_lt (by omega)⟩
  · intro hcapacity hreading
    rcases exists_step hinv hcapacity hreading with ⟨action, next, _, hstep⟩
    exact ⟨action, next, hstep⟩
  · have hcount := @run_countP_add_rank_le State Action (step setting)
      (Invariant setting) (fun _ => True) (fun _ => true) (stepsLeft setting)
      (fun _ _ _ _ hstate hstep => hstate.step hstep)
      (fun _ _ _ _ hstate hstep => stepsLeft_step hstate hstep)
      actions (fun _ _ => trivial) _ _ (initial_invariant setting) hrun
    have hstart : stepsLeft setting initial = 81 * setting.maxLoops + 2 := by
      simp only [stepsLeft, initial, List.length_nil, Bool.toNat_true]
      omega
    rw [List.countP_true] at hcount
    omega

theorem reads_and_counts_once :
    ∃ s, run (step ⟨1, 65536⟩) initial
        (List.replicate 16 (.write [2, 3, 4, 5]) ++ [.pause, .closeWriteEnd] ++
          List.replicate 65 .read) = some s ∧
      s.total.toNat = s.sent.length ∧
      s.primesCount.toNat = s.sent.countP isPrimeValue := by
  have hrun : (run (step ⟨1, 65536⟩) initial
      (List.replicate 16 (.write [2, 3, 4, 5]) ++ [.pause, .closeWriteEnd] ++
        List.replicate 65 .read)).map State.reading = some false := by
    decide +kernel
  rcases Option.map_eq_some_iff.mp hrun with ⟨s, hs, hleft⟩
  exact ⟨s, hs, ((reads_and_counts hs).2.1 hleft).2.2.2.2 (by decide)⟩

/-- With `2 ^ 26` outer iterations of zeros `2 ^ 32` values are sent, and
`total` ends at zero. -/
theorem total_wraps :
    ∃ actions s, run (step ⟨2 ^ 26, 65536⟩) initial actions = some s ∧
      s.reading = false ∧ (∀ action ∈ actions, action.WritesZeros) ∧
      s.sent.length = 2 ^ 32 ∧ s.total.toNat = 0 ∧
      s.total.toNat ≠ s.sent.length := by
  have hcapacity : intsPerChunk * intSize ≤
      (⟨2 ^ 26, 65536⟩ : Setting).capacity := by decide
  have hend := @exists_run_to_final State Action (step ⟨2 ^ 26, 65536⟩)
    (Invariant ⟨2 ^ 26, 65536⟩) Action.WritesZeros
    (fun s => s.reading = false) (stepsLeft ⟨2 ^ 26, 65536⟩)
    (fun _ _ _ _ hstate hstep => hstate.step hstep)
    (fun _ _ _ _ hstate hstep => stepsLeft_step hstate hstep)
    (fun _ hstate hreading =>
      exists_step hstate hcapacity (by simpa using hreading))
    initial (initial_invariant _)
  rcases hend with ⟨actions, s, hzeros, hrun, hleft⟩
  have hinv : Invariant ⟨2 ^ 26, 65536⟩ s :=
    run_invariant (fun _ _ _ hstate hstep => hstate.step hstep)
      (initial_invariant _) hrun
  rcases hinv.counts hleft with ⟨_, hlength, htotal, _⟩
  have hlength' : s.sent.length = 2 ^ 32 := by
    rw [hlength]
    norm_num
  have hzero : s.total.toNat = 0 := by
    rw [htotal, hlength', UInt32.toNat_ofNat', Nat.mod_self]
  exact ⟨actions, s, hrun, hleft, hzeros, hlength', hzero, by omega⟩

end Miscellaneous.FifoPrimes
