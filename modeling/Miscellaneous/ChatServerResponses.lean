import Miscellaneous.ChatServerInvariant
import Miscellaneous.HttpFraming
import Mathlib.Tactic

/-!
# The responses of the chat server

The server answers every chunk with one call of `send` for the whole message,
and does not send again what the call has not taken.  The body of the message
is one character longer than its `Content-Length`.  So the stream of a
connection consists of responses exactly when every call has taken all of the
message but its last character.
-/

namespace Miscellaneous.ChatServer

open GuardedRuns HttpFraming

/-- The lengths of the chunks of a connection, and how many characters each
call of `send` has taken. -/
structure Exchange where
  chunks : List ℕ
  counts : List ℕ

/-- A descriptor that `accept` returns again is another connection. -/
def noteExchange (fd : ℕ) (exchange : Exchange) (state : State) :
    Answer → Exchange
  | .accepted newSd => if newSd = fd then ⟨[], []⟩ else exchange
  | .received len =>
      if state.i = fd then { exchange with chunks := exchange.chunks ++ [len] }
      else exchange
  | .sent count =>
      if state.i = fd then { exchange with counts := exchange.counts ++ [count] }
      else exchange
  | _ => exchange

/-- A run with what is exchanged over a descriptor. -/
def runWithExchange (setting : Setting) (fd : ℕ) (answers : List Answer) :
    Option (State × Exchange) :=
  run (recording (step setting) (noteExchange fd)) (initial setting, ⟨[], []⟩)
    answers

theorem exists_runWithExchange_iff {setting : Setting} {fd : ℕ}
    {answers : List Answer} {s : State} :
    (∃ exchange, runWithExchange setting fd answers = some (s, exchange)) ↔
      run (step setting) (initial setting) answers = some s :=
  exists_run_recording_iff

/-- The client's end of the connection. -/
def Exchange.stream (exchange : Exchange) : List Char :=
  (exchange.counts.map fun count => message.toList.take count).flatten

/-- The stream consists of one response for every chunk. -/
def Exchange.Framed (exchange : Exchange) : Prop :=
  ∃ responses, splitStream exchange.stream = some responses ∧
    responses.length = exchange.chunks.length

/-- The server is between a `recv` and its `send`, or behind the error that ends
the connection. -/
def State.Unanswered (s : State) (fd : ℕ) : Prop :=
  s.i = fd ∧ (s.pc = .sending ∨ s.pc = .closing ∧ s.closeConn = true)

/-- The connection is open, and the latest chunk is answered. -/
def State.KeptOpen (s : State) (fd : ℕ) : Prop :=
  fd ∈ s.masterSet ∧ ¬s.Unanswered fd

/-! ## A call of `send` for every chunk -/

structure Answered (fd : ℕ) (entry : State × Exchange) : Prop where
  sending : fd ∈ entry.1.masterSet → entry.1.pc = .sending → entry.1.i = fd →
    entry.2.counts.length + 1 = entry.2.chunks.length
  keptOpen : entry.1.KeptOpen fd →
    entry.2.counts.length = entry.2.chunks.length

theorem Answered.of_same {fd : ℕ} {s next : State} {exchange : Exchange}
    (hanswered : Answered fd (s, exchange))
    (hmaster : fd ∈ next.masterSet → fd ∈ s.masterSet)
    (hbefore : fd ∈ next.masterSet → ¬s.Unanswered fd)
    (hafter : next.pc ≠ .sending) : Answered fd (next, exchange) := by
  constructor
  · intro _ hpc
    exact absurd hpc hafter
  · rintro ⟨hmem, _⟩
    exact hanswered.keptOpen ⟨hmaster hmem, hbefore hmem⟩

theorem not_unanswered {s : State} (hsending : s.pc ≠ .sending)
    (hclosing : s.pc ≠ .closing) (fd : ℕ) : ¬s.Unanswered fd := by
  rintro ⟨_, hpc | ⟨hpc, _⟩⟩
  · exact hsending hpc
  · exact hclosing hpc

theorem Answered.received {fd : ℕ} {s : State} {exchange : Exchange}
    (hanswered : Answered fd (s, exchange)) (hpc : s.pc = .receiving) (len : ℕ) :
    Answered fd ({ s with pc := .sending }.log (.recv s.i),
      noteExchange fd exchange s (.received len)) := by
  have hbefore (hmem : fd ∈ s.masterSet) :
      exchange.counts.length = exchange.chunks.length :=
    hanswered.keptOpen
      ⟨hmem, not_unanswered (by simp [hpc]) (by simp [hpc]) fd⟩
  constructor
  · intro hmem _ (hi : s.i = fd)
    simp only [noteExchange, hi, if_true, List.length_append,
      List.length_singleton]
    rw [hbefore hmem]
  · rintro ⟨hmem, hanswer⟩
    have hi : s.i ≠ fd := fun hi => hanswer ⟨hi, Or.inl rfl⟩
    simp only [noteExchange, hi, if_false]
    exact hbefore hmem

theorem Answered.sent {fd : ℕ} {s : State} {exchange : Exchange}
    (hanswered : Answered fd (s, exchange)) (hpc : s.pc = .sending)
    (count : ℕ) :
    Answered fd ({ s with pc := .receiving }.log (.send s.i),
      noteExchange fd exchange s (.sent count)) := by
  by_cases hi : s.i = fd
  · constructor
    · intro _ hsending
      cases hsending
    · rintro ⟨hmem, _⟩
      simp only [noteExchange, hi, if_true, List.length_append,
        List.length_singleton]
      exact hanswered.sending hmem hpc hi
  · simp only [noteExchange, hi, if_false]
    exact hanswered.of_same id (fun _ h => hi h.1) (by simp [State.log])

/-- One step: a chunk is noted before its `send`, and an error of the `send`
ends the connection. -/
theorem Answered.step {setting : Setting} {fd : ℕ} {s next : State}
    {exchange : Exchange} {answer : Answer}
    (hanswered : Answered fd (s, exchange))
    (hstep : step setting s answer = some next) :
    Answered fd (next, noteExchange fd exchange s answer) := by
  have hidle (hsending : s.pc ≠ .sending) (hclosing : s.pc ≠ .closing)
      (hnew : answer ≠ .accepted fd) (hafter : next.pc ≠ .sending) :
      Answered fd (next, exchange) := by
    apply hanswered.of_same _ (fun _ => not_unanswered hsending hclosing fd)
      hafter
    intro hmem
    exact (mem_masterSet_of_step hstep hmem).resolve_right fun h => hnew h.1
  cases step_transition hstep with
  | selectFailed hpc =>
      exact hidle (by simp [hpc]) (by simp [hpc]) (by simp) (by simp)
  | @selectedNone ready hpc _ _ =>
      apply hidle (by simp [hpc]) (by simp [hpc]) (by simp)
      rcases State.loop_pc { s with workingSet := ready } with h | h <;> simp [h]
  | selected hpc _ _ =>
      exact hidle (by simp [hpc]) (by simp [hpc]) (by simp) (by simp)
  | sweepEnd hpc _ =>
      apply hidle (by simp [hpc]) (by simp [hpc]) (by simp)
      rcases State.loop_pc s with h | h <;> simp [h]
  | sweepSkip hpc _ _ _ =>
      exact hidle (by simp [hpc]) (by simp [hpc]) (by simp) (by simp [State.next])
  | sweepListening hpc _ _ _ _ =>
      exact hidle (by simp [hpc]) (by simp [hpc]) (by simp) (by simp)
  | sweepConnection hpc _ _ _ _ =>
      exact hidle (by simp [hpc]) (by simp [hpc]) (by simp) (by simp)
  | @accepted newSd hpc _ _ =>
      have hsending : (s.addConnection newSd).pc ≠ .sending := by
        rcases s.addConnection_pc newSd with h | h <;> simp [h, hpc]
      by_cases hnew : newSd = fd
      · simp only [noteExchange, hnew, if_true]
        exact ⟨fun _ h => absurd h (hnew ▸ hsending), fun _ => rfl⟩
      · simp only [noteExchange, hnew, if_false]
        exact hidle (by simp [hpc]) (by simp [hpc]) (by simpa using hnew)
          hsending
  | acceptWouldBlock hpc =>
      exact hidle (by simp [hpc]) (by simp [hpc]) (by simp) (by simp [State.next])
  | acceptFailed hpc =>
      exact hidle (by simp [hpc]) (by simp [hpc]) (by simp) (by simp [State.next])
  | @received len hpc => exact hanswered.received hpc len
  | recvStop closeConn hpc hanswer =>
      have hsame : noteExchange fd exchange s answer = exchange := by
        rcases hanswer with rfl | rfl | rfl <;> rfl
      have hnew : answer ≠ .accepted fd := by
        rcases hanswer with rfl | rfl | rfl <;> simp
      rw [hsame]
      exact hidle (by simp [hpc]) (by simp [hpc]) hnew (by simp [State.log])
  | @sent count hpc => exact hanswered.sent hpc count
  | sendFailed hpc =>
      constructor
      · intro _ hsending
        cases hsending
      · rintro ⟨hmem, hunanswered⟩
        have hi : s.i ≠ fd := fun hi => hunanswered ⟨hi, Or.inr ⟨rfl, rfl⟩⟩
        exact hanswered.keptOpen ⟨hmem, fun h => hi h.1⟩
  | keep hpc hkeep =>
      refine @Answered.of_same fd s s.next exchange hanswered id ?_
        (by simp [State.next])
      rintro _ ⟨_, hsending | ⟨_, hclose⟩⟩
      · rw [hpc] at hsending
        cases hsending
      · rw [hkeep] at hclose
        cases hclose
  | close hpc _ _ =>
      apply hanswered.of_same Finset.mem_of_mem_erase _ (by simp [State.next])
      exact fun hmem h => (Finset.mem_erase.mp hmem).1 h.1.symm
  | closeFault hpc _ _ _ =>
      apply hanswered.of_same Finset.mem_of_mem_erase _ (by simp)
      exact fun hmem h => (Finset.mem_erase.mp hmem).1 h.1.symm
  | cleanup hpc =>
      exact hidle (by simp [hpc]) (by simp [hpc]) (by simp) (by simp)

def CountsFit (exchange : Exchange) : Prop :=
  ∀ count ∈ exchange.counts, 1 ≤ count ∧ count ≤ message.length

theorem CountsFit.step {setting : Setting} {fd : ℕ} {s next : State}
    {exchange : Exchange} {answer : Answer} (hfit : CountsFit exchange)
    (hcount : ∀ count, answer = .sent count → 1 ≤ count)
    (hstep : step setting s answer = some next) :
    CountsFit (noteExchange fd exchange s answer) := by
  cases answer with
  | accepted newSd =>
      simp only [noteExchange]
      split_ifs
      · intro count hmem
        cases hmem
      · exact hfit
  | received len =>
      simp only [noteExchange]
      split_ifs <;> exact hfit
  | sent count =>
      have hle : count ≤ message.length := by
        unfold ChatServer.step at hstep
        cases hpc : s.pc <;> rw [hpc] at hstep
        case sending =>
          simp only [stepSending] at hstep
          split_ifs at hstep with hle
          exact hle
        all_goals cases hstep
      simp only [noteExchange]
      split_ifs
      · intro other hother
        rcases List.mem_append.mp hother with hother | hother
        · exact hfit other hother
        · rw [List.mem_singleton] at hother
          exact hother ▸ ⟨hcount count rfl, hle⟩
      · exact hfit
  | _ => exact hfit

theorem answered_of_run {setting : Setting} {fd : ℕ} {answers : List Answer}
    {entry : State × Exchange}
    (hcounts : ∀ count, .sent count ∈ answers → 1 ≤ count)
    (hrun : runWithExchange setting fd answers = some entry) :
    Answered fd entry ∧ CountsFit entry.2 := by
  have hadmitted : ∀ answer ∈ answers, ∀ count, answer = .sent count →
      1 ≤ count := by
    rintro answer hanswer count rfl
    exact hcounts count hanswer
  have hinitial : Answered fd (initial setting, ⟨[], []⟩) := by
    constructor
    · intro _ hsending
      rcases initial_pc setting with hpc | hpc
      · cases hpc.symm.trans hsending
      · cases hpc.symm.trans hsending
    · intro _
      rfl
  refine @run_invariant_of_admitted _ _ _
    (fun entry : State × Exchange => Answered fd entry ∧ CountsFit entry.2) _ ?_
    _ hadmitted _ _ ⟨hinitial, fun count hmem => by cases hmem⟩ hrun
  rintro entry answer next hcount ⟨hanswered, hfit⟩ hnext
  rcases recording_eq_some.mp hnext with ⟨hstep, hrecord⟩
  have hanswered' := hanswered.step hstep
  rw [← hrecord] at hanswered'
  refine ⟨hanswered', ?_⟩
  rw [hrecord]
  exact hfit.step hcount hstep

/-! ## The message -/

def completeResponse : List Char := message.toList.take (message.length - 1)

theorem message_length : message.length = 131 := by
  decide +kernel

theorem message_toList : message.toList = completeResponse ++ ['\n'] := by
  decide +kernel

theorem isResponse_completeResponse : IsResponse completeResponse := by
  unfold IsResponse
  decide +kernel

/-- The message has one `H`, at its start. -/
theorem startsOnce_take {count : ℕ} (hpositive : 1 ≤ count) :
    StartsOnce 'H' (message.toList.take count) := by
  have hstart : message.toList = 'H' :: message.toList.drop 1 ∧
      'H' ∉ message.toList.drop 1 := by decide +kernel
  rcases hstart with ⟨hmessage, hrest⟩
  rcases Nat.exists_eq_add_of_le' hpositive with ⟨more, rfl⟩
  rw [hmessage, List.take_succ_cons]
  exact ⟨_, rfl, fun hmem => hrest (List.mem_of_mem_take hmem)⟩

/-- Of the beginnings of the message only one is a response. -/
theorem isResponse_take_iff {count : ℕ} (hle : count ≤ message.length) :
    IsResponse (message.toList.take count) ↔ count + 1 = message.length := by
  have hpositive : 1 ≤ message.length := by
    rw [message_length]
    decide
  constructor
  · intro hresponse
    have hread := hresponse.read (message.toList.drop count)
    have hcomplete := isResponse_completeResponse.read ['\n']
    rw [List.take_append_drop, message_toList, hcomplete, ← message_toList,
      Option.some.injEq, Prod.mk.injEq] at hread
    have hlength := congrArg List.length hread.1
    unfold completeResponse at hlength
    rw [List.length_take, List.length_take, String.length_toList] at hlength
    omega
  · intro hcount
    have hlast : count = message.length - 1 := by omega
    rw [hlast]
    exact isResponse_completeResponse

theorem head_of_isResponse {response : List Char}
    (hresponse : IsResponse response) : ∃ tail, response = 'H' :: tail := by
  rcases hresponse.statusStart_isPrefix with ⟨tail, rfl⟩
  exact ⟨_, rfl⟩

/-- While a connection is kept open, its stream consists of one response for
every chunk exactly when each call of `send` has taken all of the message but
its last character. -/
theorem responses_framed_iff {setting : Setting} {fd : ℕ}
    {answers : List Answer} {s : State} {exchange : Exchange}
    (hcounts : ∀ count, .sent count ∈ answers → 1 ≤ count)
    (hrun : runWithExchange setting fd answers = some (s, exchange))
    (hopen : s.KeptOpen fd) :
    exchange.Framed ↔
      ∀ count ∈ exchange.counts, count + 1 = message.length := by
  rcases answered_of_run hcounts hrun with ⟨hanswered, hfit⟩
  have hlength := hanswered.keptOpen hopen
  unfold Exchange.Framed Exchange.stream
  simp only [splitStream_eq_some]
  constructor
  · rintro ⟨responses, ⟨hflat, hresponses⟩, hnumber⟩ count hcount
    have hsame : responses =
        exchange.counts.map fun count => message.toList.take count := by
      refine @eq_pieces_of_flatten_eq _ 'H' _ _ _ ?_ ?_ ?_ hflat.symm
      · intro piece hpiece
        rcases List.mem_map.mp hpiece with ⟨accepted, haccepted, rfl⟩
        exact startsOnce_take (hfit accepted haccepted).1
      · exact fun response hresponse =>
          head_of_isResponse (hresponses response hresponse)
      · rw [List.length_map, hnumber, hlength]
    apply (isResponse_take_iff (hfit count hcount).2).mp
    apply hresponses
    rw [hsame]
    exact List.mem_map_of_mem hcount
  · intro hall
    refine ⟨_, ⟨rfl, ?_⟩, ?_⟩
    · intro response hresponse
      rcases List.mem_map.mp hresponse with ⟨count, hcount, rfl⟩
      exact (isResponse_take_iff (hfit count hcount).2).mpr (hall count hcount)
    · rw [List.length_map, hlength]

/-- One connection and one chunk; `send` takes `count` characters. -/
def oneChunk (count : ℕ) : List Answer :=
  [.selected {0}, .tau, .accepted 1, .acceptWouldBlock, .tau, .selected {1},
    .tau, .tau, .received 5, .sent count, .recvWouldBlock]

theorem oneChunk_run {count : ℕ} (hle : count ≤ message.length) :
    ∃ s exchange,
      runWithExchange ⟨0, fdSetSize⟩ 1 (oneChunk count) = some (s, exchange) ∧
        s.KeptOpen 1 ∧ exchange.counts = [count] := by
  have hbefore : ∃ entry,
      runWithExchange ⟨0, fdSetSize⟩ 1 ((oneChunk count).take 9) = some entry ∧
        entry.1.pc = .sending ∧ entry.1.i = 1 ∧ 1 ∈ entry.1.masterSet ∧
          entry.1.closeConn = false ∧ entry.2.counts = [] :=
    ⟨_, rfl, rfl, rfl, by decide, rfl, rfl⟩
  rcases hbefore with
    ⟨⟨s, exchange⟩, hrun, hpc, hi, hmem, hclose, hcounts⟩
  simp only at hpc hi hmem hclose hcounts
  let s' := { s with pc := .receiving }.log (.send s.i)
  let exchange' : Exchange := ⟨exchange.chunks, exchange.counts ++ [count]⟩
  have hsent : recording (step ⟨0, fdSetSize⟩) (noteExchange 1) (s, exchange)
      (.sent count) = some (s', exchange') :=
    recording_eq_some.mpr
      ⟨by simp only [step, hpc, stepSending, if_pos hle, s'],
        by simp only [noteExchange, if_pos hi, exchange']⟩
  have hblock : recording (step ⟨0, fdSetSize⟩) (noteExchange 1) (s', exchange')
      .recvWouldBlock =
        some ({ s' with pc := .closing }.log (.recv s'.i), exchange') :=
    recording_eq_some.mpr ⟨rfl, rfl⟩
  have hsplit : oneChunk count =
      (oneChunk count).take 9 ++ [.sent count, .recvWouldBlock] := rfl
  unfold runWithExchange at hrun ⊢
  rw [hsplit, run_append, hrun]
  refine ⟨_, exchange', run_cons_eq_some.mpr
    ⟨_, hsent, run_cons_eq_some.mpr ⟨_, hblock, rfl⟩⟩, ⟨hmem, ?_⟩, ?_⟩
  · rintro ⟨_, hsending | ⟨_, hclosing⟩⟩
    · cases hsending
    · cases hclose.symm.trans hclosing
  · exact congrArg (· ++ [count]) hcounts

theorem mem_oneChunk {count other : ℕ} :
    .sent other ∈ oneChunk count ↔ other = count := by
  simp [oneChunk]

theorem responses_framed_one :
    ∃ s exchange,
      runWithExchange ⟨0, fdSetSize⟩ 1 (oneChunk 130) = some (s, exchange) ∧
        exchange.Framed := by
  rcases @oneChunk_run 130 (by simp [message_length]) with
    ⟨s, exchange, hrun, hopen, hcounts⟩
  refine ⟨s, exchange, hrun, (responses_framed_iff ?_ hrun hopen).mpr ?_⟩
  · intro count hcount
    rw [mem_oneChunk] at hcount
    omega
  · rw [hcounts, message_length]
    decide

/-- When `send` takes the whole message, a character is left over. -/
theorem responses_not_framed :
    ¬∀ (setting : Setting) (fd : ℕ) (answers : List Answer) (s : State)
      (exchange : Exchange),
      (∀ count, .sent count ∈ answers → 1 ≤ count) →
        runWithExchange setting fd answers = some (s, exchange) →
          s.KeptOpen fd → exchange.Framed := by
  intro hall
  rcases @oneChunk_run 131 message_length.ge with
    ⟨s, exchange, hrun, hopen, hcounts⟩
  have hpositive : ∀ count, .sent count ∈ oneChunk 131 → 1 ≤ count := by
    intro count hcount
    rw [mem_oneChunk] at hcount
    omega
  rcases hall _ 1 _ s exchange hpositive hrun hopen with
    ⟨responses, hsplit, _⟩
  have hstream : exchange.stream = message.toList := by
    have hlength : message.toList.length ≤ 131 := by
      rw [String.length_toList, message_length]
    unfold Exchange.stream
    rw [hcounts, List.map_singleton, List.flatten_singleton,
      List.take_of_length_le hlength]
  have hnone : splitStream message.toList = none := by decide +kernel
  rw [hstream, hnone] at hsplit
  cases hsplit

end Miscellaneous.ChatServer
