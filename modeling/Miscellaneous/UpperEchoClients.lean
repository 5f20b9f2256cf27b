import Miscellaneous.IterativeServersProgress
import Miscellaneous.UpperEchoRuns
import Mathlib.Tactic

/-!
# All clients of the upper-casing server

The loop of `server_unix.c` around its conversations, with any number of
clients.  Its buffer is never cleared and passes from one client to the next.
What the clients get back is their own; what the server prints of a line goes
on with what is left in the buffer.

A write to a client that has gone is a step like any other here.  In the real
server it raises `SIGPIPE`, so that a run of the programs may end there.
-/

namespace Miscellaneous.UpperEcho

open GuardedRuns IterativeServers

def Action.isServer : Action → Bool
  | .clientFgets => false
  | .clientSend => false
  | .clientReceive _ => false
  | .clientDisplay => false
  | .serverReceive _ => true
  | .serverSend => true
  | .serverEof => true

def protocol : Protocol State Action (List UInt8) where
  step := step
  isServer := Action.isServer
  closed := fun s => s.server = .closed
  load := fun buf s => { s with serverBuf := buf }
  save := State.serverBuf

/-- A process of `client_unix.c` with what it finds in its buffer and on its
standard input. -/
structure Terminal where
  buf : List UInt8
  input : List UInt8
  size : buf.length = clientBufSize
  ascii : ∀ byte ∈ input, 0 < byte ∧ byte < 128

theorem Terminal.no_nul (terminal : Terminal) : (0 : UInt8) ∉ terminal.input :=
  fun hmem => absurd (terminal.ascii 0 hmem).1 (by decide)

/-- Nobody has connected yet. -/
def listening (terminals : ℕ → Terminal) (buf : List UInt8) :
    IterativeServers.State State (List UInt8) :=
  IterativeServers.initial (fun client =>
    initial (terminals client).buf buf (terminals client).input) buf

variable {s t : State} {action : Action}

/-- A client leaves the server's side alone. -/
theorem client_step (hside : action.isServer = false)
    (hstep : step s action = some t) :
    t.server = s.server ∧ t.serverBuf = s.serverBuf := by
  cases action with
  | clientFgets =>
      simp only [step, stepFgets] at hstep
      split_ifs at hstep <;> cases hstep <;> exact ⟨rfl, rfl⟩
  | clientSend =>
      simp only [step, stepClientSend] at hstep
      split_ifs at hstep
      cases hstep
      exact ⟨rfl, rfl⟩
  | clientReceive n =>
      simp only [step, stepClientReceive] at hstep
      split_ifs at hstep <;> cases hstep <;> exact ⟨rfl, rfl⟩
  | clientDisplay =>
      simp only [step] at hstep
      split at hstep
      · cases hstep
        exact ⟨rfl, rfl⟩
      · cases hstep
  | serverReceive n => cases hside
  | serverSend => cases hside
  | serverEof => cases hside

/-! ## What the clients get back -/

/-- The server has not accepted the client. -/
def Waits (input : List UInt8) (s : State) : Prop :=
  Invariant input s ∧ s.server = .receive

theorem Waits.load {input buf : List UInt8} (hwaits : Waits input s)
    (hbuf : buf.length = maxLine) :
    Invariant input { s with serverBuf := buf } := by
  rcases hwaits with ⟨hs, hserver⟩
  have hflight := hs.flight
  rw [hserver] at hflight
  refine ⟨hs.clientBuf, hbuf, hs.serverCount, hs.taken, ?_⟩
  simp only [hserver, ServerPoint.held] at hflight ⊢
  exact hflight

theorem Invariant.isPrefix {input : List UInt8} (hs : Invariant input s) :
    s.stdout <+: s.sent.map toupper ∧ s.sent <+: input := by
  constructor
  · rw [← hs.flight]
    simp only [List.append_assoc]
    exact List.prefix_append _ _
  · rw [← hs.taken, List.append_assoc]
    exact List.prefix_append _ _

theorem rules (terminals : ℕ → Terminal) {buf : List UInt8}
    (hbuf : buf.length = maxLine) (admits : State → Action → Prop) :
    protocol.Rules admits
      (fun client =>
        initial (terminals client).buf buf (terminals client).input)
      (fun client => Waits (terminals client).input)
      (fun client => Invariant (terminals client).input)
      (fun memory => memory.length = maxLine) where
  start := fun client =>
    ⟨initial_invariant (terminals client).size hbuf, rfl⟩
  client := by
    rintro client s action next ⟨hs, hserver⟩ hside _ hstep
    exact ⟨step_invariant (terminals client).no_nul hs hstep,
      (client_step hside hstep).1.trans hserver⟩
  load := fun hwaits hmemory => hwaits.load hmemory
  step := fun hs _ hstep => step_invariant (terminals _).no_nul hs hstep
  save := fun hs => hs.serverBuf
  loadOpen := by
    rintro _ s _ ⟨_, hserver⟩
    simp [protocol, hserver]
  clientClosed := by
    intro s action next hside hstep
    simp [protocol, (client_step hside hstep).1]

theorem sound_invariant {terminals : ℕ → Terminal}
    {system : IterativeServers.State State (List UInt8)}
    (hsound : protocol.Sound (fun client => Waits (terminals client).input)
      (fun client => Invariant (terminals client).input)
      (fun memory => memory.length = maxLine) system) (client : ℕ) :
    Invariant (terminals client).input (system.sessions client) := by
  by_cases hfinished : client ∈ system.finished
  · exact (hsound.served client hfinished).1
  · by_cases hserving : system.serving = some client
    · exact (hsound.serving client hserving).1
    · exact (hsound.waiting client hfinished hserving).1

/-! ## What the server prints -/

/-- What `printf("received: %s", buf)` shows of the buffer, unless it goes on
behind its end. -/
def received (buf : List UInt8) : Option (List UInt8) :=
  if (0 : UInt8) ∈ buf then some (CString.text buf) else none

/-- The buffer of the server, which is in the session while there is one. -/
def buffer (system : IterativeServers.State State (List UInt8)) : List UInt8 :=
  match system.serving with
  | some client => (system.sessions client).serverBuf
  | none => system.memory

theorem buffer_serving {system : IterativeServers.State State (List UInt8)}
    {client : ℕ} (hserving : system.serving = some client) :
    buffer system = (system.sessions client).serverBuf := by
  simp [buffer, hserving]

theorem buffer_idle {system : IterativeServers.State State (List UInt8)}
    (hserving : system.serving = none) : buffer system = system.memory := by
  simp [buffer, hserving]

def readLen : IterativeServers.Label Action → ℕ
  | .server (.serverReceive n) => n
  | .server .serverSend => 0
  | .server .serverEof => 0
  | .server .clientFgets => 0
  | .server .clientSend => 0
  | .server (.clientReceive _) => 0
  | .server .clientDisplay => 0
  | .client _ _ => 0
  | .connect _ => 0
  | .accept => 0

/-- The most bytes that one `read` of the server has returned. -/
def longestRead : List (IterativeServers.Label Action) → ℕ
  | [] => 0
  | label :: labels => max (readLen label) (longestRead labels)

/-- Up to the longest read there is no NUL in the buffer, and from there on it
is as it was at the start. -/
structure Filled (start : List UInt8) (longest : ℕ) (buf : List UInt8) :
    Prop where
  length : buf.length = maxLine
  rest : buf.drop longest = start.drop longest
  front : (0 : UInt8) ∉ buf.take longest

theorem toupper_eq_zero {c : UInt8} : toupper c = 0 ↔ c = 0 := by
  unfold toupper
  constructor
  · intro hzero
    split_ifs at hzero with hrange
    · exfalso
      rw [UInt8.le_iff_toNat_le, UInt8.le_iff_toNat_le] at hrange
      have hnat := congrArg UInt8.toNat hzero
      rw [UInt8.toNat_sub_of_le _ _ (by
        rw [UInt8.le_iff_toNat_le]
        exact (by decide : (32 : ℕ) ≤ 97).trans hrange.1)] at hnat
      have hlow : (97 : UInt8).toNat = 97 := rfl
      have hgap : (32 : UInt8).toNat = 32 := rfl
      have hnul : (0 : UInt8).toNat = 0 := rfl
      omega
    · exact hzero
  · rintro rfl
    rfl

variable {start buf : List UInt8} {longest n : ℕ}

theorem Filled.store (hbuf : Filled start longest buf) {received : List UInt8}
    (hreceived : (0 : UInt8) ∉ received) (hlength : received.length ≤ maxLine) :
    Filled start (max received.length longest)
      (CString.store buf received) where
  length := by
    rw [CString.length_store (hbuf.length.symm ▸ hlength), hbuf.length]
  rest := by
    have hall : max received.length longest =
        longest + (max received.length longest - longest) := by omega
    have hdrop : received.length +
        (max received.length longest - received.length) =
          max received.length longest := by omega
    rw [CString.store, List.drop_append, List.drop_eq_nil_of_le (le_max_left _ _),
      List.nil_append, List.drop_drop, hdrop, hall, ← List.drop_drop,
      ← List.drop_drop, hbuf.rest]
  front := by
    rw [CString.store, List.take_append]
    intro hmem
    rcases List.mem_append.mp hmem with hmem | hmem
    · exact hreceived (List.mem_of_mem_take hmem)
    · rw [← List.drop_take] at hmem
      rcases le_total longest received.length with hle | hle
      · simp [max_eq_left hle] at hmem
      · rw [max_eq_right hle] at hmem
        exact hbuf.front (List.mem_of_mem_drop hmem)

theorem Filled.upper (hbuf : Filled start longest buf) (hn : n ≤ longest)
    (hmax : n ≤ maxLine) :
    Filled start longest ((buf.take n).map toupper ++ buf.drop n) := by
  have hlength : ((buf.take n).map toupper).length = n := by
    rw [List.length_map, List.length_take_of_le (hbuf.length.symm ▸ hmax)]
  refine ⟨?_, ?_, ?_⟩
  · rw [List.length_append, hlength, List.length_drop, hbuf.length]
    omega
  · have hlongest : n + (longest - n) = longest := by omega
    rw [List.drop_append, hlength,
      List.drop_eq_nil_of_le (hlength.le.trans hn), List.nil_append,
      List.drop_drop, hlongest, hbuf.rest]
  · rw [List.take_append, hlength, List.take_of_length_le
      (hlength.le.trans hn), ← List.drop_take]
    intro hmem
    rcases List.mem_append.mp hmem with hmem | hmem
    · rcases List.mem_map.mp hmem with ⟨c, hc, hzero⟩
      rw [toupper_eq_zero] at hzero
      subst hzero
      exact hbuf.front (List.take_subset_take_left buf hn hc)
    · exact hbuf.front (List.mem_of_mem_drop hmem)

theorem Filled.mem_iff (hbuf : Filled start longest buf) :
    (0 : UInt8) ∈ buf ↔ (0 : UInt8) ∈ start.drop longest := by
  rw [← hbuf.rest]
  constructor
  · intro hmem
    rw [← List.take_append_drop longest buf] at hmem
    exact (List.mem_append.mp hmem).resolve_left hbuf.front
  · exact List.mem_of_mem_drop

theorem Filled.text (hbuf : Filled start longest buf) :
    CString.text buf =
      buf.take longest ++ CString.text (start.drop longest) := by
  have hfront : ∀ byte ∈ buf.take longest, decide (byte ≠ 0) = true := by
    intro byte hbyte
    exact decide_eq_true (ne_of_mem_of_not_mem hbyte hbuf.front)
  conv_lhs => rw [← List.take_append_drop longest buf]
  rw [CString.text, List.takeWhile_append_of_pos hfront, hbuf.rest,
    CString.text]

structure Log (start : List UInt8) (longest : ℕ)
    (system : IterativeServers.State State (List UInt8)) : Prop where
  filled : Filled start longest (buffer system)
  count : ∀ client n, system.serving = some client →
    (system.sessions client).server = .send n → n ≤ longest

variable {system next : IterativeServers.State State (List UInt8)}
  {label : IterativeServers.Label Action} {input : List UInt8} {client : ℕ}

theorem Invariant.upstream_no_nul (hs : Invariant input s)
    (hinput : (0 : UInt8) ∉ input) : (0 : UInt8) ∉ s.upstream := by
  intro hmem
  have hsent : (0 : UInt8) ∈ s.sent.map toupper := by
    rw [← hs.flight]
    exact List.mem_append_right _ (List.mem_map.mpr ⟨0, hmem, rfl⟩)
  rcases List.mem_map.mp hsent with ⟨c, hc, hzero⟩
  rw [toupper_eq_zero] at hzero
  subst hzero
  apply hinput
  rw [← hs.taken]
  simp [hc]

/-- What the server does with its buffer in one call. -/
theorem server_step (hs : Invariant input s) (hinput : (0 : UInt8) ∉ input)
    (hcount : ∀ n, s.server = .send n → n ≤ longest)
    (hbuf : Filled start longest s.serverBuf)
    (hside : action.isServer = true) (hstep : step s action = some t) :
    Filled start (max (readLen (.server action)) longest) t.serverBuf ∧
      ∀ n, t.server = .send n → n ≤ max (readLen (.server action)) longest := by
  cases action with
  | serverReceive n =>
      simp only [step, stepServerReceive] at hstep
      split_ifs at hstep with hserver hreadable
      cases hstep
      rcases hreadable with ⟨_, hmax, havailable⟩
      have hlength : (s.upstream.take n).length = n :=
        List.length_take_of_le havailable
      have hstored := hbuf.store
        (fun hmem => hs.upstream_no_nul hinput (List.mem_of_mem_take hmem))
        (hlength.le.trans hmax)
      rw [hlength] at hstored
      refine ⟨hstored, ?_⟩
      rintro m ⟨⟩
      exact le_max_left _ _
  | serverSend =>
      simp only [step] at hstep
      split at hstep
      · rename_i n hserver
        cases hstep
        simp only [readLen, Nat.zero_max]
        refine ⟨hbuf.upper (hcount n hserver) (hs.serverCount n hserver), ?_⟩
        rintro m ⟨⟩
      · cases hstep
  | serverEof =>
      simp only [step] at hstep
      split_ifs at hstep
      cases hstep
      simp only [readLen, Nat.zero_max]
      refine ⟨hbuf, ?_⟩
      rintro m ⟨⟩
  | clientFgets => cases hside
  | clientSend => cases hside
  | clientReceive n => cases hside
  | clientDisplay => cases hside

theorem Log.step {terminals : ℕ → Terminal}
    (hsound : protocol.Sound (fun client => Waits (terminals client).input)
      (fun client => Invariant (terminals client).input)
      (fun memory => memory.length = maxLine) system)
    (hlog : Log start longest system)
    (hstep : protocol.systemStep system label = some next) :
    Log start (max (readLen label) longest) next := by
  have hmove := Protocol.systemStep_move hstep
  cases hmove with
  | connect hnew =>
      simp only [readLen, Nat.zero_max]
      exact ⟨hlog.filled, hlog.count⟩
  | @accept client queue hserving hqueue =>
      have hfilled := hlog.filled
      rw [buffer_idle hserving] at hfilled
      simp only [readLen, Nat.zero_max]
      constructor
      · rw [buffer_serving rfl]
        simpa [protocol, IterativeServers.State.setSession] using hfilled
      · intro other n hother hsend
        obtain rfl : client = other := by simpa using hother
        have hwaits := (hsound.head_waits hserving hqueue).2
        simp [IterativeServers.State.setSession, protocol, hwaits] at hsend
  | @client client action session hconnected hside hsession =>
      simp only [readLen, Nat.zero_max]
      rcases client_step hside hsession with ⟨hserver, hserverBuf⟩
      have hsame : ∀ other,
          ((system.setSession client session).sessions other).server =
              (system.sessions other).server ∧
            ((system.setSession client session).sessions other).serverBuf =
              (system.sessions other).serverBuf := by
        intro other
        rw [IterativeServers.State.setSession_sessions]
        split_ifs with hoc
        · subst hoc
          exact ⟨hserver, hserverBuf⟩
        · exact ⟨rfl, rfl⟩
      have hbuffer : buffer (system.setSession client session) =
          buffer system := by
        cases hserving : system.serving with
        | none =>
            rw [buffer_idle hserving]
            exact buffer_idle hserving
        | some server =>
            rw [buffer_serving hserving, ← (hsame server).2]
            exact buffer_serving hserving
      constructor
      · rw [hbuffer]
        exact hlog.filled
      · intro other n hother hsend
        rw [(hsame other).1] at hsend
        exact hlog.count other n hother hsend
  | @server client action session hserving hside hsession =>
      have hfilled := hlog.filled
      rw [buffer_serving hserving] at hfilled
      have hs := sound_invariant hsound client
      rcases server_step hs (terminals client).no_nul
        (fun n => hlog.count client n hserving) hfilled hside hsession with
        ⟨hnext, hcount⟩
      have hnew : (system.setSession client session).sessions client =
          session := by
        rw [IterativeServers.State.setSession_sessions, if_pos rfl]
      unfold Protocol.afterServer
      split_ifs with hclosed
      · refine ⟨?_, ?_⟩
        · rw [buffer_idle rfl]
          exact hnext
        · rintro other n ⟨⟩
      · constructor
        · have hbuffer : buffer (system.setSession client session) =
              ((system.setSession client session).sessions client).serverBuf :=
            buffer_serving hserving
          rw [hbuffer, hnew]
          exact hnext
        · intro other n hother hsend
          obtain rfl : client = other :=
            Option.some.inj (hserving.symm.trans hother)
          rw [hnew] at hsend
          exact hcount n hsend

theorem Log.run {terminals : ℕ → Terminal}
    {labels : List (IterativeServers.Label Action)}
    (hbuf : start.length = maxLine)
    (hsound : protocol.Sound (fun client => Waits (terminals client).input)
      (fun client => Invariant (terminals client).input)
      (fun memory => memory.length = maxLine) system)
    (hlog : Log start longest system)
    (hrun : GuardedRuns.run protocol.systemStep system labels = some next) :
    Log start (max (longestRead labels) longest) next := by
  induction labels generalizing system longest with
  | nil =>
      rw [run_nil, Option.some.injEq] at hrun
      simpa [longestRead, hrun] using hlog
  | cons label labels ih =>
      rcases run_cons_eq_some.mp hrun with ⟨middle, hmiddle, hrest⟩
      have hrules := rules terminals hbuf (fun _ _ => True)
      have hadmits : Protocol.Admits (fun _ _ => True) system label :=
        Protocol.admits_of_forall (fun _ _ => trivial) system label
      have hlast := ih (hrules.systemStep hadmits hsound hmiddle)
        (hlog.step hsound hmiddle) hrest
      rwa [longestRead, max_comm (readLen label), max_assoc]

/-- Any number of clients connect to the server of `server_unix.c`, in any
interleaving with its conversations and with any lengths of the `read`s.  What
a client writes out is a beginning of its own input, upper-cased.  What the
server prints of a line it has read goes on, behind these bytes, up to the
longest that it has ever read from a client, and further into what was in its
buffer at the start; it ends in the buffer if and only if there was a NUL
behind the longest. -/
theorem replies_separate_log_mixed {terminals : ℕ → Terminal}
    {labels : List (IterativeServers.Label Action)}
    (hbuf : buf.length = maxLine)
    (hrun : run protocol.systemStep (listening terminals buf) labels =
      some system) :
    system.connected = Protocol.arrivals labels ∧
    (∀ client,
      (system.sessions client).stdout <+:
          (system.sessions client).sent.map toupper ∧
        (system.sessions client).sent <+: (terminals client).input) ∧
    ∀ client n, system.serving = some client →
      (system.sessions client).server = .send n →
        n ≤ longestRead labels ∧
        received (system.sessions client).serverBuf =
          if (0 : UInt8) ∈ buf.drop (longestRead labels) then
            some ((system.sessions client).serverBuf.take (longestRead labels) ++
              CString.text (buf.drop (longestRead labels)))
          else none := by
  have hrules := rules terminals hbuf (fun _ _ => True)
  have hinitial : protocol.Sound (fun client => Waits (terminals client).input)
      (fun client => Invariant (terminals client).input)
      (fun memory => memory.length = maxLine) (listening terminals buf) :=
    hrules.initial hbuf
  have hsound := hrules.run hbuf
    (StepsMeet.of_forall (Protocol.admits_of_forall fun _ _ => trivial) _ _)
    hrun
  have hlog : Log buf 0 (listening terminals buf) := by
    refine ⟨⟨hbuf, rfl, by simp⟩, ?_⟩
    rintro client n ⟨⟩
  have hend := hlog.run hbuf hinitial hrun
  rw [Nat.max_zero] at hend
  refine ⟨Protocol.connected_of_run hrun, ?_, ?_⟩
  · intro client
    exact (sound_invariant hsound client).isPrefix
  · intro client n hserving hsend
    have hfilled := hend.filled
    rw [buffer_serving hserving] at hfilled
    refine ⟨hend.count client n hserving hsend, ?_⟩
    rw [received, hfilled.text]
    simp only [hfilled.mem_iff]

theorem ascii_terminals (client : ℕ) :
    ∀ byte ∈ (if client = 0 then CString.ascii "secret\n"
        else CString.ascii "hi\n"), 0 < byte ∧ byte < 128 := by
  split_ifs <;> decide +kernel

def terminals (client : ℕ) : Terminal where
  buf := List.replicate clientBufSize 7
  input :=
    if client = 0 then CString.ascii "secret\n" else CString.ascii "hi\n"
  size := rfl
  ascii := ascii_terminals client

def scratch : List UInt8 := List.replicate 9 33 ++ List.replicate 71 0

def twoClients : List (IterativeServers.Label Action) :=
  [.connect 0, .accept, .client 0 .clientFgets, .client 0 .clientSend,
    .server (.serverReceive 7), .connect 1, .server .serverSend,
    .client 0 (.clientReceive 7), .client 1 .clientFgets,
    .client 0 .clientDisplay, .client 0 .clientFgets, .server .serverEof,
    .client 1 .clientSend, .accept, .server (.serverReceive 3)]

/-- The second client has sent `hi`, the first one `secret`. -/
theorem replies_separate_log_mixed_two :
    ∃ system, run protocol.systemStep (listening terminals scratch) twoClients =
        some system ∧
      received (system.sessions 1).serverBuf =
        some (CString.ascii "hi\nRET\n!!") ∧
      system.connected = [0, 1] ∧
      ∀ client, (system.sessions client).stdout <+:
          (system.sessions client).sent.map toupper ∧
        (system.sessions client).sent <+: (terminals client).input := by
  have hrun : (run protocol.systemStep (listening terminals scratch)
      twoClients).map (fun system =>
        received (system.sessions 1).serverBuf) =
      some (some (CString.ascii "hi\nRET\n!!")) := by
    decide +kernel
  rcases Option.map_eq_some_iff.mp hrun with ⟨system, hsystem, hreceived⟩
  have hmixed := replies_separate_log_mixed rfl hsystem
  exact ⟨system, hsystem, hreceived, hmixed.1, hmixed.2.1⟩

end Miscellaneous.UpperEcho
