import Miscellaneous.UpperEcho
import Mathlib.Tactic

/-!
# Nothing is lost on the way

The bytes that the client has sent are, in order, on its standard output, in
its buffer, on the way back, in the buffer of the server and on the way there.
All but the last are upper-cased already, so the output is at every moment a
prefix of what has been sent, upper-cased.
-/

namespace Miscellaneous.UpperEcho

open GuardedRuns

/-- What the client has taken from its standard input and not yet sent. -/
def ClientPoint.pending (buf : List UInt8) : ClientPoint → List UInt8
  | .send => CString.text buf
  | _ => []

def ClientPoint.held (buf : List UInt8) : ClientPoint → List UInt8
  | .display n => buf.take n
  | _ => []

def ServerPoint.held (buf : List UInt8) : ServerPoint → List UInt8
  | .send n => buf.take n
  | _ => []

structure Invariant (input : List UInt8) (s : State) : Prop where
  clientBuf : s.clientBuf.length = clientBufSize
  serverBuf : s.serverBuf.length = maxLine
  serverCount : ∀ n, s.server = .send n → n ≤ maxLine
  taken : s.sent ++ s.client.pending s.clientBuf ++ s.stdin = input
  flight : s.stdout ++ s.client.held s.clientBuf ++ s.downstream ++
    (s.server.held s.serverBuf).map toupper ++ s.upstream.map toupper =
      s.sent.map toupper

theorem initial_invariant {clientBuf serverBuf input : List UInt8}
    (hclient : clientBuf.length = clientBufSize)
    (hserver : serverBuf.length = maxLine) :
    Invariant input (initial clientBuf serverBuf input) where
  clientBuf := hclient
  serverBuf := hserver
  serverCount := by rintro n ⟨⟩
  taken := rfl
  flight := rfl

theorem take_store_take {buffer stream : List UInt8} {n : ℕ}
    (hn : n ≤ stream.length) :
    (CString.store buffer (stream.take n)).take n = stream.take n := by
  have hlength : (stream.take n).length = n := List.length_take_of_le hn
  have htake := CString.take_store buffer (stream.take n)
  rwa [hlength] at htake

theorem length_store_take {buffer stream : List UInt8} {n : ℕ}
    (hn : n ≤ buffer.length) :
    (CString.store buffer (stream.take n)).length = buffer.length :=
  CString.length_store ((List.length_take_le n stream).trans hn)

/-! ## The client -/

theorem clientFgets_invariant {input : List UInt8} {s : State}
    (hinput : (0 : UInt8) ∉ input) (hs : Invariant input s)
    (hclient : s.client = .fgets) : Invariant input (stepFgets s) := by
  have htaken := hs.taken
  have hflight := hs.flight
  rw [hclient] at htaken hflight
  unfold stepFgets
  split_ifs with hstdin
  · exact ⟨hs.clientBuf, hs.serverBuf, hs.serverCount, htaken, hflight⟩
  · have hline := CString.fgets_append (maxLine - 1) s.stdin
    have hlength := CString.length_fgets_le (maxLine - 1) s.stdin
    have hnul : (0 : UInt8) ∉ (CString.fgets (maxLine - 1) s.stdin).1 := by
      intro hmem
      apply hinput
      rw [← htaken, ← hline]
      simp [hmem]
    refine ⟨?_, hs.serverBuf, hs.serverCount, ?_, hflight⟩
    · rw [← hs.clientBuf]
      apply CString.length_store
      rw [hs.clientBuf, List.length_append]
      simp only [maxLine, clientBufSize, List.length_singleton] at *
      omega
    · simp only [ClientPoint.pending, CString.text_store_nul _ hnul]
      rw [List.append_assoc, hline]
      simpa [ClientPoint.pending] using htaken

theorem clientSend_invariant {input : List UInt8} {s : State}
    (hs : Invariant input s) (hclient : s.client = .send) :
    Invariant input (stepClientSend s) := by
  have htaken := hs.taken
  have hflight := hs.flight
  rw [hclient] at htaken hflight
  refine ⟨hs.clientBuf, hs.serverBuf, hs.serverCount, ?_, ?_⟩
  · simpa [stepClientSend, ClientPoint.pending, CString.take_strlen] using
      htaken
  · simp only [stepClientSend, ClientPoint.held, List.map_append,
      ← List.append_assoc] at hflight ⊢
    rw [hflight]

theorem clientReceive_invariant {input : List UInt8} {s next : State} {n : ℕ}
    (hs : Invariant input s) (hclient : s.client = .receive)
    (hstep : stepClientReceive s n = some next) : Invariant input next := by
  have htaken := hs.taken
  have hflight := hs.flight
  rw [hclient] at htaken hflight
  unfold stepClientReceive at hstep
  split_ifs at hstep with hreadable heof
  · cases hstep
    rcases hreadable with ⟨_, hmax, havailable⟩
    have hfits : n ≤ s.clientBuf.length := by
      rw [hs.clientBuf]
      exact hmax.trans (by decide)
    refine ⟨?_, hs.serverBuf, hs.serverCount, htaken, ?_⟩
    · exact (length_store_take hfits).trans hs.clientBuf
    · simp only [ClientPoint.held, take_store_take havailable]
      rw [List.append_assoc s.stdout, List.take_append_drop]
      simpa [ClientPoint.held] using hflight
  · cases hstep
    exact ⟨hs.clientBuf, hs.serverBuf, hs.serverCount, htaken, hflight⟩

theorem clientDisplay_invariant {input : List UInt8} {s : State} {n : ℕ}
    (hs : Invariant input s) (hclient : s.client = .display n) :
    Invariant input (stepClientDisplay s n) := by
  have htaken := hs.taken
  have hflight := hs.flight
  rw [hclient] at htaken hflight
  refine ⟨hs.clientBuf, hs.serverBuf, hs.serverCount, htaken, ?_⟩
  simpa [stepClientDisplay, ClientPoint.held] using hflight

/-! ## The server -/

theorem serverReceive_invariant {input : List UInt8} {s next : State} {n : ℕ}
    (hs : Invariant input s) (hserver : s.server = .receive)
    (hstep : stepServerReceive s n = some next) : Invariant input next := by
  have hflight := hs.flight
  rw [hserver] at hflight
  unfold stepServerReceive at hstep
  split_ifs at hstep with hreadable
  cases hstep
  rcases hreadable with ⟨_, hmax, havailable⟩
  have hfits : n ≤ s.serverBuf.length := by
    rw [hs.serverBuf]
    exact hmax
  refine ⟨hs.clientBuf, ?_, ?_, hs.taken, ?_⟩
  · exact (length_store_take hfits).trans hs.serverBuf
  · rintro m ⟨⟩
    exact hmax
  · simp only [ServerPoint.held, take_store_take havailable]
    rw [List.append_assoc _ ((s.upstream.take n).map toupper),
      ← List.map_append, List.take_append_drop]
    simpa [ServerPoint.held] using hflight

theorem serverSend_invariant {input : List UInt8} {s : State} {n : ℕ}
    (hs : Invariant input s) (hserver : s.server = .send n) :
    Invariant input (stepServerSend s n) := by
  have hflight := hs.flight
  rw [hserver] at hflight
  have hlength : ((s.serverBuf.take n).map toupper).length = n := by
    rw [List.length_map]
    apply List.length_take_of_le
    rw [hs.serverBuf]
    exact hs.serverCount n hserver
  have htake : ((s.serverBuf.take n).map toupper ++ s.serverBuf.drop n).take n =
      (s.serverBuf.take n).map toupper := by
    rw [List.take_append_of_le_length hlength.ge, List.take_of_length_le
      hlength.le]
  refine ⟨hs.clientBuf, ?_, ?_, hs.taken, ?_⟩
  · have hbuf := hs.serverBuf
    simp only [stepServerSend, List.length_append, List.length_map,
      List.length_take, List.length_drop]
    omega
  · rintro m ⟨⟩
  · simp only [stepServerSend, htake]
    simpa [ServerPoint.held] using hflight

/-! ## The run -/

theorem step_invariant {input : List UInt8} (hinput : (0 : UInt8) ∉ input)
    {s next : State} {action : Action} (hs : Invariant input s)
    (hstep : step s action = some next) : Invariant input next := by
  cases action with
  | clientFgets =>
      simp only [step] at hstep
      split_ifs at hstep with hclient
      cases hstep
      exact clientFgets_invariant hinput hs hclient
  | clientSend =>
      simp only [step] at hstep
      split_ifs at hstep with hclient
      cases hstep
      exact clientSend_invariant hs hclient
  | clientReceive n =>
      simp only [step] at hstep
      split_ifs at hstep with hclient
      exact clientReceive_invariant hs hclient hstep
  | clientDisplay =>
      simp only [step] at hstep
      split at hstep
      · rename_i n hclient
        cases hstep
        exact clientDisplay_invariant hs hclient
      · cases hstep
  | serverReceive n =>
      simp only [step] at hstep
      split_ifs at hstep with hserver
      exact serverReceive_invariant hs hserver hstep
  | serverSend =>
      simp only [step] at hstep
      split at hstep
      · rename_i n hserver
        cases hstep
        exact serverSend_invariant hs hserver
      · cases hstep
  | serverEof =>
      simp only [step] at hstep
      split_ifs at hstep with hguard
      cases hstep
      have hflight := hs.flight
      rw [hguard.1] at hflight
      exact ⟨hs.clientBuf, hs.serverBuf, by rintro n ⟨⟩, hs.taken, hflight⟩

/-- What the client has written out is a prefix of what it has sent,
upper-cased, and what it has sent is a prefix of its input. -/
theorem stdout_isPrefix_sent {clientBuf serverBuf input : List UInt8}
    (hclient : clientBuf.length = clientBufSize)
    (hserver : serverBuf.length = maxLine)
    (hinput : ∀ byte ∈ input, 0 < byte ∧ byte < 128) {s : State}
    (hs : Reachable step (initial clientBuf serverBuf input) s) :
    s.stdout <+: s.sent.map toupper ∧ s.sent <+: input := by
  have hnul : (0 : UInt8) ∉ input := by
    intro hzero
    exact absurd (hinput 0 hzero).1 (by decide)
  have hinv : Invariant input s :=
    Reachable.invariant (initial_invariant hclient hserver)
      (fun _ _ _ => step_invariant hnul) hs
  constructor
  · rw [← hinv.flight]
    simp only [List.append_assoc]
    exact List.prefix_append _ _
  · rw [← hinv.taken, List.append_assoc]
    exact List.prefix_append _ _

theorem stdout_isPrefix_sent_hi :
    ∃ s, Reachable step
        (initial (List.replicate 100 7) (List.replicate 80 7) [104, 105, 10])
        s ∧
      s.stdout = [72, 73] ∧ s.stdout <+: s.sent.map toupper ∧
      s.sent <+: [104, 105, 10] := by
  have hrun : (run step
      (initial (List.replicate 100 7) (List.replicate 80 7) [104, 105, 10])
      [.clientFgets, .clientSend, .serverReceive 2, .serverSend,
        .serverReceive 1, .clientReceive 2, .clientDisplay]).map State.stdout =
          some [72, 73] := by
    decide +kernel
  rcases Option.map_eq_some_iff.mp hrun with ⟨s, hs, hstdout⟩
  exact ⟨s, ⟨_, hs⟩, hstdout, stdout_isPrefix_sent rfl rfl (by simp) ⟨_, hs⟩⟩

end Miscellaneous.UpperEcho
