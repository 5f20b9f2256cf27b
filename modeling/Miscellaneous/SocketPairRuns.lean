import Miscellaneous.SocketPair
import Mathlib.Tactic

/-!
# What the two print

However the streams are split, the client reads a window of answers and the
server a window of contents.  `recvBuf` has room for more than one answer, so
the client always finds a NUL; the server finds the one of the content or the
one of the answer that is still in its buffer, as soon as it has answered once.
-/

namespace Miscellaneous.SocketPair

open CString GuardedRuns PrintedReads

/-- A buffer with a NUL, and its text is that of what was read, or what was
read goes on with the rest of the answer. -/
structure PrintedWell (entry : List UInt8 × List UInt8) : Prop where
  nul : (0 : UInt8) ∈ entry.2
  piece : text entry.1 <:+: content.bytes
  text_eq : text entry.2 =
    if (0 : UInt8) ∈ entry.1 then text entry.1
    else entry.1 ++ gotIt.drop entry.1.length

structure Invariant (s : State) : Prop where
  upstream : Framed [content] s.upstream
  downstream : Framed [answer] s.downstream
  shown : ∀ buffer ∈ s.shown, (0 : UInt8) ∈ buffer ∧ text buffer <:+: gotIt
  printed : ∀ entry ∈ s.printed.tail, PrintedWell entry
  answered : s.server = .read → s.printed ≠ [] →
    ∃ behind, s.buffer = answer.memory ++ behind

theorem initial_invariant (buffer : List UInt8) :
    Invariant (initial buffer) where
  upstream := Framed.nil
  downstream := Framed.nil
  shown := by simp [initial]
  printed := by simp [initial]
  answered := fun _ hne => absurd rfl hne

/-! ## The texts of the buffers -/

theorem text_store_of_nul_mem {buffer bytes : List UInt8}
    (hnul : (0 : UInt8) ∈ bytes) : text (store buffer bytes) = text bytes := by
  obtain ⟨first, behind, rfl, hfirst⟩ :=
    List.eq_append_cons_of_mem hnul
  rw [text_append_nul hfirst, store, List.append_assoc, List.cons_append,
    text_append_nul hfirst]

/-- What is received with room to spare, or with a NUL, is shown as it is. -/
theorem text_store_cleared {size : ℕ} {bytes : List UInt8}
    (hbytes : (0 : UInt8) ∈ bytes ∨ bytes.length < size) :
    (0 : UInt8) ∈ store (List.replicate size 0) bytes ∧
      text (store (List.replicate size 0) bytes) = text bytes := by
  by_cases hnul : (0 : UInt8) ∈ bytes
  · exact ⟨List.mem_append_left _ hnul, text_store_of_nul_mem hnul⟩
  · have hlength := hbytes.resolve_left hnul
    have hzero : (List.replicate size (0 : UInt8))[bytes.length]? = some 0 := by
      rw [List.getElem?_replicate, if_pos hlength]
    have hself : text bytes = bytes := by
      rw [text, List.takeWhile_eq_self_iff]
      intro byte hbyte
      exact decide_eq_true (ne_of_mem_of_not_mem hbyte hnul)
    rw [hself]
    exact (text_store_iff hnul).mpr hzero

theorem show_invariant {s : State} {bytes : List UInt8} (hs : Invariant s)
    (hroom : (0 : UInt8) ∈ bytes ∨ bytes.length < recvBufSize)
    (hpiece : text bytes <:+: gotIt) : Invariant (s.show bytes) where
  upstream := hs.upstream
  downstream := hs.downstream
  shown := by
    intro buffer hbuffer
    rcases List.mem_append.mp hbuffer with hold | hnew
    · exact hs.shown buffer hold
    · rw [List.mem_singleton.mp hnew]
      have hstore := text_store_cleared hroom
      exact ⟨hstore.1, hstore.2 ▸ hpiece⟩
  printed := hs.printed
  answered := hs.answered

theorem recv_invariant {s next : State} {count : ℕ} (hs : Invariant s)
    (hstep : stepRecv s count = some next) : Invariant next := by
  unfold stepRecv at hstep
  split at hstep
  · next hread =>
      cases hstep
      obtain ⟨hpositive, hsize, hlength⟩ := hread
      have hne : s.downstream ≠ [] :=
        List.length_pos_iff.mp (by omega)
      obtain ⟨string, hstring, hpiece⟩ := hs.downstream.text_take hne count
      rw [List.mem_singleton.mp hstring] at hpiece
      have hroom : (0 : UInt8) ∈ s.downstream.take count ∨
          (s.downstream.take count).length < recvBufSize := by
        by_cases hfull : count < recvBufSize
        · right
          rw [List.length_take]
          omega
        · left
          refine hs.downstream.nul_mem_take hpositive hlength ?_
          rw [List.forall_mem_singleton]
          have hanswer : answer.bytes.length < recvBufSize := by decide
          omega
      have hshow := show_invariant hs hroom hpiece
      exact ⟨hshow.upstream, hs.downstream.drop count, hshow.shown,
        hshow.printed, hshow.answered⟩
  · split at hstep
    · cases hstep
      exact show_invariant hs (Or.inr (by decide)) (List.nil_infix)
    · cases hstep

/-- The window ends in a NUL, or it ends before that of the answer. -/
theorem printedWell_store {stream behind : List UInt8} {count : ℕ}
    (hstream : Framed [content] stream) (hpositive : 1 ≤ count)
    (hlength : count ≤ stream.length) :
    PrintedWell (stream.take count,
      store (answer.memory ++ behind) (stream.take count)) := by
  have hne : stream ≠ [] := List.length_pos_iff.mp (by omega)
  obtain ⟨string, hstring, hpiece⟩ := hstream.text_take hne count
  rw [List.mem_singleton.mp hstring] at hpiece
  by_cases hnul : (0 : UInt8) ∈ stream.take count
  · exact {
      nul := List.mem_append_left _ hnul
      piece := hpiece
      text_eq := by
        rw [if_pos hnul]
        exact text_store_of_nul_mem hnul }
  · have hshort : (stream.take count).length ≤ gotIt.length := by
      by_contra hlong
      refine hnul (hstream.nul_mem_take hpositive hlength ?_)
      rw [List.forall_mem_singleton]
      have hcontent : content.bytes.length < gotIt.length := by decide
      rw [List.length_take] at hlong
      omega
    have hstore : store (answer.memory ++ behind) (stream.take count) =
        (stream.take count ++ gotIt.drop (stream.take count).length) ++
          0 :: behind := by
      have hmemory : answer.memory ++ behind = gotIt ++ 0 :: behind := by
        simp [answer, memory]
      rw [store, hmemory, List.drop_append_of_le_length hshort,
        List.append_assoc]
    have hfree : (0 : UInt8) ∉
        stream.take count ++ gotIt.drop (stream.take count).length := by
      rw [List.mem_append]
      rintro (hmem | hmem)
      · exact hnul hmem
      · exact answer.nulFree (List.mem_of_mem_drop hmem)
    refine ⟨?_, hpiece, ?_⟩
    · rw [hstore]
      simp
    · rw [hstore, text_append_nul hfree, if_neg hnul]

theorem read_invariant {s next : State} {count : ℕ} (hs : Invariant s)
    (hserver : s.server = .read) (hstep : stepRead s count = some next) :
    Invariant next := by
  unfold stepRead at hstep
  split at hstep
  · next hread =>
      cases hstep
      obtain ⟨hpositive, -, hlength⟩ := hread
      refine ⟨hs.upstream.drop count, hs.downstream, hs.shown, ?_, ?_⟩
      · intro entry hentry
        -- the first buffer printed has not been answered into
        by_cases hfirst : s.printed = []
        · simp [hfirst] at hentry
        · obtain ⟨behind, hbuffer⟩ := hs.answered hserver hfirst
          rw [List.tail_append_of_ne_nil hfirst, List.mem_append,
            List.mem_singleton] at hentry
          rcases hentry with hold | rfl
          · exact hs.printed entry hold
          · rw [hbuffer]
            exact printedWell_store hs.upstream hpositive hlength
      · simp
  · cases hstep

theorem write_invariant {s : State} (hs : Invariant s) :
    Invariant (stepWrite s) where
  upstream := hs.upstream
  downstream := hs.downstream.append (List.mem_singleton_self answer)
  shown := hs.shown
  printed := hs.printed
  answered := fun _ _ => ⟨s.buffer.drop answer.memory.length, rfl⟩

/-- The client and the server without what they have in their buffers. -/
theorem Invariant.of_same {s next : State} (hs : Invariant s)
    (hupstream : Framed [content] next.upstream)
    (hdownstream : next.downstream = s.downstream)
    (hshown : next.shown = s.shown) (hprinted : next.printed = s.printed)
    (hbuffer : next.buffer = s.buffer)
    (hserver : next.server = .read → s.server = .read) : Invariant next where
  upstream := hupstream
  downstream := hdownstream ▸ hs.downstream
  shown := hshown ▸ hs.shown
  printed := hprinted ▸ hs.printed
  answered := by
    rw [hprinted, hbuffer]
    exact fun hread => hs.answered (hserver hread)

theorem step_invariant {s next : State} {action : Action} (hs : Invariant s)
    (hstep : step s action = some next) : Invariant next := by
  cases action with
  | send =>
      simp only [step] at hstep
      split at hstep
      · cases hstep
      · cases hstep
        exact hs.of_same (hs.upstream.append (List.mem_singleton_self content))
          rfl rfl rfl rfl id
  | sendFails =>
      simp only [step] at hstep
      split at hstep
      · cases hstep
      · cases hstep
        exact hs.of_same hs.upstream rfl rfl rfl rfl id
  | recv count =>
      simp only [step] at hstep
      split at hstep
      · exact recv_invariant hs hstep
      · cases hstep
  | recvFails =>
      simp only [step] at hstep
      split at hstep
      · cases hstep
        exact hs.of_same hs.upstream rfl rfl rfl rfl id
      · cases hstep
  | read count =>
      simp only [step] at hstep
      split at hstep
      · next hserver => exact read_invariant hs hserver hstep
      · cases hstep
  | write =>
      simp only [step] at hstep
      split at hstep
      · cases hstep
        exact write_invariant hs
      · cases hstep
  | readFails =>
      simp only [step] at hstep
      split at hstep
      · cases hstep
        exact hs.of_same hs.upstream rfl rfl rfl rfl (fun hread => by cases hread)
      · cases hstep
  | writeFails =>
      simp only [step] at hstep
      split at hstep
      · cases hstep
        exact hs.of_same hs.upstream rfl rfl rfl rfl (fun hread => by cases hread)
      · cases hstep

/-! ## An answer is on its way -/

def Action.Fails : Action → Prop
  | .sendFails | .recvFails | .readFails | .writeFails => True
  | .send | .recv _ | .read _ | .write => False

/-- While the client waits there are answers, or there is something which the
server has not answered. -/
structure Answering (s : State) : Prop where
  running : s.server ≠ .exited
  pending : s.receiving = true →
    s.downstream ≠ [] ∨ s.upstream ≠ [] ∨ s.server = .write

theorem step_answering {s next : State} {action : Action}
    (hfails : ¬action.Fails) (hs : Answering s)
    (hstep : step s action = some next) : Answering next := by
  cases action with
  | send =>
      simp only [step] at hstep
      split at hstep
      · cases hstep
      · cases hstep
        exact ⟨hs.running, fun _ => Or.inr (Or.inl (by simp [memory]))⟩
  | recv count =>
      simp only [step, stepRecv] at hstep
      split at hstep
      · split at hstep
        · cases hstep
          exact ⟨hs.running, fun hreceiving => by cases hreceiving⟩
        · split at hstep
          · next hexited => exact absurd hexited.2.2 hs.running
          · cases hstep
      · cases hstep
  | read count =>
      simp only [step, stepRead] at hstep
      split at hstep
      · split at hstep
        · cases hstep
          exact ⟨by simp, fun _ => Or.inr (Or.inr rfl)⟩
        · cases hstep
      · cases hstep
  | write =>
      simp only [step] at hstep
      split at hstep
      · cases hstep
        exact ⟨by simp [stepWrite],
          fun _ => Or.inl (by simp [stepWrite, memory])⟩
      · cases hstep
  | sendFails => exact absurd trivial hfails
  | recvFails => exact absurd trivial hfails
  | readFails => exact absurd trivial hfails
  | writeFails => exact absurd trivial hfails

theorem readable_one {size : ℕ} {stream : List UInt8} (hsize : 1 ≤ size)
    (hne : stream ≠ []) : Readable size stream 1 :=
  ⟨le_rfl, hsize, List.length_pos_iff.mpr hne⟩

inductive Side where
  | client
  | server
  deriving DecidableEq, Repr

def Action.side : Action → Side
  | .send | .sendFails | .recv _ | .recvFails => .client
  | .read _ | .write | .readFails | .writeFails => .server

/-- A call of the side is possible, without failing. -/
def MayCall (side : Side) (s : State) : Prop :=
  ∃ action next, action.side = side ∧ ¬action.Fails ∧
    step s action = some next

/-- At most two calls of the other side, and the side does not block. -/
def GoesOn (side : Side) (s : State) : Prop :=
  ∃ calls next, calls.length ≤ 2 ∧
    (∀ call ∈ calls, call.side ≠ side ∧ ¬call.Fails) ∧
    run step s calls = some next ∧ MayCall side next

theorem MayCall.goesOn {side : Side} {s : State} (hs : MayCall side s) :
    GoesOn side s :=
  ⟨[], s, by simp, by simp, rfl, hs⟩

/-! What the calls that do not fail leave behind. -/

theorem exists_step_send {s : State} (hreceiving : s.receiving = false) :
    ∃ after, step s .send = some after ∧ after.server = s.server ∧
      after.upstream ≠ [] := by
  simp [step, hreceiving, memory]

theorem exists_step_recv {s : State} (hreceiving : s.receiving = true)
    (hdown : s.downstream ≠ []) :
    ∃ after, step s (.recv 1) = some after ∧ after.server = s.server ∧
      after.receiving = false := by
  have hread : Readable recvBufSize s.downstream 1 :=
    readable_one (by decide) hdown
  simp [step, stepRecv, hreceiving, hread, State.show]

theorem exists_step_read {s : State} (hserver : s.server = .read)
    (hup : s.upstream ≠ []) :
    ∃ after, step s (.read 1) = some after ∧ after.server = .write ∧
      after.receiving = s.receiving := by
  have hread : Readable bufSize s.upstream 1 := readable_one (by decide) hup
  simp [step, stepRead, hserver, hread]

theorem exists_step_write {s : State} (hserver : s.server = .write) :
    ∃ after, step s .write = some after ∧ after.receiving = s.receiving ∧
      after.downstream ≠ [] := by
  simp [step, stepWrite, hserver, memory]

theorem mayCall_send {s : State} (hreceiving : s.receiving = false) :
    MayCall .client s := by
  obtain ⟨after, hstep, -⟩ := exists_step_send hreceiving
  exact ⟨.send, after, rfl, id, hstep⟩

theorem mayCall_recv {s : State} (hreceiving : s.receiving = true)
    (hdown : s.downstream ≠ []) : MayCall .client s := by
  obtain ⟨after, hstep, -⟩ := exists_step_recv hreceiving hdown
  exact ⟨.recv 1, after, rfl, id, hstep⟩

theorem mayCall_read {s : State} (hserver : s.server = .read)
    (hup : s.upstream ≠ []) : MayCall .server s := by
  obtain ⟨after, hstep, -⟩ := exists_step_read hserver hup
  exact ⟨.read 1, after, rfl, id, hstep⟩

theorem mayCall_write {s : State} (hserver : s.server = .write) :
    MayCall .server s := by
  obtain ⟨after, hstep, -⟩ := exists_step_write hserver
  exact ⟨.write, after, rfl, id, hstep⟩

/-! The one side after one call of the other, and after two. -/

theorem goesOn_one {side : Side} {s next : State} {call : Action}
    (hside : call.side ≠ side) (hfails : ¬call.Fails)
    (hstep : step s call = some next) (hnext : MayCall side next) :
    GoesOn side s :=
  ⟨[call], next, by simp, by simp [hside, hfails],
    run_cons_eq_some.mpr ⟨next, hstep, rfl⟩, hnext⟩

theorem goesOn_two {side : Side} {s between next : State}
    {first second : Action}
    (hsides : first.side ≠ side ∧ second.side ≠ side)
    (hfails : ¬first.Fails ∧ ¬second.Fails)
    (hfirst : step s first = some between)
    (hsecond : step between second = some next)
    (hnext : MayCall side next) : GoesOn side s :=
  ⟨[first, second], next, by simp, by simp [hsides, hfails],
    run_cons_eq_some.mpr
      ⟨between, hfirst, run_cons_eq_some.mpr ⟨next, hsecond, rfl⟩⟩, hnext⟩

/-- The answer of the server lets the client receive. -/
theorem client_goesOn_of_write {s : State} (hreceiving : s.receiving = true)
    (hserver : s.server = .write) : GoesOn .client s := by
  obtain ⟨next, hstep, hsame, hdown⟩ := exists_step_write hserver
  exact goesOn_one (by decide) id hstep
    (mayCall_recv (hsame.trans hreceiving) hdown)

/-- The server has to answer, or to read and then to answer, and the client
receives. -/
theorem Answering.client_goesOn {s : State} (hs : Answering s) :
    GoesOn .client s := by
  cases hreceiving : s.receiving with
  | false => exact (mayCall_send hreceiving).goesOn
  | true =>
      rcases hs.pending hreceiving with hdown | hup | hwrite
      · exact (mayCall_recv hreceiving hdown).goesOn
      · cases hserver : s.server with
        | exited => exact absurd hserver hs.running
        | write => exact client_goesOn_of_write hreceiving hserver
        | read =>
            obtain ⟨between, hfirst, hwriting, hsame⟩ :=
              exists_step_read hserver hup
            obtain ⟨next, hsecond, hkept, hdown⟩ := exists_step_write hwriting
            exact goesOn_two ⟨by decide, by decide⟩ ⟨id, id⟩ hfirst hsecond
              (mayCall_recv (hkept.trans (hsame.trans hreceiving)) hdown)
      · exact client_goesOn_of_write hreceiving hwrite

/-- The client has to send, or to receive and then to send, and the server
reads. -/
theorem Answering.server_goesOn {s : State} (hs : Answering s) :
    GoesOn .server s := by
  cases hserver : s.server with
  | exited => exact absurd hserver hs.running
  | write => exact (mayCall_write hserver).goesOn
  | read =>
      by_cases hup : s.upstream = []
      · cases hreceiving : s.receiving with
        | false =>
            obtain ⟨next, hstep, hsame, hsent⟩ := exists_step_send hreceiving
            exact goesOn_one (by decide) id hstep
              (mayCall_read (hsame.trans hserver) hsent)
        | true =>
            have hdown : s.downstream ≠ [] := by
              have hpending := hs.pending hreceiving
              simpa [hup, hserver] using hpending
            obtain ⟨between, hfirst, hsame, hsending⟩ :=
              exists_step_recv hreceiving hdown
            obtain ⟨next, hsecond, hkept, hsent⟩ := exists_step_send hsending
            exact goesOn_two ⟨by decide, by decide⟩ ⟨id, id⟩ hfirst hsecond
              (mayCall_read (hkept.trans (hsame.trans hserver)) hsent)
      · exact (mayCall_read hserver hup).goesOn

/-- Whoever is not waiting for the other has a call. -/
theorem Answering.exists_step {s : State} (hs : Answering s) :
    ∃ action next, ¬action.Fails ∧ step s action = some next := by
  obtain ⟨calls, next, -, hcalls, hrun, action, after, -, hfails, hstep⟩ :=
    hs.client_goesOn
  cases calls with
  | nil =>
      rw [run_nil, Option.some.injEq] at hrun
      exact ⟨action, after, hfails, hrun ▸ hstep⟩
  | cons call rest =>
      obtain ⟨second, hsecond, -⟩ := run_cons_eq_some.mp hrun
      exact ⟨call, second, (hcalls call (by simp)).2, hsecond⟩

/-- In every interleaving and however the streams are split: the client never
prints beyond `recvBuf`, and it prints a piece of "got it" each time; the server
does not print beyond its buffer after its first read, and what it prints is a
piece of the content, which may go on with the end of its own answer.  As long
as no call fails some call is possible, and each of the two is let go on by at
most two calls of the other. -/
theorem shown_and_printed {buffer : List UInt8} {actions : List Action}
    {s : State} (hrun : run step (initial buffer) actions = some s) :
    (∀ shown ∈ s.shown, (0 : UInt8) ∈ shown ∧ text shown <:+: gotIt) ∧
      (∀ entry ∈ s.printed.tail, PrintedWell entry) ∧
      ((∀ action ∈ actions, ¬action.Fails) →
        (∃ action next, ¬action.Fails ∧ step s action = some next) ∧
          ∀ side, GoesOn side s) := by
  have hs : Invariant s :=
    run_invariant (fun _ _ _ hstate hstep => step_invariant hstate hstep)
      (initial_invariant buffer) hrun
  refine ⟨hs.shown, hs.printed, fun hactions => ?_⟩
  have hanswering : Answering s :=
    run_invariant_of_admitted
      (fun _ _ _ hfails hstate hstep => step_answering hfails hstate hstep)
      hactions ⟨by simp [initial], by simp [initial]⟩ hrun
  refine ⟨hanswering.exists_step, fun side => ?_⟩
  cases side with
  | client => exact hanswering.client_goesOn
  | server => exact hanswering.server_goesOn

/-- The third read ends before the NUL, and the answer of the second shows. -/
theorem shown_and_printed_split :
    ∃ s, run step (initial (List.replicate bufSize 255))
        [.send, .read 6, .write, .recv 3, .send, .read 2] = some s ∧
      (∀ shown ∈ s.shown, (0 : UInt8) ∈ shown ∧ text shown <:+: gotIt) ∧
      (∀ entry ∈ s.printed.tail, PrintedWell entry) ∧
      ((∀ action ∈ [Action.send, .read 6, .write, .recv 3, .send, .read 2],
          ¬action.Fails) →
        (∃ action next, ¬action.Fails ∧ step s action = some next) ∧
          ∀ side, GoesOn side s) :=
  exists_run_and (by decide) fun _ hrun => shown_and_printed hrun

example :
    (run step (initial (List.replicate bufSize 255))
        [.send, .read 6, .write, .recv 3, .send, .read 2]).map
      (fun s => (s.shown.map text, s.printed.tail.map fun entry =>
        text entry.2)) =
    some ([ascii "got"], [ascii "12t it"]) := by decide

end Miscellaneous.SocketPair
