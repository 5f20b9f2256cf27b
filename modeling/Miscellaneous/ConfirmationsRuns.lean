import Miscellaneous.Confirmations
import Mathlib.Tactic

/-!
# When the confirmations are the titles

As long as every `read` returns the whole message, client and server are in
the same round: the title is on its way, then in the buffer of the server,
then the buffer is on its way back.  Only in the last round may the client read
less than the buffer, as long as it reads the title.  A `read` that returns
less leaves the rest to be taken for the next message.
-/

namespace Miscellaneous.Confirmations

open GuardedRuns

def Setting.titles (setting : Setting) : List (List UInt8) :=
  setting.books.map CString.bytes

/-- The `read` returns the message as a whole. -/
def ReadsWhole (setting : Setting) (s : State) : Action → Prop
  | .serverRead count => count = s.upstream.length
  | .clientRead count =>
      count = buffSize + 1 ∨
        s.clientRound + 1 = setting.conversationLen ∧
          (setting.books[s.clientRound]?).all
            (fun book => book.bytes.length ≤ count) = true
  | _ => True

/-- The buffer of the server with the title in it. -/
def echoBuffer (title : List UInt8) : List UInt8 :=
  CString.store clearBuffer title

/-- The states in which client and server are in the same round. -/
inductive Lockstep (setting : Setting) : State → Prop where
  | head {i : ℕ} {client : ClientPoint} {server : ServerPoint}
      {downstream : List UInt8} (hi : i ≤ setting.conversationLen)
      (hclient : client = .write ∨
        client = .exited ∧ i = setting.conversationLen)
      (hserver : server = .read ∨
        server = .closed ∧ i = setting.conversationLen)
      (hdownstream : downstream = [] ∨ i = setting.conversationLen) :
      Lockstep setting
        ⟨client, i, setting.titles.take i, server, i, [], downstream⟩
  | sent {i : ℕ} {book : CString} (hi : i < setting.conversationLen)
      (hbook : setting.books[i]? = some book) :
      Lockstep setting
        ⟨.read, i, setting.titles.take i, .read, i, book.bytes, []⟩
  | received {i : ℕ} {book : CString} (hi : i < setting.conversationLen)
      (hbook : setting.books[i]? = some book) :
      Lockstep setting
        ⟨.read, i, setting.titles.take i, .echo (echoBuffer book.bytes), i, [],
          []⟩
  | echoed {i : ℕ} {book : CString} {server : ServerPoint}
      (hi : i < setting.conversationLen)
      (hbook : setting.books[i]? = some book)
      (hserver : server = .read ∨
        server = .closed ∧ i + 1 = setting.conversationLen) :
      Lockstep setting
        ⟨.read, i, setting.titles.take i, server, i + 1, [],
          echoBuffer book.bytes⟩
  | confirmed {i : ℕ} {book : CString} {buffer downstream : List UInt8}
      {server : ServerPoint} (hi : i < setting.conversationLen)
      (hbook : setting.books[i]? = some book)
      (hbuffer : CString.text buffer = book.bytes)
      (hserver : server = .read ∨
        server = .closed ∧ i + 1 = setting.conversationLen)
      (hdownstream : downstream = [] ∨ i + 1 = setting.conversationLen) :
      Lockstep setting
        ⟨.puts buffer, i, setting.titles.take i, server, i + 1, [],
          downstream⟩

theorem initial_lockstep (setting : Setting) : Lockstep setting initial :=
  .head (Nat.zero_le _) (Or.inl rfl) (Or.inl rfl) (Or.inl rfl)

/-! ## The buffers -/

theorem length_echoBuffer {title : List UInt8}
    (htitle : title.length ≤ buffSize) :
    (echoBuffer title).length = buffSize + 1 := by
  have hclear : clearBuffer.length = buffSize + 1 := List.length_replicate
  rw [echoBuffer, CString.length_store, hclear]
  omega

theorem echoBuffer_eq {title : List UInt8} (htitle : title.length ≤ buffSize) :
    echoBuffer title =
      title ++ 0 :: List.replicate (buffSize - title.length) 0 := by
  have hsplit : buffSize + 1 - title.length = buffSize - title.length + 1 := by
    omega
  rw [echoBuffer, CString.store, clearBuffer, List.drop_replicate, hsplit,
    List.replicate_succ]

theorem text_echoBuffer {book : CString}
    (hbook : book.bytes.length ≤ buffSize) :
    CString.text (echoBuffer book.bytes) = book.bytes := by
  rw [echoBuffer_eq hbook]
  exact CString.text_append_nul book.nulFree _

/-- A part of the buffer with the whole title in it reads as the title. -/
theorem text_store_take {book : CString}
    (hbook : book.bytes.length ≤ buffSize) {count : ℕ}
    (hcount : book.bytes.length ≤ count) (hmax : count ≤ buffSize + 1) :
    CString.text (CString.store clearBuffer
      ((echoBuffer book.bytes).take count)) = book.bytes := by
  have hlength : ((echoBuffer book.bytes).take count).length = count := by
    apply List.length_take_of_le
    rw [length_echoBuffer hbook]
    exact hmax
  have hrest : (echoBuffer book.bytes).drop count = clearBuffer.drop count := by
    have hgap : book.bytes.length + (count - book.bytes.length) = count := by
      omega
    rw [echoBuffer, CString.store, List.drop_append,
      List.drop_eq_nil_of_le hcount, List.nil_append, List.drop_drop, hgap]
  rw [CString.store, hlength, ← hrest, List.take_append_drop,
    text_echoBuffer hbook]

theorem Setting.book_of_lt (setting : Setting) {i : ℕ}
    (hi : i < setting.conversationLen) :
    ∃ book, setting.books[i]? = some book := by
  have hlt : i < setting.books.length := hi.trans_le setting.enough
  exact ⟨_, List.getElem?_eq_getElem hlt⟩

theorem Setting.length_book (setting : Setting) {i : ℕ} {book : CString}
    (hbook : setting.books[i]? = some book) :
    0 < book.bytes.length ∧ book.bytes.length ≤ buffSize := by
  have hmem : book ∈ setting.books := List.mem_of_getElem? hbook
  exact ⟨List.length_pos_iff.mpr (setting.nonempty book hmem),
    setting.fits book hmem⟩

theorem Setting.take_titles_succ (setting : Setting) {i : ℕ} {book : CString}
    (hbook : setting.books[i]? = some book) :
    setting.titles.take i ++ [book.bytes] = setting.titles.take (i + 1) := by
  rw [List.take_add_one, Setting.titles, List.getElem?_map, hbook]
  rfl

/-! ## One step -/

theorem step_serverEcho_of_idle {setting : Setting} {s next : State} {P : Prop}
    (hserver : s.server = .read ∨ s.server = .closed ∧ P) :
    step setting s .serverEcho ≠ some next := by
  rcases hserver with hserver | ⟨hserver, _⟩
  · simp [step, hserver]
  · simp [step, hserver]

theorem Lockstep.step_head {setting : Setting} {i : ℕ} {client : ClientPoint}
    {server : ServerPoint} {downstream : List UInt8} {next : State}
    {action : Action} (hi : i ≤ setting.conversationLen)
    (hclient : client = .write ∨
      client = .exited ∧ i = setting.conversationLen)
    (hserver : server = .read ∨ server = .closed ∧ i = setting.conversationLen)
    (hdownstream : downstream = [] ∨ i = setting.conversationLen)
    (hstep : step setting
      ⟨client, i, setting.titles.take i, server, i, [], downstream⟩ action =
        some next) : Lockstep setting next := by
  have hnotRead : client ≠ .read := by
    rcases hclient with hclient | ⟨hclient, _⟩ <;> simp [hclient]
  cases action with
  | clientWrite =>
      simp only [step, stepClientWrite] at hstep
      split_ifs at hstep with hwrite hlt
      rcases setting.book_of_lt hlt with ⟨book, hbook⟩
      have hpositive := (setting.length_book hbook).1
      have hempty : downstream = [] := hdownstream.resolve_right hlt.ne
      have hidle : server = .read := hserver.resolve_right fun h => hlt.ne h.2
      rw [hbook] at hstep
      simp only [CString.take_strlen_memory] at hstep
      rw [CString.strlen_memory, if_pos hpositive] at hstep
      cases hstep
      subst hempty hidle
      exact .sent hlt hbook
  | clientRead count =>
      simp only [step] at hstep
      split_ifs at hstep with hread
      exact absurd hread hnotRead
  | clientPuts =>
      rcases hclient with hclient | ⟨hclient, _⟩ <;>
        simp [step, hclient] at hstep
  | clientClose =>
      simp only [step] at hstep
      split_ifs at hstep with hguard
      cases hstep
      exact .head hi (Or.inr ⟨rfl, hguard.2⟩) hserver hdownstream
  | serverRead count =>
      simp only [step, stepServerRead] at hstep
      split_ifs at hstep with hread hlt hreadable heof
      · exact absurd (hreadable.1.trans hreadable.2.2) (by simp)
      · rcases hclient with hclient | ⟨_, hlast⟩
        · simp [hclient] at heof
        · omega
  | serverEcho => exact absurd hstep (step_serverEcho_of_idle hserver)
  | serverClose =>
      simp only [step] at hstep
      split_ifs at hstep with hguard
      cases hstep
      exact .head hi hclient (Or.inr ⟨rfl, hguard.2⟩) hdownstream

theorem Lockstep.step_sent {setting : Setting} {i : ℕ} {book : CString}
    {next : State} {action : Action} (hi : i < setting.conversationLen)
    (hbook : setting.books[i]? = some book)
    (hwhole : ReadsWhole setting
      ⟨.read, i, setting.titles.take i, .read, i, book.bytes, []⟩ action)
    (hstep : step setting
      ⟨.read, i, setting.titles.take i, .read, i, book.bytes, []⟩ action =
        some next) : Lockstep setting next := by
  cases action with
  | serverRead count =>
      have hcount : count = book.bytes.length := hwhole
      simp only [step, if_true, stepServerRead, if_pos hi] at hstep
      split_ifs at hstep with hreadable heof
      · cases hstep
        simp only [hcount, List.take_length, List.drop_length]
        exact .received hi hbook
      · cases heof.2.2
  | clientRead count =>
      simp [step, stepClientRead, Readable] at hstep
      omega
  | serverClose =>
      simp [step] at hstep
      omega
  | clientWrite | clientPuts | clientClose | serverEcho =>
      simp [step] at hstep

theorem Lockstep.step_received {setting : Setting} {i : ℕ} {book : CString}
    {next : State} {action : Action} (hi : i < setting.conversationLen)
    (hbook : setting.books[i]? = some book)
    (hstep : step setting
      ⟨.read, i, setting.titles.take i, .echo (echoBuffer book.bytes), i, [],
        []⟩ action = some next) : Lockstep setting next := by
  cases action with
  | serverEcho =>
      cases hstep
      exact .echoed hi hbook (Or.inl rfl)
  | clientRead count =>
      simp [step, stepClientRead, Readable] at hstep
      omega
  | clientWrite | clientPuts | clientClose | serverRead | serverClose =>
      simp [step] at hstep

theorem Lockstep.step_echoed {setting : Setting} {i : ℕ} {book : CString}
    {server : ServerPoint} {next : State} {action : Action}
    (hi : i < setting.conversationLen)
    (hbook : setting.books[i]? = some book)
    (hserver : server = .read ∨
      server = .closed ∧ i + 1 = setting.conversationLen)
    (hwhole : ReadsWhole setting
      ⟨.read, i, setting.titles.take i, server, i + 1, [],
        echoBuffer book.bytes⟩ action)
    (hstep : step setting
      ⟨.read, i, setting.titles.take i, server, i + 1, [],
        echoBuffer book.bytes⟩ action = some next) :
    Lockstep setting next := by
  have hfits := (setting.length_book hbook).2
  have hlength := length_echoBuffer hfits
  cases action with
  | clientRead count =>
      simp only [step, if_true, stepClientRead] at hstep
      split_ifs at hstep with hreadable heof
      · cases hstep
        have hcount : book.bytes.length ≤ count := by
          rcases hwhole with hcount | ⟨_, hcount⟩
          · omega
          · simpa [hbook] using hcount
        refine .confirmed hi hbook
          (text_store_take hfits hcount hreadable.2.1) hserver ?_
        rcases hwhole with hcount | ⟨hlast, _⟩
        · left
          apply List.drop_eq_nil_of_le
          omega
        · exact Or.inr hlast
      · rw [heof.2.1] at hlength
        cases hlength
  | serverRead count =>
      simp [step, stepServerRead, Readable] at hstep
      omega
  | serverEcho => exact absurd hstep (step_serverEcho_of_idle hserver)
  | serverClose =>
      simp only [step] at hstep
      split_ifs at hstep with hguard
      cases hstep
      exact .echoed hi hbook (Or.inr ⟨rfl, hguard.2⟩)
  | clientWrite | clientPuts | clientClose =>
      simp [step] at hstep

theorem Lockstep.step_confirmed {setting : Setting} {i : ℕ} {book : CString}
    {buffer downstream : List UInt8} {server : ServerPoint} {next : State}
    {action : Action} (hi : i < setting.conversationLen)
    (hbook : setting.books[i]? = some book)
    (hbuffer : CString.text buffer = book.bytes)
    (hserver : server = .read ∨
      server = .closed ∧ i + 1 = setting.conversationLen)
    (hdownstream : downstream = [] ∨ i + 1 = setting.conversationLen)
    (hstep : step setting
      ⟨.puts buffer, i, setting.titles.take i, server, i + 1, [], downstream⟩
        action = some next) : Lockstep setting next := by
  cases action with
  | clientPuts =>
      cases hstep
      simp only [stepClientPuts, hbuffer, setting.take_titles_succ hbook]
      exact .head hi (Or.inl rfl) hserver hdownstream
  | serverRead count =>
      simp [step, stepServerRead, Readable] at hstep
      omega
  | serverEcho => exact absurd hstep (step_serverEcho_of_idle hserver)
  | serverClose =>
      simp only [step] at hstep
      split_ifs at hstep with hguard
      cases hstep
      exact .confirmed hi hbook hbuffer (Or.inr ⟨rfl, hguard.2⟩) hdownstream
  | clientWrite | clientRead | clientClose =>
      simp [step] at hstep

theorem Lockstep.step {setting : Setting} {s next : State} {action : Action}
    (hwhole : ReadsWhole setting s action) (hs : Lockstep setting s)
    (hstep : Confirmations.step setting s action = some next) :
    Lockstep setting next := by
  cases hs with
  | head hi hclient hserver hdownstream =>
      exact Lockstep.step_head hi hclient hserver hdownstream hstep
  | sent hi hbook => exact Lockstep.step_sent hi hbook hwhole hstep
  | received hi hbook => exact Lockstep.step_received hi hbook hstep
  | echoed hi hbook hserver =>
      exact Lockstep.step_echoed hi hbook hserver hwhole hstep
  | confirmed hi hbook hbuffer hserver hdownstream =>
      exact Lockstep.step_confirmed hi hbook hbuffer hserver hdownstream hstep

/-! ## The run -/

/-- The strings printed are the titles in order, and all of them are printed
by the end. -/
structure Confirms (setting : Setting) (s : State) : Prop where
  printed : s.confirmations <+: setting.titles
  complete : s.client = .exited →
    s.confirmations = setting.titles.take setting.conversationLen

theorem Lockstep.confirms {setting : Setting} {s : State}
    (hs : Lockstep setting s) : Confirms setting s := by
  cases hs with
  | head hi hclient hserver hdownstream =>
      refine ⟨List.take_prefix _ _, ?_⟩
      intro hexited
      rcases hclient with hclient | ⟨_, hlast⟩
      · exact absurd (hclient.symm.trans hexited) (by simp)
      · rw [hlast]
  | sent | received | echoed | confirmed =>
      exact ⟨List.take_prefix _ _, by simp⟩

theorem confirms_of_readsWhole {setting : Setting} {actions : List Action}
    {s : State}
    (hwhole : StepsMeet (step setting) (ReadsWhole setting) initial actions)
    (hrun : run (step setting) initial actions = some s) :
    Confirms setting s := by
  have hlockstep : Lockstep setting s :=
    run_invariant_of_stepsMeet
      (fun _ _ _ hwhole hstate hstep => Lockstep.step hwhole hstate hstep)
      hwhole (initial_lockstep setting) hrun
  exact hlockstep.confirms

instance (setting : Setting) (s : State) :
    ∀ action, Decidable (ReadsWhole setting s action)
  | .serverRead _ => inferInstanceAs (Decidable (_ = _))
  | .clientRead _ => inferInstanceAs (Decidable (_ ∨ _))
  | .clientWrite | .clientPuts | .clientClose | .serverEcho | .serverClose =>
      isTrue trivial

theorem confirms_of_readsWhole_first :
    ∃ s, run (step sockSetting) initial
        [.clientWrite, .serverRead 13, .serverEcho, .clientRead 257,
          .clientPuts] = some s ∧ Confirms sockSetting s := by
  have hwhole : StepsMeet (step sockSetting) (ReadsWhole sockSetting) initial
      [.clientWrite, .serverRead 13, .serverEcho, .clientRead 257,
        .clientPuts] := by
    decide +kernel
  have hrun : (run (step sockSetting) initial
      [.clientWrite, .serverRead 13, .serverEcho, .clientRead 257,
        .clientPuts]).isSome := by
    decide +kernel
  rcases Option.isSome_iff_exists.mp hrun with ⟨s, hs⟩
  exact ⟨s, hs, confirms_of_readsWhole hwhole hs⟩

/-- The server takes the first three bytes of the first title for all of
it. -/
theorem confirms_fails :
    ¬∀ (setting : Setting) (actions : List Action) (s : State),
      run (step setting) initial actions = some s → Confirms setting s := by
  intro hconfirms
  have hrun : (run (step sockSetting) initial
      [.clientWrite, .serverRead 3, .serverEcho, .clientRead 257,
        .clientPuts]).map State.confirmations =
          some [CString.ascii "War"] := by
    decide +kernel
  rcases Option.map_eq_some_iff.mp hrun with ⟨s, hs, hprinted⟩
  have hstarts := (hconfirms sockSetting _ s hs).printed
  rw [hprinted] at hstarts
  exact absurd hstarts (by decide +kernel)

end Miscellaneous.Confirmations
