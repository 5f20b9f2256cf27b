import Miscellaneous.CStrings
import Miscellaneous.UpperEcho
import Mathlib.Tactic

/-!
# Printing what was read

The loops of `server_unix.c`, `server.c`, `socket_server.cpp` and
`chat_client.cpp` read into a buffer and print the buffer as a C string.  They
differ in the size of the buffer, in what is done to it before a read and in what
becomes of it afterwards.  What is printed is what was read when the byte behind
it is NUL.
-/

namespace Miscellaneous.PrintedReads

open CString UpperEcho

structure ReadLoop where
  /-- The number of bytes of the buffer, and the one that the call passes. -/
  size : ℕ
  /-- What is done to the buffer before a read. -/
  prepare : List UInt8 → List UInt8
  /-- The buffer after the rest of the turn, which knows the number of bytes. -/
  reuse : List UInt8 → ℕ → List UInt8

/-- The bytes are upper-cased in the buffer, which stays as it is otherwise, also
for the next connection. -/
def serverUnix : ReadLoop where
  size := maxLine
  prepare := id
  reuse buf n := (buf.take n).map toupper ++ buf.drop n

/-- `char buffer[BuffSize + 1]`, cleared before each read. -/
def server : ReadLoop where
  size := 256 + 1
  prepare _ := List.replicate (256 + 1) 0
  reuse buffer _ := buffer

def gotIt : List UInt8 := ascii "got it"

/-- The answer is formatted into the buffer. -/
def socketServer : ReadLoop where
  size := 256
  prepare := id
  reuse buffer _ := store buffer (gotIt ++ [0])

def chatClient : ReadLoop where
  size := 1024
  prepare _ := List.replicate 1024 0
  reuse recvBuf _ := recvBuf

/-- What each read returned, and the buffer that is printed after it. -/
def ReadLoop.printed (loop : ReadLoop) (buffer : List UInt8) :
    List (List UInt8) → List (List UInt8 × List UInt8)
  | [] => []
  | bytes :: reads =>
      let buffer' := store (loop.prepare buffer) bytes
      (bytes, buffer') :: loop.printed (loop.reuse buffer' bytes.length) reads

/-- The result of a read into a buffer of this size, without NUL. -/
def ReadResult (size : ℕ) (bytes : List UInt8) : Prop :=
  1 ≤ bytes.length ∧ bytes.length ≤ size ∧ (0 : UInt8) ∉ bytes

/-- Every buffer that is printed has a NUL, and its text is what the read
returned. -/
def ReadLoop.PrintsReads (loop : ReadLoop) (buffer : List UInt8)
    (reads : List (List UInt8)) : Prop :=
  ∀ shown ∈ loop.printed buffer reads,
    (0 : UInt8) ∈ shown.2 ∧ text shown.2 = shown.1

/-! ## One read -/

theorem text_store_iff {buffer bytes : List UInt8} (hnul : (0 : UInt8) ∉ bytes) :
    (0 : UInt8) ∈ store buffer bytes ∧ text (store buffer bytes) = bytes ↔
      buffer[bytes.length]? = some 0 := by
  constructor
  · rintro ⟨hmem, htext⟩
    unfold store at hmem htext
    cases hrest : buffer.drop bytes.length with
    | nil =>
        rw [hrest, List.append_nil] at hmem
        exact absurd hmem hnul
    | cons byte rest =>
        have hfirst : buffer[bytes.length]? = some byte := by
          rw [← List.head?_drop, hrest]
          rfl
        rw [hfirst]
        by_contra hbyte
        have hbyte : byte ≠ 0 := fun h => hbyte (congrArg some h)
        have hall : ∀ b ∈ bytes, decide (b ≠ 0) = true :=
          fun b hb => decide_eq_true (ne_of_mem_of_not_mem hb hnul)
        rw [hrest, text, List.takeWhile_append_of_pos hall,
          List.takeWhile_cons, if_pos (decide_eq_true hbyte)] at htext
        have hlength := congrArg List.length htext
        simp at hlength
  · intro hbyte
    have hrest : buffer.drop bytes.length =
        0 :: buffer.drop (bytes.length + 1) := by
      rcases List.getElem?_eq_some_iff.mp hbyte with ⟨hlt, hvalue⟩
      rw [List.drop_eq_getElem_cons hlt, hvalue]
    unfold store
    rw [hrest]
    exact ⟨by simp, text_append_nul hnul _⟩

/-! ## A sequence of reads -/

def ReadLoop.bufferAfter (loop : ReadLoop) (buffer : List UInt8)
    (reads : List (List UInt8)) : List UInt8 :=
  reads.foldl
    (fun buffer bytes =>
      loop.reuse (store (loop.prepare buffer) bytes) bytes.length) buffer

/-- Each read must find a NUL at its end. -/
theorem printsReads_iff {loop : ReadLoop} {reads : List (List UInt8)}
    (hreads : ∀ bytes ∈ reads, (0 : UInt8) ∉ bytes) (buffer : List UInt8) :
    loop.PrintsReads buffer reads ↔
      ∀ before bytes behind, reads = before ++ bytes :: behind →
        (loop.prepare (loop.bufferAfter buffer before))[bytes.length]? =
          some 0 := by
  unfold ReadLoop.PrintsReads
  induction reads generalizing buffer with
  | nil =>
      constructor
      · intro _ before bytes behind hsplit
        exact absurd hsplit (by simp)
      · intro _ shown hshown
        cases hshown
  | cons bytes reads ih =>
      rw [List.forall_mem_cons] at hreads
      rw [ReadLoop.printed, List.forall_mem_cons, ih hreads.2,
        text_store_iff hreads.1]
      constructor
      · rintro ⟨hfirst, hrest⟩ before later behind hsplit
        cases before with
        | nil =>
            cases hsplit
            exact hfirst
        | cons first before =>
            rw [List.cons_append, List.cons.injEq] at hsplit
            rcases hsplit with ⟨rfl, hsplit⟩
            exact hrest before later behind hsplit
      · intro hall
        refine ⟨hall [] bytes reads rfl, ?_⟩
        rintro before later behind rfl
        exact hall (bytes :: before) later behind rfl

/-- Only bytes behind what was read can be NUL. -/
theorem store_eq_nul_iff {buffer bytes : List UInt8}
    (hnul : (0 : UInt8) ∉ bytes) (k : ℕ) :
    (store buffer bytes)[k]? = some 0 ↔
      bytes.length ≤ k ∧ buffer[k]? = some 0 := by
  unfold store
  by_cases hk : bytes.length ≤ k
  · rw [List.getElem?_append_right hk, List.getElem?_drop]
    have hplace : bytes.length + (k - bytes.length) = k := by omega
    rw [hplace]
    exact ⟨fun h => ⟨hk, h⟩, fun h => h.2⟩
  · have hlt : k < bytes.length := by omega
    rw [List.getElem?_append_left hlt, List.getElem?_eq_getElem hlt,
      Option.some.injEq]
    constructor
    · intro hzero
      exact absurd (hzero ▸ List.getElem_mem hlt) hnul
    · exact fun h => absurd h.1 hk

/-! ## Cleared buffers -/

/-- Where the buffer is cleared, a read must leave the last byte. -/
theorem printsReads_cleared_iff {loop : ReadLoop}
    (hprepare : ∀ buffer, loop.prepare buffer = List.replicate loop.size 0)
    {reads : List (List UInt8)} (hreads : ∀ bytes ∈ reads, (0 : UInt8) ∉ bytes)
    (buffer : List UInt8) :
    loop.PrintsReads buffer reads ↔
      ∀ bytes ∈ reads, bytes.length < loop.size := by
  have hnul (n : ℕ) : (List.replicate loop.size (0 : UInt8))[n]? = some 0 ↔
      n < loop.size := by
    rw [List.getElem?_replicate]
    simp
  rw [printsReads_iff hreads]
  simp only [hprepare, hnul]
  constructor
  · intro hall bytes hbytes
    rcases List.append_of_mem hbytes with ⟨before, behind, hsplit⟩
    exact hall before bytes behind hsplit
  · rintro hall before bytes behind rfl
    exact hall bytes (by simp)

/-! ## A buffer that keeps its bytes -/

theorem toupper_eq_zero_iff (c : UInt8) : toupper c = 0 ↔ c = 0 := by
  unfold toupper
  split_ifs with hlower
  · constructor
    · intro hzero
      have hlow := UInt8.le_iff_toNat_le.mp hlower.1
      have hsub := congrArg UInt8.toNat hzero
      have hspace : 32 ≤ c :=
        UInt8.le_iff_toNat_le.mpr (le_trans (by decide) hlow)
      rw [UInt8.toNat_sub_of_le _ _ hspace] at hsub
      simp at hlow hsub
      omega
    · rintro rfl
      exact absurd hlower.1 (by decide)
  · rfl

/-- Upper-casing neither makes nor removes a NUL. -/
theorem serverUnix_reuse (buffer : List UInt8) (n k : ℕ) :
    (serverUnix.reuse buffer n)[k]? = some 0 ↔ buffer[k]? = some 0 := by
  have hsplit : buffer = buffer.take n ++ buffer.drop n :=
    (List.take_append_drop n buffer).symm
  have hreuse : serverUnix.reuse buffer n =
      (buffer.take n).map toupper ++ buffer.drop n := rfl
  rw [hreuse]
  conv_rhs => rw [hsplit]
  by_cases hk : k < (buffer.take n).length
  · rw [List.getElem?_append_left (by rwa [List.length_map]),
      List.getElem?_append_left hk, List.getElem?_map,
      List.getElem?_eq_getElem hk]
    simp only [Option.map_some, Option.some.injEq, toupper_eq_zero_iff]
  · rw [List.getElem?_append_right (by rw [List.length_map]; omega),
      List.getElem?_append_right (by omega), List.length_map]

/-- A NUL that no read has reached. -/
theorem serverUnix_bufferAfter {before : List (List UInt8)}
    (hbefore : ∀ bytes ∈ before, (0 : UInt8) ∉ bytes) (buffer : List UInt8)
    (k : ℕ) :
    (serverUnix.bufferAfter buffer before)[k]? = some 0 ↔
      buffer[k]? = some 0 ∧ ∀ earlier ∈ before, earlier.length ≤ k := by
  induction before using List.reverseRecOn with
  | nil => simp [ReadLoop.bufferAfter]
  | append_singleton before bytes ih =>
      rw [List.forall_mem_append, List.forall_mem_singleton] at hbefore
      unfold ReadLoop.bufferAfter at ih ⊢
      rw [List.foldl_append, List.foldl_cons, List.foldl_nil, serverUnix_reuse,
        store_eq_nul_iff hbefore.2, List.forall_mem_append,
        List.forall_mem_singleton]
      have hkept := ih hbefore.1
      constructor
      · rintro ⟨hle, hzero⟩
        exact ⟨(hkept.mp hzero).1, (hkept.mp hzero).2, hle⟩
      · rintro ⟨hzero, hall, hle⟩
        exact ⟨hle, hkept.mpr ⟨hzero, hall⟩⟩

/-! ## A buffer that starts with the answer -/

theorem socketServer_reuse (buffer : List UInt8) (n k : ℕ) :
    (socketServer.reuse buffer n)[k]? = some 0 ↔
      k = gotIt.length ∨ gotIt.length < k ∧ buffer[k]? = some 0 := by
  have hnul : (0 : UInt8) ∉ gotIt := by decide
  have hreuse : socketServer.reuse buffer n =
      gotIt ++ 0 :: buffer.drop (gotIt.length + 1) := by
    simp [socketServer, store]
  rw [hreuse]
  rcases lt_trichotomy k gotIt.length with hlt | heq | hgt
  · rw [List.getElem?_append_left hlt, List.getElem?_eq_getElem hlt,
      Option.some.injEq]
    constructor
    · intro hzero
      exact absurd (hzero ▸ List.getElem_mem hlt) hnul
    · omega
  · rw [List.getElem?_append_right heq.ge, heq, Nat.sub_self]
    simp
  · rw [List.getElem?_append_right hgt.le]
    have hplace : k - gotIt.length = k - (gotIt.length + 1) + 1 := by omega
    rw [hplace, List.getElem?_cons_succ, List.getElem?_drop]
    have hsum : gotIt.length + 1 + (k - (gotIt.length + 1)) = k := by omega
    rw [hsum]
    constructor
    · exact fun hzero => Or.inr ⟨hgt, hzero⟩
    · rintro (heq | hzero)
      · omega
      · exact hzero.2

/-- The NUL of the answer, or one behind it that no read has reached. -/
theorem socketServer_bufferAfter {before : List (List UInt8)}
    (hbefore : ∀ bytes ∈ before, (0 : UInt8) ∉ bytes) (buffer : List UInt8)
    (k : ℕ) :
    (socketServer.bufferAfter buffer before)[k]? = some 0 ↔
      before ≠ [] ∧ k = gotIt.length ∨
        (before ≠ [] → gotIt.length < k) ∧ buffer[k]? = some 0 ∧
          ∀ earlier ∈ before, earlier.length ≤ k := by
  induction before using List.reverseRecOn with
  | nil => simp [ReadLoop.bufferAfter]
  | append_singleton before bytes ih =>
      rw [List.forall_mem_append, List.forall_mem_singleton] at hbefore
      unfold ReadLoop.bufferAfter at ih ⊢
      rw [List.foldl_append, List.foldl_cons, List.foldl_nil,
        socketServer_reuse, store_eq_nul_iff hbefore.2, List.forall_mem_append,
        List.forall_mem_singleton]
      have hkept := ih hbefore.1
      have hne : before ++ [bytes] ≠ [] := by simp
      constructor
      · rintro (heq | ⟨hgt, hle, hzero⟩)
        · exact Or.inl ⟨hne, heq⟩
        · rcases hkept.mp hzero with ⟨_, heq⟩ | ⟨_, hfirst, hall⟩
          · omega
          · exact Or.inr ⟨fun _ => hgt, hfirst, hall, hle⟩
      · rintro (⟨_, heq⟩ | ⟨hgt, hfirst, hall, hle⟩)
        · exact Or.inl heq
        · exact Or.inr ⟨hgt hne, hle,
            hkept.mpr (Or.inr ⟨fun _ => hgt hne, hfirst, hall⟩)⟩

/-! ## The four programs -/

/-- There was a NUL behind each read from the beginning, and no earlier read was
longer. -/
def KeepsNul (buffer : List UInt8) (reads : List (List UInt8)) : Prop :=
  ∀ before bytes behind, reads = before ++ bytes :: behind →
    buffer[bytes.length]? = some 0 ∧
      ∀ earlier ∈ before, earlier.length ≤ bytes.length

/-- After the first read the NUL of the answer counts as well, and the bytes in
front of it do not. -/
def KeepsNulBehindAnswer (buffer : List UInt8) (reads : List (List UInt8)) :
    Prop :=
  ∀ before bytes behind, reads = before ++ bytes :: behind →
    before ≠ [] ∧ bytes.length = gotIt.length ∨
      (before ≠ [] → gotIt.length < bytes.length) ∧
        buffer[bytes.length]? = some 0 ∧
          ∀ earlier ∈ before, earlier.length ≤ bytes.length

theorem printsReads_programs_iff {reads : List (List UInt8)}
    (hreads : ∀ bytes ∈ reads, (0 : UInt8) ∉ bytes) (buffer : List UInt8) :
    (serverUnix.PrintsReads buffer reads ↔ KeepsNul buffer reads) ∧
    (server.PrintsReads buffer reads ↔
      ∀ bytes ∈ reads, bytes.length < server.size) ∧
    (socketServer.PrintsReads buffer reads ↔
      KeepsNulBehindAnswer buffer reads) ∧
    (chatClient.PrintsReads buffer reads ↔
      ∀ bytes ∈ reads, bytes.length < chatClient.size) := by
  have hearlier {before bytes behind}
      (hsplit : reads = before ++ bytes :: behind) :
      ∀ bytes ∈ before, (0 : UInt8) ∉ bytes :=
    fun other hother => hreads other (by simp [hsplit, hother])
  refine ⟨?_, printsReads_cleared_iff (fun _ => rfl) hreads buffer, ?_,
    printsReads_cleared_iff (fun _ => rfl) hreads buffer⟩
  · rw [printsReads_iff hreads]
    apply forall₃_congr
    intro before bytes behind
    apply imp_congr_right
    intro hsplit
    exact serverUnix_bufferAfter (hearlier hsplit) buffer bytes.length
  · rw [printsReads_iff hreads]
    apply forall₃_congr
    intro before bytes behind
    apply imp_congr_right
    intro hsplit
    exact socketServer_bufferAfter (hearlier hsplit) buffer bytes.length

theorem printsReads_programs_greeting :
    let reads := [ascii "hello"]
    serverUnix.PrintsReads (List.replicate serverUnix.size 0) reads ∧
      server.PrintsReads (List.replicate server.size 0) reads ∧
      socketServer.PrintsReads (List.replicate socketServer.size 0) reads ∧
      chatClient.PrintsReads (List.replicate chatClient.size 0) reads := by
  intro reads
  have hreads : ∀ bytes ∈ reads, (0 : UInt8) ∉ bytes := by decide
  have hprograms := fun size =>
    printsReads_programs_iff hreads (List.replicate size 0)
  have hnul {size : ℕ} (hsize : (ascii "hello").length < size) :
      (List.replicate size (0 : UInt8))[(ascii "hello").length]? = some 0 := by
    rw [List.getElem?_replicate, if_pos hsize]
  have honly {before bytes behind}
      (hsplit : reads = before ++ bytes :: behind) :
      before = [] ∧ bytes = ascii "hello" := by
    cases before with
    | nil =>
        rw [List.nil_append, List.cons.injEq] at hsplit
        exact ⟨rfl, hsplit.1.symm⟩
    | cons first before => simp [reads] at hsplit
  refine ⟨(hprograms _).1.mpr ?_, (hprograms _).2.1.mpr (by decide),
    (hprograms _).2.2.1.mpr ?_, (hprograms _).2.2.2.mpr (by decide)⟩
  · intro before bytes behind hsplit
    rcases honly hsplit with ⟨rfl, rfl⟩
    exact ⟨hnul (by decide), by simp⟩
  · intro before bytes behind hsplit
    rcases honly hsplit with ⟨rfl, rfl⟩
    exact Or.inr ⟨fun hne => absurd rfl hne, hnul (by decide), by simp⟩

def ReadLoop.AlwaysPrintsReads (loop : ReadLoop) : Prop :=
  ∀ buffer reads, buffer.length = loop.size →
    (∀ bytes ∈ reads, ReadResult loop.size bytes) →
      loop.PrintsReads buffer reads

theorem readResult_replicate {size n : ℕ} (hpositive : 1 ≤ n) (hle : n ≤ size) :
    ReadResult size (List.replicate n 97) := by
  refine ⟨by simpa using hpositive, by simpa using hle, ?_⟩
  intro hmem
  have hzero := List.eq_of_mem_replicate hmem
  exact absurd hzero (by decide)

/-- A read that fills a cleared buffer. -/
theorem not_alwaysPrintsReads_cleared {loop : ReadLoop}
    (hprepare : ∀ buffer, loop.prepare buffer = List.replicate loop.size 0)
    (hsize : 1 ≤ loop.size) : ¬loop.AlwaysPrintsReads := by
  intro halways
  have hread := @readResult_replicate loop.size loop.size hsize le_rfl
  have hprints := halways (List.replicate loop.size 0)
    [List.replicate loop.size 97] List.length_replicate
    (List.forall_mem_singleton.mpr hread)
  rw [printsReads_cleared_iff hprepare (List.forall_mem_singleton.mpr hread.2.2),
    List.forall_mem_singleton, List.length_replicate] at hprints
  exact lt_irrefl _ hprints

/-- A read of one byte after one of `n` bytes finds what these have left. -/
theorem not_alwaysPrintsReads_second {loop : ReadLoop} {n : ℕ}
    (hpositive : 1 ≤ n) (hle : n ≤ loop.size)
    (hleft : (loop.prepare (loop.bufferAfter (List.replicate loop.size 0)
      [List.replicate n 97]))[1]? ≠ some 0) : ¬loop.AlwaysPrintsReads := by
  intro halways
  have hfirst := @readResult_replicate loop.size n hpositive hle
  have hsecond := @readResult_replicate loop.size 1 le_rfl (hpositive.trans hle)
  have hreads : ∀ bytes ∈ [List.replicate n 97, List.replicate 1 97],
      ReadResult loop.size bytes :=
    List.forall_mem_cons.mpr ⟨hfirst, List.forall_mem_singleton.mpr hsecond⟩
  have hprints := halways (List.replicate loop.size 0) _ List.length_replicate
    hreads
  rw [printsReads_iff fun bytes hbytes => (hreads bytes hbytes).2.2] at hprints
  exact hleft (hprints [List.replicate n 97] (List.replicate 1 97) [] rfl)

/-- None of the programs prints what it reads in every case. -/
theorem programs_print_other_text :
    ¬serverUnix.AlwaysPrintsReads ∧ ¬server.AlwaysPrintsReads ∧
      ¬socketServer.AlwaysPrintsReads ∧ ¬chatClient.AlwaysPrintsReads := by
  refine ⟨@not_alwaysPrintsReads_second serverUnix 2 ?_ ?_ ?_,
    not_alwaysPrintsReads_cleared (fun _ => rfl) ?_,
    @not_alwaysPrintsReads_second socketServer 1 ?_ ?_ ?_,
    not_alwaysPrintsReads_cleared (fun _ => rfl) ?_⟩
  all_goals decide

end Miscellaneous.PrintedReads
