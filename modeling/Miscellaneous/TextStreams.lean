import Mathlib.Data.List.TakeWhile
import Mathlib.Tactic

/-!
# Text input streams

A stream is the text that is still unread and the flags `eof` and `fail`.
Reading a line and extracting a value follow the C++ library: an operation on
a stream that is not good fails and leaves its target alone, extraction skips
white space first, and a conversion that fails still stores a value.

The second half says what a program can rely on without looking at the flags:
the lines of a text are its pieces between newlines, the last one repeated,
and extracting until failure yields the leading values of a text.
-/

namespace TextStreams

abbrev Text := List Char

/-- `isspace` in the C locale. -/
def isSpace (c : Char) : Bool :=
  c == ' ' || c == '\t' || c == '\n' || c == '\x0b' || c == '\x0c' ||
    c == '\r'

structure Stream where
  rest : Text
  eof : Bool
  fail : Bool
  deriving DecidableEq, Repr

def Stream.good (s : Stream) : Bool := !s.eof && !s.fail

def Stream.start (text : Text) : Stream := ⟨text, false, false⟩

structure Extraction (α : Type*) where
  value : α
  ok : Bool
  rest : Text

/-- A conversion of the text behind white space.  Where it succeeds it has
read something. -/
structure Reader (α : Type*) where
  read : Text → Extraction α
  rest_length_lt : ∀ text, (read text).ok = true →
    (read text).rest.length < text.length

variable {α : Type*}

/-- `std::getline(s, line)`. -/
def getline (s : Stream) (line : Text) : Stream × Text :=
  if s.good then
    match s.rest.dropWhile (· != '\n') with
    | [] => (⟨[], true, s.rest.isEmpty⟩, s.rest)
    | _ :: rest => (Stream.start rest, s.rest.takeWhile (· != '\n'))
  else ({ s with fail := true }, line)

/-- `s >> x`: the new stream and, if the variable is written, its value. -/
def extract (reader : Reader α) (s : Stream) : Stream × Option α :=
  if s.good then
    match s.rest.dropWhile isSpace with
    | [] => (⟨[], true, true⟩, none)
    | c :: text =>
        let extraction := reader.read (c :: text)
        (⟨extraction.rest, extraction.rest.isEmpty, !extraction.ok⟩,
          some extraction.value)
  else ({ s with fail := true }, none)

theorem extract_rest_length_lt (reader : Reader α) {s : Stream}
    (hfail : (extract reader s).1.fail = false) :
    (extract reader s).1.rest.length < s.rest.length := by
  unfold extract at hfail ⊢
  split_ifs at hfail ⊢
  cases hskip : s.rest.dropWhile isSpace with
  | nil => simp [hskip] at hfail
  | cons c text =>
      simp only [hskip, Bool.not_eq_eq_eq_not, Bool.not_false] at hfail
      have hread := reader.rest_length_lt (c :: text) hfail
      have hle : (s.rest.dropWhile isSpace).length ≤ s.rest.length :=
        List.length_dropWhile_le isSpace s.rest
      rw [hskip] at hle
      exact hread.trans_le hle

/-- `for (;;) { s >> x; if (s.fail()) break; xs.push_back(x); }`. -/
def extractAll (reader : Reader α) (s : Stream) : List α × Stream :=
  if _hfail : (extract reader s).1.fail then ([], (extract reader s).1)
  else
    let more := extractAll reader (extract reader s).1
    ((extract reader s).2.toList ++ more.1, more.2)
termination_by s.rest.length
decreasing_by exact extract_rest_length_lt reader (by simpa using _hfail)

def wordReader : Reader Text where
  read text :=
    ⟨text.takeWhile (!isSpace ·), !(text.takeWhile (!isSpace ·)).isEmpty,
      text.dropWhile (!isSpace ·)⟩
  rest_length_lt := by
    intro text hok
    have hsplit : text.takeWhile (!isSpace ·) ++ text.dropWhile (!isSpace ·) =
        text := List.takeWhile_append_dropWhile
    have hlength := congrArg List.length hsplit
    have hpositive : 0 < (text.takeWhile (!isSpace ·)).length := by
      simpa [List.length_pos_iff] using hok
    rw [List.length_append] at hlength
    change (text.dropWhile (!isSpace ·)).length < text.length
    omega

/-! ## Lines -/

theorem getline_start (text line : Text) :
    ∃ first others, text.splitOn '\n' = first :: others ∧
      (getline (Stream.start text) line).2 = first ∧
      (others = [] → (getline (Stream.start text) line).1.good = false) ∧
      (others ≠ [] → ∃ rest, rest.splitOn '\n' = others ∧
        (getline (Stream.start text) line).1 = Stream.start rest) := by
  have htake : '\n' ∉ text.takeWhile (· != '\n') := by
    intro hmem
    simpa using List.mem_takeWhile_imp hmem
  have hsplit : text.takeWhile (· != '\n') ++ text.dropWhile (· != '\n') =
      text := List.takeWhile_append_dropWhile
  cases hdrop : text.dropWhile (· != '\n') with
  | nil =>
      rw [hdrop, List.append_nil] at hsplit
      rw [hsplit] at htake
      refine ⟨text, [], List.splitOn_eq_singleton htake, ?_, ?_, ?_⟩
      · simp [getline, Stream.start, Stream.good, hdrop]
      · simp [getline, Stream.start, Stream.good, hdrop]
      · simp
  | cons c rest =>
      have hc : c = '\n' := by
        have hhead := List.head?_dropWhile_not (· != '\n') text
        simpa [hdrop] using hhead
      rw [hdrop, hc] at hsplit
      have hpieces : text.splitOn '\n' =
          text.takeWhile (· != '\n') :: rest.splitOn '\n' := by
        conv_lhs => rw [← hsplit]
        exact List.splitOn_append_cons_self_of_not_mem htake rest
      refine ⟨_, _, hpieces, ?_, ?_, ?_⟩
      · simp [getline, Stream.start, Stream.good, hdrop]
      · intro hnil
        exact absurd hnil (List.splitOn_ne_nil _ _)
      · intro _
        exact ⟨rest, rfl, by
          simp [getline, Stream.start, Stream.good, hdrop]⟩

def getlines (s : Stream) (line : Text) : ℕ → Stream × Text
  | 0 => (s, line)
  | count + 1 => getlines (getline s line).1 (getline s line).2 count

theorem getlines_of_not_good {s : Stream} (hgood : s.good = false)
    (line : Text) (count : ℕ) : (getlines s line count).2 = line := by
  induction count generalizing s with
  | zero => rfl
  | succ count ih =>
      have hfail : Stream.good { s with fail := true } = false := by
        simp [Stream.good]
      simp only [getlines, getline, hgood, Bool.false_eq_true, if_false]
      exact ih hfail

/-- The line that is read last: a piece of the text between newlines, and
after the end of the text the last piece again. -/
theorem getlines_start (text line : Text) (count : ℕ) :
    (getlines (Stream.start text) line (count + 1)).2 =
      (text.splitOn '\n').getD count
        ((text.splitOn '\n').getLast (List.splitOn_ne_nil _ _)) := by
  induction count generalizing text line with
  | zero =>
      rcases getline_start text line with ⟨first, others, hpieces, hline, _⟩
      simp [getlines, hpieces, hline]
  | succ count ih =>
      rcases getline_start text line with
        ⟨first, others, hpieces, hline, hend, hmore⟩
      rw [getlines, hline]
      by_cases hothers : others = []
      · rw [getlines_of_not_good (hend hothers)]
        simp [hpieces, hothers]
      · rcases hmore hothers with ⟨rest, hrest, hstream⟩
        rw [hstream, ih rest first]
        simp [hpieces, hrest, List.getLast_cons hothers]

/-! ## Leading values -/

/-- The values that a reader finds in a text, up to its first failure. -/
def leading (reader : Reader α) (text : Text) : List α :=
  if _hok : text.dropWhile isSpace ≠ [] ∧
      (reader.read (text.dropWhile isSpace)).ok then
    (reader.read (text.dropWhile isSpace)).value ::
      leading reader (reader.read (text.dropWhile isSpace)).rest
  else []
termination_by text.length
decreasing_by
  exact (reader.rest_length_lt _ _hok.2).trans_le
    (List.length_dropWhile_le isSpace text)

@[simp] theorem leading_nil (reader : Reader α) : leading reader [] = [] := by
  simp [leading]

theorem leading_of_read {reader : Reader α} {text rest : Text} {value : α}
    (hskip : text.dropWhile isSpace ≠ [])
    (hread : reader.read (text.dropWhile isSpace) = ⟨value, true, rest⟩) :
    leading reader text = value :: leading reader rest := by
  rw [leading, dif_pos ⟨hskip, by rw [hread]⟩, hread]

theorem extract_start (reader : Reader α) {text word : Text} {c : Char}
    (hskip : text.dropWhile isSpace = c :: word) :
    extract reader (Stream.start text) =
      (⟨(reader.read (c :: word)).rest, (reader.read (c :: word)).rest.isEmpty,
        !(reader.read (c :: word)).ok⟩,
        some (reader.read (c :: word)).value) := by
  simp [extract, Stream.start, Stream.good, hskip]

theorem extractAll_of_not_good (reader : Reader α) {s : Stream}
    (hgood : s.good = false) : (extractAll reader s).1 = [] := by
  rw [extractAll]
  simp [extract, hgood]

/-- A stream behind a successful conversion is at its end or as good as a new
one. -/
theorem extractAll_behind (reader : Reader α) {rest : Text}
    (hstart : (extractAll reader (Stream.start rest)).1 =
      leading reader rest) :
    (extractAll reader ⟨rest, rest.isEmpty, false⟩).1 =
      leading reader rest := by
  cases rest with
  | nil =>
      rw [leading_nil]
      exact extractAll_of_not_good reader rfl
  | cons c rest => exact hstart

theorem extractAll_start (reader : Reader α) (text : Text) :
    (extractAll reader (Stream.start text)).1 = leading reader text := by
  induction hlength : text.length using Nat.strong_induction_on
    generalizing text with
  | _ length ih =>
      rw [extractAll, leading]
      cases hskip : text.dropWhile isSpace with
      | nil => simp [extract, Stream.start, Stream.good, hskip]
      | cons c word =>
          rw [extract_start reader hskip]
          cases hok : (reader.read (c :: word)).ok with
          | false => simp
          | true =>
              have hread : (reader.read (c :: word)).rest.length <
                  (c :: word).length := reader.rest_length_lt _ hok
              have hle : (text.dropWhile isSpace).length ≤ text.length :=
                List.length_dropWhile_le isSpace text
              rw [hskip] at hle
              have hrest := ih _ (by omega) (reader.read (c :: word)).rest rfl
              simp [extractAll_behind reader hrest]

/-! ## Tokens -/

/-- A token that the reader takes as a value, whatever follows it behind white
space. -/
structure Reads (reader : Reader α) (token : Text) (value : α) : Prop where
  nonempty : token ≠ []
  solid : ∀ c ∈ token, isSpace c = false
  reads : ∀ rest, (∀ c ∈ rest.head?, isSpace c = true) →
    reader.read (token ++ rest) = ⟨value, true, rest⟩

theorem Reads.dropWhile_append {reader : Reader α} {token : Text} {value : α}
    (hreads : Reads reader token value) (rest : Text) :
    (token ++ rest).dropWhile isSpace = token ++ rest := by
  cases token with
  | nil => exact absurd rfl hreads.nonempty
  | cons c token =>
      have hc : isSpace c = false := hreads.solid c (by simp)
      simp [hc]

theorem Reads.extract {reader : Reader α} {token : Text} {value : α}
    (hreads : Reads reader token value) {rest : Text}
    (hrest : ∀ c ∈ rest.head?, isSpace c = true) :
    extract reader (Stream.start (token ++ rest)) =
      (⟨rest, rest.isEmpty, false⟩, some value) := by
  cases htoken : token ++ rest with
  | nil =>
      rw [List.append_eq_nil_iff] at htoken
      exact absurd htoken.1 hreads.nonempty
  | cons c word =>
      have hskip : (c :: word).dropWhile isSpace = c :: word := by
        rw [← htoken, hreads.dropWhile_append]
      rw [extract_start reader hskip, ← htoken, hreads.reads rest hrest]
      rfl

/-- A maximal run is a token that is followed by nothing of its kind. -/
theorem maximal_run {p : Char → Bool} {token rest : Text}
    (htoken : ∀ c ∈ token, p c = true) (hrest : ∀ c ∈ rest.head?, p c = false) :
    (token ++ rest).takeWhile p = token ∧
      (token ++ rest).dropWhile p = rest := by
  rw [List.takeWhile_append_of_pos htoken, List.dropWhile_append_of_pos htoken]
  cases rest with
  | nil => simp
  | cons c rest =>
      have hc : p c = false := hrest c rfl
      simp [hc]

theorem reads_word {word : Text} (hne : word ≠ [])
    (hsolid : ∀ c ∈ word, isSpace c = false) :
    Reads wordReader word word := by
  constructor
  · exact hne
  · exact hsolid
  · intro rest hrest
    have hword : ∀ c ∈ word, (!isSpace c) = true := by
      intro c hc
      simp [hsolid c hc]
    have hstop : ∀ c ∈ rest.head?, (!isSpace c) = false := by
      intro c hc
      simp [hrest c hc]
    rcases maximal_run hword hstop with ⟨htake, hdrop⟩
    simp only [wordReader, htake, hdrop]
    simp [hne]

theorem leading_tokens {reader : Reader α} {tokens : List Text}
    {values : List α} (hreads : List.Forall₂ (Reads reader) tokens values) :
    leading reader (' ' :: tokens.flatMap (· ++ [' '])) = values := by
  induction hreads with
  | nil =>
      rw [leading]
      simp [isSpace]
  | @cons token value tokens values hfirst _ ih =>
      have hskip : (' ' :: (token :: tokens).flatMap (· ++ [' '])).dropWhile
          isSpace = token ++ ' ' :: tokens.flatMap (· ++ [' ']) := by
        rw [List.flatMap_cons, List.append_assoc, List.singleton_append,
          List.dropWhile_cons_of_pos rfl, hfirst.dropWhile_append]
      have hread := hfirst.reads (' ' :: tokens.flatMap (· ++ [' ']))
        (by simp [isSpace])
      have hne : token ++ ' ' :: tokens.flatMap (· ++ [' ']) ≠ [] := by simp
      rw [← hskip] at hread hne
      rw [leading_of_read hne hread, ih]

end TextStreams
