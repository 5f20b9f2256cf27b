import Mathlib.Algebra.Order.BigOperators.Group.List
import Mathlib.Data.List.Basic
import Mathlib.Tactic

/-!
# Framing of HTTP responses

A response is a header, a blank line, and as many characters as the field
`Content-Length` of the header tells.  A client takes responses off a stream one
after another.  Whether a text is a response does not depend on what comes behind
it, so a stream is split exactly into the responses that it consists of.
-/

namespace HttpFraming

def lineEnd : List Char := ['\r', '\n']

def blankLine : List Char := lineEnd ++ lineEnd

/-- The text in front of the first blank line and the text behind it. -/
def splitHeader : List Char → Option (List Char × List Char)
  | [] => none
  | c :: rest =>
      if blankLine <+: c :: rest then some ([], (c :: rest).drop blankLine.length)
      else (splitHeader rest).map fun parts => (c :: parts.1, parts.2)

/-- The value of a field behind the first line of a header. -/
def fieldValue (name : List Char) : List Char → Option (List Char)
  | [] => none
  | c :: rest =>
      if lineEnd ++ name ++ [':', ' '] <+: c :: rest then
        some (((c :: rest).drop (name.length + 4)).takeWhile (· ≠ '\r'))
      else fieldValue name rest

def contentLength (header : List Char) : Option ℕ := do
  let digits ← fieldValue "Content-Length".toList header
  if digits ≠ [] ∧ digits.all Char.isDigit then
    some (Nat.ofDigitChars 10 digits 0)
  else none

def statusStart : List Char := "HTTP/1.1 ".toList

/-- The first response of a stream and the rest of it; nothing where the stream
does not start with a complete one. -/
def readResponse (stream : List Char) : Option (List Char × List Char) :=
  match splitHeader stream with
  | none => none
  | some (header, rest) =>
      match contentLength header with
      | none => none
      | some length =>
          if statusStart <+: header ∧ length ≤ rest.length then
            some (header ++ blankLine ++ rest.take length, rest.drop length)
          else none

/-- A complete response and nothing behind it. -/
def IsResponse (response : List Char) : Prop :=
  readResponse response = some (response, [])

def readResponses : ℕ → List Char → Option (List (List Char))
  | 0, stream => if stream = [] then some [] else none
  | fuel + 1, stream =>
      if stream = [] then some []
      else
        match readResponse stream with
        | none => none
        | some (response, rest) =>
            (readResponses fuel rest).map fun responses => response :: responses

/-- The responses of a stream, if no characters are left over. -/
def splitStream (stream : List Char) : Option (List (List Char)) :=
  readResponses stream.length stream

/-! ## One response -/

theorem splitHeader_eq {stream header rest : List Char}
    (hsplit : splitHeader stream = some (header, rest)) :
    stream = header ++ blankLine ++ rest := by
  induction stream generalizing header with
  | nil => cases hsplit
  | cons c stream ih =>
      unfold splitHeader at hsplit
      split_ifs at hsplit with hblank
      · rcases hblank with ⟨behind, hbehind⟩
        rw [← hbehind, List.drop_left] at hsplit
        cases hsplit
        rw [← hbehind, List.nil_append]
      · rcases Option.map_eq_some_iff.mp hsplit with
          ⟨⟨before, behind⟩, hrest, hparts⟩
        cases hparts
        rw [ih hrest]
        rfl

theorem splitHeader_congr {header rest : List Char}
    (hsplit : splitHeader (header ++ blankLine ++ rest) = some (header, rest))
    (rest' : List Char) :
    splitHeader (header ++ blankLine ++ rest') = some (header, rest') := by
  induction header with
  | nil =>
      change splitHeader ('\r' :: '\n' :: '\r' :: '\n' :: rest') = some ([], rest')
      unfold splitHeader
      rw [if_pos ⟨rest', rfl⟩]
      rfl
  | cons c header ih =>
      simp only [List.cons_append] at hsplit ⊢
      unfold splitHeader at hsplit ⊢
      split_ifs at hsplit with hblank
      · cases hsplit
      · have hnot : ¬blankLine <+: c :: (header ++ blankLine ++ rest') := by
          intro hblank'
          apply hblank
          -- both streams have the same first characters
          have hfirst : c :: (header ++ blankLine) <+:
              c :: (header ++ blankLine ++ rest') :=
            ⟨rest', rfl⟩
          have hlength : blankLine.length ≤ (c :: (header ++ blankLine)).length := by
            rw [List.length_cons, List.length_append]
            omega
          exact (List.prefix_of_prefix_length_le hblank' hfirst hlength).trans
            ⟨rest, rfl⟩
        rw [if_neg hnot]
        rcases Option.map_eq_some_iff.mp hsplit with
          ⟨⟨before, behind⟩, hrest, hparts⟩
        cases hparts
        rw [ih hrest]
        rfl

/-- A response is read the same way whatever comes behind it. -/
theorem readResponse_congr {stream response rest : List Char}
    (hread : readResponse stream = some (response, rest)) (rest' : List Char) :
    stream = response ++ rest ∧
      readResponse (response ++ rest') = some (response, rest') := by
  unfold readResponse at hread
  split at hread
  · cases hread
  · next header behind hsplit =>
      split at hread
      · cases hread
      · next length hlength =>
          split_ifs at hread with hguard
          cases hread
          have hstream := splitHeader_eq hsplit
          constructor
          · rw [hstream, List.append_assoc _ (behind.take length),
              List.take_append_drop]
          · rw [hstream] at hsplit
            have hsame := splitHeader_congr hsplit (behind.take length ++ rest')
            have htake : (behind.take length).length = length :=
              List.length_take_of_le hguard.2
            unfold readResponse
            rw [List.append_assoc _ (behind.take length), hsame]
            simp only [hlength]
            rw [if_pos ⟨hguard.1, by rw [List.length_append]; omega⟩,
              List.take_left' htake, List.drop_left' htake]

theorem IsResponse.read {response : List Char} (hresponse : IsResponse response)
    (rest : List Char) : readResponse (response ++ rest) = some (response, rest) :=
  (readResponse_congr hresponse rest).2

theorem isResponse_of_read {stream response rest : List Char}
    (hread : readResponse stream = some (response, rest)) :
    IsResponse response ∧ stream = response ++ rest := by
  have hempty := (readResponse_congr hread []).2
  rw [List.append_nil] at hempty
  exact ⟨hempty, (readResponse_congr hread []).1⟩

theorem IsResponse.statusStart_isPrefix {response : List Char}
    (hresponse : IsResponse response) : statusStart <+: response := by
  unfold IsResponse readResponse at hresponse
  split at hresponse
  · cases hresponse
  · next header behind hsplit =>
      split at hresponse
      · cases hresponse
      · split_ifs at hresponse with hguard
        rw [splitHeader_eq hsplit, List.append_assoc]
        exact hguard.1.trans (List.prefix_append _ _)

theorem IsResponse.ne_nil {response : List Char}
    (hresponse : IsResponse response) : response ≠ [] := by
  rintro rfl
  cases hresponse

/-! ## A stream -/

theorem nil_eq_responses_iff {fuel : ℕ} {responses : List (List Char)} :
    [] = responses ↔
      [] = responses.flatten ∧ (∀ response ∈ responses, IsResponse response) ∧
        responses.length ≤ fuel := by
  constructor
  · rintro rfl
    exact ⟨rfl, by simp, Nat.zero_le _⟩
  · rintro ⟨hflat, hresponses, _⟩
    cases responses with
    | nil => rfl
    | cons response responses =>
        rw [List.flatten_cons, eq_comm, List.append_eq_nil_iff] at hflat
        exact absurd hflat.1
          (hresponses response (List.mem_cons_self ..)).ne_nil

theorem readResponses_eq_some {fuel : ℕ} {stream : List Char}
    {responses : List (List Char)} :
    readResponses fuel stream = some responses ↔
      stream = responses.flatten ∧ (∀ response ∈ responses, IsResponse response) ∧
        responses.length ≤ fuel := by
  induction fuel generalizing stream responses with
  | zero =>
      unfold readResponses
      split_ifs with hnil
      · rw [hnil, Option.some.injEq]
        exact nil_eq_responses_iff
      · constructor
        · intro hnone
          cases hnone
        · rintro ⟨hflat, _, hfuel⟩
          rw [List.length_eq_zero_iff.mp (by omega : responses.length = 0)] at hflat
          exact absurd hflat hnil
  | succ fuel ih =>
      unfold readResponses
      split_ifs with hnil
      · rw [hnil, Option.some.injEq]
        exact nil_eq_responses_iff
      · constructor
        · intro hread
          split at hread
          · cases hread
          · next response rest hfirst =>
              rcases Option.map_eq_some_iff.mp hread with ⟨parts, hparts, rfl⟩
              have hrest := ih.mp hparts
              have hresponse := isResponse_of_read hfirst
              refine ⟨?_, ?_, Nat.succ_le_succ hrest.2.2⟩
              · rw [List.flatten_cons, ← hrest.1]
                exact hresponse.2
              · exact List.forall_mem_cons.mpr ⟨hresponse.1, hrest.2.1⟩
        · rintro ⟨hflat, hparts, hfuel⟩
          cases responses with
          | nil => exact absurd hflat hnil
          | cons response parts =>
              have hfirst := (hparts response (List.mem_cons_self ..)).read
                parts.flatten
              have hrest := (@ih parts.flatten parts).mpr ⟨rfl,
                fun part hpart => hparts part (List.mem_cons_of_mem _ hpart),
                Nat.le_of_succ_le_succ hfuel⟩
              rw [hflat, List.flatten_cons, hfirst]
              simp only [hrest, Option.map_some]

/-- A stream is split into the responses that it consists of. -/
theorem splitStream_eq_some {stream : List Char}
    {responses : List (List Char)} :
    splitStream stream = some responses ↔
      stream = responses.flatten ∧
        ∀ response ∈ responses, IsResponse response := by
  unfold splitStream
  rw [readResponses_eq_some]
  constructor
  · rintro ⟨hflat, hparts, _⟩
    exact ⟨hflat, hparts⟩
  · rintro ⟨hflat, hparts⟩
    refine ⟨hflat, hparts, ?_⟩
    have hlengths : ∀ n ∈ responses.map List.length, 1 ≤ n := by
      intro n hn
      rcases List.mem_map.mp hn with ⟨part, hpart, rfl⟩
      exact List.length_pos_iff.mpr (hparts part hpart).ne_nil
    have hle := List.length_le_sum_of_one_le _ hlengths
    rw [List.length_map] at hle
    rw [hflat, List.length_flatten]
    exact hle

/-! ## Pieces that start with a mark -/

section Marks

variable {α : Type*} {mark : α}

/-- The mark is the first element and does not occur again. -/
def StartsOnce (mark : α) (piece : List α) : Prop :=
  ∃ tail, piece = mark :: tail ∧ mark ∉ tail

variable [DecidableEq α]

theorem StartsOnce.count_eq {piece : List α} (hpiece : StartsOnce mark piece) :
    piece.count mark = 1 := by
  rcases hpiece with ⟨tail, rfl, htail⟩
  rw [List.count_cons_self, List.count_eq_zero.mpr htail]

theorem takeWhile_append_flatten {tail : List α} (htail : mark ∉ tail)
    {pieces : List (List α)} (hpieces : ∀ piece ∈ pieces, StartsOnce mark piece) :
    (tail ++ pieces.flatten).takeWhile (· ≠ mark) = tail := by
  have hall : ∀ a ∈ tail, decide (a ≠ mark) = true := by
    intro a ha
    rw [decide_eq_true_eq]
    rintro rfl
    exact htail ha
  rw [List.takeWhile_append_of_pos hall]
  cases pieces with
  | nil => exact List.append_nil tail
  | cons piece pieces =>
      rcases hpieces piece (List.mem_cons_self ..) with ⟨more, rfl, _⟩
      simp

/-- The marks tell where the pieces start. -/
theorem flatten_injective {xs ys : List (List α)}
    (hxs : ∀ x ∈ xs, StartsOnce mark x) (hys : ∀ y ∈ ys, StartsOnce mark y)
    (hflat : xs.flatten = ys.flatten) : xs = ys := by
  induction xs generalizing ys with
  | nil =>
      cases ys with
      | nil => rfl
      | cons y ys =>
          rcases hys y (List.mem_cons_self ..) with ⟨tail, rfl, _⟩
          cases hflat
  | cons x xs ih =>
      rcases hxs x (List.mem_cons_self ..) with ⟨tail, rfl, htail⟩
      cases ys with
      | nil => cases hflat
      | cons y ys =>
          rcases hys y (List.mem_cons_self ..) with ⟨tail', rfl, htail'⟩
          have hxs' : ∀ x ∈ xs, StartsOnce mark x :=
            fun x hx => hxs x (List.mem_cons_of_mem _ hx)
          have hys' : ∀ y ∈ ys, StartsOnce mark y :=
            fun y hy => hys y (List.mem_cons_of_mem _ hy)
          rw [List.flatten_cons, List.flatten_cons, List.cons_append,
            List.cons_append, List.cons.injEq] at hflat
          have htails := congrArg (List.takeWhile (· ≠ mark)) hflat.2
          rw [takeWhile_append_flatten htail hxs',
            takeWhile_append_flatten htail' hys'] at htails
          rw [htails, List.append_cancel_left_eq] at hflat
          rw [htails, ih hxs' hys' hflat.2]

/-- As many parts as there are marks, each with a mark at its start, are the
pieces. -/
theorem eq_pieces_of_flatten_eq {parts pieces : List (List α)}
    (hpieces : ∀ piece ∈ pieces, StartsOnce mark piece)
    (hparts : ∀ part ∈ parts, ∃ tail, part = mark :: tail)
    (hlength : parts.length = pieces.length)
    (hflat : parts.flatten = pieces.flatten) : parts = pieces := by
  have hcount {lists : List (List α)} :
      lists.flatten.count mark = (lists.map (List.count mark)).sum :=
    List.count_flatten
  have htotal : (parts.map (List.count mark)).sum = parts.length := by
    have hones : pieces.map (List.count mark) = pieces.map fun _ => 1 :=
      List.map_congr_left fun piece hpiece => (hpieces piece hpiece).count_eq
    rw [← hcount, hflat, hcount, hones, hlength]
    simp
  have hatLeast : ∀ part ∈ parts, 1 ≤ part.count mark := by
    intro part hpart
    rcases hparts part hpart with ⟨tail, rfl⟩
    rw [List.count_cons_self]
    exact Nat.le_add_left 1 _
  refine @flatten_injective _ mark _ _ _ ?_ hpieces hflat
  intro part hpart
  have hone : part.count mark = 1 := by
    by_contra hmore
    have hlt : (parts.map fun _ => 1).sum < (parts.map (List.count mark)).sum :=
      List.sum_lt_sum _ _ hatLeast ⟨part, hpart,
        lt_of_le_of_ne (hatLeast part hpart) (Ne.symm hmore)⟩
    rw [htotal] at hlt
    simp at hlt
  rcases hparts part hpart with ⟨tail, rfl⟩
  refine ⟨tail, rfl, ?_⟩
  rw [List.count_cons_self] at hone
  exact List.count_eq_zero.mp (by omega)

end Marks

end HttpFraming
