import Mathlib.Tactic

/-!
# Python strings

A string is a list of code points, lone surrogates included.  `split` cuts at
runs of white space, `replace` takes occurrences from the left, `rfind` answers
`-1` where there is none, and a slice counts a negative bound from the end.  A
text file holds what can be encoded; reading it turns every line end into
a newline.
-/

namespace PythonStrings

abbrev CodePoint := Fin 0x110000

abbrev Str := List CodePoint

def str (text : String) : Str :=
  text.toList.map fun character => Fin.ofNat 0x110000 character.toNat

def newline : CodePoint := 10

def carriageReturn : CodePoint := 13

def space : CodePoint := 32

/-- What `split` cuts at: the characters of the bidirectional types WS, B and S
and of the category Zs. -/
def isSpace (c : CodePoint) : Bool :=
  (9 ≤ c && c ≤ 13) || (28 ≤ c && c ≤ 32) || c == 0x85 || c == 0xa0 ||
    c == 0x1680 || (0x2000 ≤ c && c ≤ 0x200a) || c == 0x2028 || c == 0x2029 ||
    c == 0x202f || c == 0x205f || c == 0x3000

def isSurrogate (c : CodePoint) : Bool :=
  0xd800 ≤ c && c ≤ 0xdfff

section Lists

variable {α : Type*}

/-- The pieces between separators, without the empty ones. -/
def words (separator : α → Bool) (text : List α) : List (List α) :=
  (text.splitOnP separator).filter fun word => !word.isEmpty

/-- The lines of a text, each with its newline. -/
def lines [DecidableEq α] (newline : α) : List α → List (List α)
  | [] => []
  | c :: rest =>
      if c = newline then [c] :: lines newline rest
      else
        match lines newline rest with
        | [] => [[c]]
        | line :: more => (c :: line) :: more

variable [DecidableEq α]

def rfind? (pattern : List α) : List α → Option ℕ
  | [] => if pattern = [] then some 0 else none
  | c :: rest =>
      match rfind? pattern rest with
      | some i => some (i + 1)
      | none => if pattern <+: c :: rest then some 0 else none

/-- Replaces the occurrences of a nonempty pattern, behind the first `skip`
elements, which belong to an occurrence already. -/
def replaceFrom (old new : List α) : ℕ → List α → List α
  | _, [] => []
  | skip + 1, _ :: rest => replaceFrom old new skip rest
  | 0, c :: rest =>
      if old <+: c :: rest then
        new ++ replaceFrom old new (old.length - 1) rest
      else c :: replaceFrom old new 0 rest

/-- The empty pattern occurs in front of every element and at the end. -/
def replace (text old new : List α) : List α :=
  if old = [] then text.flatMap (fun c => new ++ [c]) ++ new
  else replaceFrom old new 0 text

/-- `removesuffix`. -/
def removesuffix (text ending : List α) : List α :=
  if ending <:+ text then text.take (text.length - ending.length) else text

/-- Two occurrences of the pattern never overlap: no other piece of it is both
at its beginning and at its end. -/
def Unbordered (pattern : List α) : Prop :=
  ∀ piece ∈ pattern.inits, piece ∈ pattern.tails → piece = [] ∨ piece = pattern

instance (pattern : List α) : Decidable (Unbordered pattern) :=
  inferInstanceAs (Decidable (∀ piece ∈ pattern.inits,
    piece ∈ pattern.tails → piece = [] ∨ piece = pattern))

end Lists

def split (text : Str) : List Str := words isSpace text

def readlines (text : Str) : List Str := lines newline text

def join (separator : Str) (parts : List Str) : Str :=
  separator.intercalate parts

def rfind (text pattern : Str) : ℤ :=
  match rfind? pattern text with
  | some i => i
  | none => -1

def sliceFrom (text : Str) (i : ℤ) : Str :=
  text.drop (if 0 ≤ i then i.toNat else text.length - i.natAbs)

def sliceTo (text : Str) (i : ℤ) : Str :=
  text.take (if 0 ≤ i then i.toNat else text.length - i.natAbs)

/-- Line ends as text mode reads them. -/
def universalNewlines (afterReturn : Bool) : Str → Str
  | [] => []
  | c :: rest =>
      if c = carriageReturn then newline :: universalNewlines true rest
      else if c = newline ∧ afterReturn = true then universalNewlines false rest
      else c :: universalNewlines false rest

/-- What a text file can hold. -/
def encode (text : Str) : Option Str :=
  if text.all fun c => !isSurrogate c then some text else none

/-! ## Words and lines -/

section Words

variable {α : Type*} {separator : α → Bool}

theorem words_append_separator {c : α} (hc : separator c = true)
    (text rest : List α) :
    words separator (text ++ c :: rest) =
      words separator text ++ words separator rest := by
  rw [words, List.splitOnP_append_cons text rest hc, List.filter_append]
  rfl

theorem words_eq_singleton {word : List α}
    (hword : ∀ c ∈ word, separator c = false) (hne : word ≠ []) :
    words separator word = [word] := by
  rw [words, List.splitOnP_eq_singleton hword]
  simp [hne]

theorem separator_of_mem_splitOnP {text word : List α}
    (hword : word ∈ text.splitOnP separator) :
    ∀ c ∈ word, separator c = false := by
  induction text generalizing word with
  | nil =>
      rw [List.splitOnP_nil, List.mem_singleton] at hword
      simp [hword]
  | cons c rest ih =>
      rw [List.splitOnP_cons_eq_if_modifyHead] at hword
      split_ifs at hword with hc
      · rcases List.mem_cons.mp hword with hempty | hmem
        · simp [hempty]
        · exact ih hmem
      · cases hrest : rest.splitOnP separator with
        | nil => exact absurd hrest (List.splitOnP_ne_nil separator rest)
        | cons first more =>
            rw [hrest] at hword ih
            rcases List.mem_cons.mp hword with hfirst | hmem
            · subst hfirst
              intro d hd
              rcases List.mem_cons.mp hd with hd | hd
              · subst hd
                simpa using hc
              · exact ih List.mem_cons_self d hd
            · exact ih (List.mem_cons_of_mem _ hmem)

theorem words_cons_separator {c : α} (hc : separator c = true)
    (rest : List α) : words separator (c :: rest) = words separator rest := by
  have hsplit := @words_append_separator α separator c hc [] rest
  simpa [words] using hsplit

theorem words_append_of_forall {gap : List α}
    (hgap : ∀ c ∈ gap, separator c = true) (rest : List α) :
    words separator (gap ++ rest) = words separator rest := by
  induction gap with
  | nil => rfl
  | cons c gap ih =>
      rw [List.forall_mem_cons] at hgap
      rw [List.cons_append, words_cons_separator hgap.1, ih hgap.2]

theorem words_token {word gap rest : List α} {c : α} (hne : word ≠ [])
    (hword : ∀ c ∈ word, separator c = false)
    (hgap : ∀ c ∈ gap, separator c = true) (hc : separator c = true) :
    words separator (word ++ (gap ++ c :: rest)) =
      word :: words separator rest := by
  have hrest : words separator (gap ++ c :: rest) = words separator rest := by
    rw [words_append_of_forall hgap, words_cons_separator hc]
  cases gap with
  | nil =>
      rw [List.nil_append, words_append_separator hc,
        words_eq_singleton hword hne]
      rfl
  | cons d gap =>
      rw [List.forall_mem_cons] at hgap
      rw [List.cons_append, words_cons_separator hgap.1] at hrest
      rw [List.cons_append, words_append_separator hgap.1,
        words_eq_singleton hword hne, hrest]
      rfl

theorem splitOnP_map {β : Type*} (separator : β → Bool) (f : α → β)
    (text : List α) :
    (text.map f).splitOnP separator =
      (text.splitOnP fun c => separator (f c)).map (List.map f) := by
  induction text with
  | nil => rfl
  | cons c rest ih =>
      rw [List.map_cons, List.splitOnP_cons_eq_if_modifyHead,
        List.splitOnP_cons_eq_if_modifyHead, ih]
      split_ifs
      · rfl
      · cases rest.splitOnP fun c => separator (f c) with
        | nil => rfl
        | cons first more => rfl

/-- Only separators are exchanged, and for separators. -/
theorem words_map {f : α → α} (hf : ∀ c, separator (f c) = false → f c = c)
    (text : List α) :
    words separator (text.map f) = words (fun c => separator (f c)) text := by
  rw [words, words, splitOnP_map]
  have hpiece : ∀ word ∈ text.splitOnP fun c => separator (f c),
      word.map f = word := by
    intro word hword
    have hkeep : ∀ c ∈ word, f c = c := fun c hc =>
      hf c (separator_of_mem_splitOnP hword c hc)
    rw [List.map_congr_left hkeep, List.map_id']
  rw [List.map_congr_left hpiece, List.map_id']

theorem separator_of_mem_words {text word : List α}
    (hword : word ∈ words separator text) :
    ∀ c ∈ word, separator c = false :=
  separator_of_mem_splitOnP (List.mem_filter.mp hword).1

theorem words_intercalate {c : α} (hc : separator c = true)
    {parts : List (List α)}
    (hparts : ∀ part ∈ parts, part ≠ [] ∧ ∀ d ∈ part, separator d = false) :
    words separator ([c].intercalate parts) = parts := by
  induction parts with
  | nil => simp [words, List.intercalate]
  | cons part more ih =>
      have hpart := hparts part List.mem_cons_self
      cases more with
      | nil => simpa [List.intercalate] using words_eq_singleton hpart.2 hpart.1
      | cons next more =>
          have hsplit : [c].intercalate (part :: next :: more) =
              part ++ c :: [c].intercalate (next :: more) := by
            simp [List.intercalate]
          rw [hsplit, words_append_separator hc,
            words_eq_singleton hpart.2 hpart.1,
            ih fun other hother => hparts other (List.mem_cons_of_mem _ hother)]
          rfl

theorem mem_intercalate {c d : α} {parts : List (List α)}
    (hd : d ∈ [c].intercalate parts) : d = c ∨ ∃ part ∈ parts, d ∈ part := by
  induction parts with
  | nil => cases hd
  | cons part more ih =>
      cases more with
      | nil =>
          rw [List.intercalate_singleton] at hd
          exact Or.inr ⟨part, List.mem_cons_self, hd⟩
      | cons next more =>
          rw [List.intercalate_cons_cons, List.append_assoc] at hd
          rcases List.mem_append.mp hd with hpart | hd
          · exact Or.inr ⟨part, List.mem_cons_self, hpart⟩
          rcases List.mem_append.mp hd with hc | hd
          · exact Or.inl (List.mem_singleton.mp hc)
          rcases ih hd with hc | ⟨other, hother, hmem⟩
          · exact Or.inl hc
          · exact Or.inr ⟨other, List.mem_cons_of_mem _ hother, hmem⟩

theorem mem_intercalate_of_mem {c d : α} {parts : List (List α)}
    {part : List α} (hpart : part ∈ parts) (hd : d ∈ part) :
    d ∈ [c].intercalate parts := by
  induction parts with
  | nil => cases hpart
  | cons first more ih =>
      cases more with
      | nil =>
          rw [List.intercalate_singleton, ← List.mem_singleton.mp hpart]
          exact hd
      | cons next more =>
          rw [List.intercalate_cons_cons, List.append_assoc, List.mem_append]
          rcases List.mem_cons.mp hpart with hfirst | hmore
          · exact Or.inl (hfirst ▸ hd)
          · exact Or.inr (List.mem_append_right _ (ih hmore))

variable [DecidableEq α]

theorem lines_append_newline {c : α} {line : List α} (hline : c ∉ line)
    (rest : List α) :
    lines c (line ++ c :: rest) = (line ++ [c]) :: lines c rest := by
  induction line with
  | nil => simp [lines]
  | cons d line ih =>
      have hd : d ≠ c := fun h => hline (by simp [h])
      have hline' : c ∉ line := fun h => hline (List.mem_cons_of_mem _ h)
      simp only [List.cons_append, lines, if_neg hd, ih hline']

theorem lines_flatMap {c : α} {texts : List (List α)}
    (htexts : ∀ text ∈ texts, c ∉ text) :
    lines c (texts.flatMap fun text => text ++ [c]) =
      texts.map fun text => text ++ [c] := by
  induction texts with
  | nil => rfl
  | cons text texts ih =>
      have htext := htexts text List.mem_cons_self
      have hmore := ih fun other hother =>
        htexts other (List.mem_cons_of_mem _ hother)
      rw [List.flatMap_cons, List.append_assoc, List.singleton_append,
        lines_append_newline htext, hmore, List.map_cons]

end Words

/-! ## The last occurrence -/

section Rfind

variable {α : Type*}

theorem isInfix_iff_exists_drop {pattern text : List α} :
    pattern <:+: text ↔ ∃ k ≤ text.length, pattern <+: text.drop k := by
  constructor
  · rintro ⟨before, after, htext⟩
    refine ⟨before.length, ?_, ?_⟩
    · rw [← htext, List.append_assoc, List.length_append]
      exact Nat.le_add_right _ _
    · rw [← htext, List.append_assoc, List.drop_left]
      exact List.prefix_append _ _
  · rintro ⟨k, _, hstarts⟩
    exact hstarts.isInfix.trans (List.drop_suffix k text).isInfix

/-- A pattern does not reach over an element that it does not have. -/
theorem isInfix_append_cons {c : α} {pattern front part : List α}
    (hc : c ∉ pattern) (hwithin : pattern <:+: front ++ c :: part) :
    pattern <:+: front ∨ pattern <:+: part := by
  rcases hwithin with ⟨before, after, htext⟩
  rcases List.append_eq_append_iff.mp htext with
    ⟨gap, hfront, _⟩ | ⟨gap, hbefore, hpart⟩
  · left
    rw [hfront]
    exact ⟨before, gap, rfl⟩
  · cases gap with
    | nil =>
        left
        rw [List.append_nil] at hbefore
        rw [← hbefore]
        exact ⟨before, [], by simp⟩
    | cons d gap =>
        rw [List.cons_append, List.cons.injEq] at hpart
        rcases hpart with ⟨hd, hpart⟩
        subst hd
        rcases List.append_eq_append_iff.mp hbefore with
          ⟨more, _, hpattern⟩ | ⟨more, _, hpattern⟩
        · exact absurd (hpattern ▸ List.mem_append_right more
            List.mem_cons_self) hc
        · cases more with
          | nil =>
              rw [List.nil_append] at hpattern
              exact absurd (hpattern ▸ List.mem_cons_self) hc
          | cons e more =>
              rw [List.cons_append, List.cons.injEq] at hpattern
              right
              rw [hpart, hpattern.2]
              exact ⟨more, after, by simp⟩

variable [DecidableEq α]

theorem rfind?_eq_none_iff {pattern text : List α} :
    rfind? pattern text = none ↔
      ∀ j ≤ text.length, ¬pattern <+: text.drop j := by
  induction text with
  | nil => simp [rfind?]
  | cons c rest ih =>
      constructor
      · intro hnone
        simp only [rfind?] at hnone
        split at hnone
        · cases hnone
        · rename_i hrest
          split_ifs at hnone with hhead
          intro j hj
          cases j with
          | zero => exact hhead
          | succ j => exact ih.mp hrest j (by simpa using hj)
      · intro hall
        have hrest : rfind? pattern rest = none :=
          ih.mpr fun j hj => hall (j + 1) (by simpa using hj)
        have hhead : ¬pattern <+: c :: rest := hall 0 (Nat.zero_le _)
        simp [rfind?, hrest, hhead]

theorem rfind?_spec {pattern text : List α} {i : ℕ}
    (hfind : rfind? pattern text = some i) :
    i ≤ text.length ∧ pattern <+: text.drop i ∧
      ∀ j, i < j → j ≤ text.length → ¬pattern <+: text.drop j := by
  induction text generalizing i with
  | nil =>
      simp only [rfind?] at hfind
      split_ifs at hfind with hpattern
      cases hfind
      refine ⟨le_refl _, by simp [hpattern], ?_⟩
      intro j hij hj
      exact absurd hj (by simpa using hij.ne')
  | cons c rest ih =>
      simp only [rfind?] at hfind
      split at hfind
      · rename_i k hk
        cases hfind
        rcases ih hk with ⟨hle, hstarts, hlast⟩
        refine ⟨by simpa using hle, hstarts, ?_⟩
        intro j hij hj
        cases j with
        | zero => omega
        | succ j => exact hlast j (by omega) (by simpa using hj)
      · rename_i hrest
        split_ifs at hfind with hhead
        cases hfind
        refine ⟨Nat.zero_le _, hhead, ?_⟩
        intro j hij hj
        cases j with
        | zero => omega
        | succ j => exact rfind?_eq_none_iff.mp hrest j (by simpa using hj)

/-- The answer of `rfind?` is the last position at which the pattern stands. -/
theorem rfind?_eq_some_iff {pattern text : List α} {i : ℕ} :
    rfind? pattern text = some i ↔
      i ≤ text.length ∧ pattern <+: text.drop i ∧
        ∀ j, i < j → j ≤ text.length → ¬pattern <+: text.drop j := by
  constructor
  · exact rfind?_spec
  · rintro ⟨hle, hstarts, hlast⟩
    cases hfind : rfind? pattern text with
    | none => exact absurd hstarts (rfind?_eq_none_iff.mp hfind i hle)
    | some k =>
        rcases rfind?_spec hfind with ⟨hkle, hkprefix, hklast⟩
        rcases Nat.lt_trichotomy i k with hlt | heq | hgt
        · exact absurd hkprefix (hlast k hlt hkle)
        · rw [heq]
        · exact absurd hstarts (hklast i hgt hle)
/-- The part of a text from the last occurrence of a pattern on. -/
theorem rfind?_of_isInfix {pattern text : List α} (hwithin : pattern <:+: text) :
    ∃ i, rfind? pattern text = some i ∧ pattern <+: text.drop i := by
  rcases hwithin with ⟨before, after, htext⟩
  cases hfind : rfind? pattern text with
  | none =>
      have hle : before.length ≤ text.length := by
        rw [← htext]
        simp
      refine absurd ?_ (rfind?_eq_none_iff.mp hfind before.length hle)
      rw [← htext, List.append_assoc, List.drop_left]
      exact List.prefix_append _ _
  | some i => exact ⟨i, rfl, (rfind?_spec hfind).2.1⟩

/-- The pattern stands last at the beginning of a part of the text if it does
not occur in that part again. -/
theorem rfind?_append_iff {pattern front part : List α} (hne : pattern ≠ [])
    (hpart : pattern <+: part) :
    rfind? pattern (front ++ part) = some front.length ↔
      ¬pattern <:+: part.drop 1 := by
  have hdrop : ∀ k, (front ++ part).drop (front.length + k) = part.drop k :=
    fun k => List.drop_length_add_append k
  rw [rfind?_eq_some_iff, isInfix_iff_exists_drop]
  constructor
  · rintro ⟨_, _, hlast⟩ ⟨k, hk, hstarts⟩
    have hle : front.length + (1 + k) ≤ (front ++ part).length := by
      have hpositive : 0 < part.length :=
        (List.length_pos_iff.mpr hne).trans_le hpart.length_le
      rw [List.length_drop] at hk
      rw [List.length_append]
      omega
    apply hlast (front.length + (1 + k)) (by omega) hle
    rwa [hdrop, ← List.drop_drop]
  · intro hnone
    refine ⟨by simp, by rwa [List.drop_left], ?_⟩
    intro j hj hle hstarts
    rw [List.length_append] at hle
    apply hnone
    refine ⟨j - front.length - 1, ?_, ?_⟩
    · rw [List.length_drop]
      omega
    · have hsplit : front.length + (1 + (j - front.length - 1)) = j := by omega
      rwa [List.drop_drop, ← hdrop, hsplit]

theorem rfind?_singleton {c : α} {front part : List α} (hpart : c ∉ part) :
    rfind? [c] (front ++ c :: part) = some front.length := by
  rw [rfind?_append_iff (by simp) (by simp)]
  intro hwithin
  exact hpart (hwithin.subset List.mem_cons_self)

theorem append_cons_inj {c : α} {front front' part part' : List α}
    (hpart : c ∉ part) (hpart' : c ∉ part')
    (hsame : front ++ c :: part = front' ++ c :: part') :
    front = front' ∧ part = part' := by
  have hlength : front.length = front'.length := by
    have hfind := @rfind?_singleton α _ c front part hpart
    rw [hsame, rfind?_singleton hpart', Option.some.injEq] at hfind
    exact hfind.symm
  have hboth := List.append_inj hsame hlength
  exact ⟨hboth.1, List.tail_eq_of_cons_eq hboth.2⟩

end Rfind

/-! ## Replacing -/

section Replace

variable {α : Type*} [DecidableEq α] {old new : List α}

theorem replaceFrom_skip (skip : ℕ) (text : List α) :
    replaceFrom old new skip text = replaceFrom old new 0 (text.drop skip) := by
  induction text generalizing skip with
  | nil => cases skip <;> rfl
  | cons c rest ih =>
      cases skip with
      | zero => rfl
      | succ skip => exact ih skip

theorem replaceFrom_append (hold : old ≠ []) (rest : List α) :
    replaceFrom old new 0 (old ++ rest) =
      new ++ replaceFrom old new 0 rest := by
  cases old with
  | nil => exact absurd rfl hold
  | cons c more =>
      have hstarts : c :: more <+: c :: (more ++ rest) :=
        List.prefix_append (c :: more) rest
      rw [List.cons_append, replaceFrom, if_pos hstarts, replaceFrom_skip]
      simp

theorem replaceFrom_cons {c : α} {rest : List α} (hc : ¬old <+: c :: rest) :
    replaceFrom old new 0 (c :: rest) = c :: replaceFrom old new 0 rest := by
  rw [replaceFrom, if_neg hc]

/-- A text is empty, starts with the pattern, or has an element first at which
the pattern does not stand. -/
theorem replace_induction (hold : old ≠ []) {P : List α → Prop} (nil : P [])
    (occurrence : ∀ rest, P rest → P (old ++ rest))
    (other : ∀ c rest, ¬old <+: c :: rest → P rest → P (c :: rest))
    (text : List α) : P text := by
  induction hlength : text.length using Nat.strong_induction_on
    generalizing text with
  | _ length ih =>
      cases text with
      | nil => exact nil
      | cons c rest =>
          by_cases hc : old <+: c :: rest
          · rcases hc with ⟨more, hmore⟩
            have hshort : more.length < length := by
              have hpositive := List.length_pos_iff.mpr hold
              rw [← hlength, ← hmore, List.length_append]
              omega
            rw [← hmore]
            exact occurrence more (ih _ hshort more rfl)
          · have hshort : rest.length < length := by
              rw [← hlength]
              exact Nat.lt_succ_self _
            exact other c rest hc (ih _ hshort rest rfl)

theorem replaceFrom_of_not_isInfix {text : List α} (htext : ¬old <:+: text) :
    replaceFrom old new 0 text = text := by
  induction text with
  | nil => rfl
  | cons c rest ih =>
      have hc : ¬old <+: c :: rest := fun h => htext h.isInfix
      have hrest : ¬old <:+: rest :=
        fun h => htext (h.trans (List.suffix_cons c rest).isInfix)
      rw [replaceFrom_cons hc, ih hrest]

theorem replace_singleton (a b : α) (text : List α) :
    replace text [a] [b] = text.map fun c => if c = a then b else c := by
  rw [replace, if_neg (List.cons_ne_nil a [])]
  induction text with
  | nil => rfl
  | cons c rest ih =>
      rw [List.map_cons, ← ih]
      by_cases hc : c = a
      · subst hc
        rw [if_pos rfl]
        exact @replaceFrom_append _ _ [c] [b] (List.cons_ne_nil c []) rest
      · have hother : ¬[a] <+: c :: rest := by
          rw [List.cons_prefix_cons]
          exact fun h => hc h.1.symm
        rw [if_neg hc, replaceFrom_cons hother]

theorem length_replaceFrom (hold : old ≠ []) (text : List α) :
    (old.length ≤ new.length →
      text.length ≤ (replaceFrom old new 0 text).length) ∧
    (new.length ≤ old.length →
      (replaceFrom old new 0 text).length ≤ text.length) := by
  induction text using replace_induction hold with
  | nil => simp [replaceFrom]
  | occurrence rest ih =>
      rw [replaceFrom_append hold, List.length_append, List.length_append]
      constructor
      · intro hle
        have hrest := ih.1 hle
        omega
      · intro hle
        have hrest := ih.2 hle
        omega
  | other c rest hc ih =>
      rw [replaceFrom_cons hc, List.length_cons, List.length_cons]
      exact ⟨fun hle => Nat.succ_le_succ (ih.1 hle),
        fun hle => Nat.succ_le_succ (ih.2 hle)⟩

/-- Replacing changes a text exactly if the pattern occurs in it. -/
theorem replaceFrom_eq_self_iff (hold : old ≠ []) (hnew : new ≠ old)
    {text : List α} :
    replaceFrom old new 0 text = text ↔ ¬old <:+: text := by
  constructor
  · induction text using replace_induction hold with
    | nil =>
        intro _ hwithin
        exact hold (List.infix_nil.mp hwithin)
    | occurrence rest ih =>
        intro hself
        rw [replaceFrom_append hold] at hself
        have hlength := congrArg List.length hself
        rw [List.length_append, List.length_append] at hlength
        have hle := @length_replaceFrom _ _ old new hold rest
        have hsame : new.length = old.length := by
          rcases Nat.le_total old.length new.length with hshort | hlong
          · have hrest := hle.1 hshort
            omega
          · have hrest := hle.2 hlong
            omega
        exact absurd (List.append_inj_left hself hsame) hnew
    | other c rest hc ih =>
        intro hself hwithin
        rw [replaceFrom_cons hc, List.cons.injEq] at hself
        rcases List.infix_cons_iff.mp hwithin with hstarts | hrest
        · exact hc hstarts
        · exact ih hself.2 hrest
  · exact replaceFrom_of_not_isInfix

/-- In a text that starts with the pattern, only this occurrence is replaced
exactly if there is no other. -/
theorem replace_append_eq_iff (hold : old ≠ []) (hnew : new ≠ old)
    {rest : List α} :
    replace (old ++ rest) old new = new ++ rest ↔ ¬old <:+: rest := by
  rw [replace, if_neg hold, replaceFrom_append hold,
    List.append_cancel_left_eq, replaceFrom_eq_self_iff hold hnew]

theorem replace_append (hold : old ≠ []) {rest : List α}
    (hrest : ¬old <:+: rest) : replace (old ++ rest) old new = new ++ rest := by
  rw [replace, if_neg hold, replaceFrom_append hold,
    replaceFrom_of_not_isInfix hrest]

theorem replaceFrom_self (hold : old ≠ []) (text : List α) :
    replaceFrom old old 0 text = text := by
  induction text using replace_induction hold with
  | nil => rfl
  | occurrence rest ih => rw [replaceFrom_append hold, ih]
  | other c rest hc ih => rw [replaceFrom_cons hc, ih]

/-- An occurrence at the end is replaced, whatever is in front of it. -/
theorem replaceFrom_append_self (hold : old ≠ []) (hborder : Unbordered old)
    (text : List α) :
    replaceFrom old new 0 (text ++ old) = replaceFrom old new 0 text ++ new := by
  induction text using replace_induction hold with
  | nil => simpa [replaceFrom] using @replaceFrom_append _ _ old new hold []
  | occurrence rest ih =>
      rw [List.append_assoc, replaceFrom_append hold, replaceFrom_append hold, ih,
        List.append_assoc]
  | other c rest hc ih =>
      have hstarts : ¬old <+: c :: (rest ++ old) := by
        intro hstarts
        rw [← List.cons_append] at hstarts
        rcases List.prefix_or_prefix_of_prefix hstarts
          (List.prefix_append (c :: rest) old) with hwithin | hwithin
        · exact hc hwithin
        · -- The occurrence overlaps the one at the end by a border.
          rcases hwithin with ⟨border, hsplit⟩
          have hbegins : border <+: old := by
            rw [← hsplit, List.prefix_append_right_inj, hsplit] at hstarts
            exact hstarts
          have hends : border <:+ old := ⟨c :: rest, hsplit⟩
          rcases hborder border ((List.mem_inits _ _).mpr hbegins)
            ((List.mem_tails _ _).mpr hends) with hnil | hall
          · apply hc
            rw [← hsplit, hnil, List.append_nil]
          · have hlength := congrArg List.length hsplit
            rw [hall, List.length_append, List.length_cons] at hlength
            omega
      rw [List.cons_append, replaceFrom_cons hstarts, ih, replaceFrom_cons hc,
        List.cons_append]

theorem removesuffix_append (text ending : List α) :
    removesuffix (text ++ ending) ending = text := by
  rw [removesuffix, if_pos (List.suffix_append text ending), List.length_append,
    Nat.add_sub_cancel, List.take_left]

omit [DecidableEq α] in
/-- Nothing in front of an element that the ending does not have matters. -/
theorem isSuffix_append_cons_iff {c : α} {ending : List α} (hc : c ∉ ending)
    (front rest : List α) : ending <:+ front ++ c :: rest ↔ ending <:+ rest := by
  constructor
  · intro hends
    rcases List.suffix_or_suffix_of_suffix hends
      (List.suffix_append front (c :: rest)) with hwithin | hwithin
    · rcases List.suffix_cons_iff.mp hwithin with hall | hrest
      · exact absurd (hall ▸ List.mem_cons_self) hc
      · exact hrest
    · exact absurd (hwithin.subset List.mem_cons_self) hc
  · intro hends
    exact (hends.trans (List.suffix_cons c rest)).trans
      (List.suffix_append front (c :: rest))

theorem removesuffix_append_cons {c : α} {ending : List α} (hc : c ∉ ending)
    (front rest : List α) :
    removesuffix (front ++ c :: rest) ending =
      front ++ c :: removesuffix rest ending := by
  by_cases hends : ending <:+ rest
  · rcases hends with ⟨text, rfl⟩
    rw [removesuffix_append, ← List.cons_append, ← List.append_assoc,
      removesuffix_append]
  · rw [removesuffix, if_neg (mt (isSuffix_append_cons_iff hc front rest).mp hends),
      removesuffix, if_neg hends]

/-- Deleting every occurrence deletes only the one at the end exactly if no
other is there. -/
theorem replace_nil_eq_removesuffix_iff (hold : old ≠ [])
    (hborder : Unbordered old) (front rest : List α) :
    replace (front ++ rest) old [] = front ++ removesuffix rest old ↔
      ¬old <:+: front ++ removesuffix rest old := by
  have hnew : [] ≠ old := hold.symm
  rw [replace, if_neg hold]
  by_cases hends : old <:+ rest
  · rcases hends with ⟨text, rfl⟩
    rw [removesuffix_append, ← List.append_assoc,
      replaceFrom_append_self hold hborder, List.append_nil]
    exact replaceFrom_eq_self_iff hold hnew
  · rw [removesuffix, if_neg hends]
    exact replaceFrom_eq_self_iff hold hnew

end Replace

theorem sliceFrom_rfind {text pattern : Str} {i : ℕ}
    (hfind : rfind? pattern text = some i) :
    sliceFrom text (rfind text pattern) = text.drop i := by
  simp [sliceFrom, rfind, hfind]

theorem sliceTo_rfind {text pattern : Str} {i : ℕ}
    (hfind : rfind? pattern text = some i) :
    sliceTo text (rfind text pattern) = text.take i := by
  simp [sliceTo, rfind, hfind]

/-- Line ends are white space in every form. -/
theorem words_universalNewlines {separator : CodePoint → Bool}
    (hreturn : separator carriageReturn = true)
    (hnewline : separator newline = true) (text : Str) :
    (∀ word : Str, (∀ c ∈ word, separator c = false) →
        words separator (word ++ universalNewlines false text) =
          words separator (word ++ text)) ∧
      words separator (universalNewlines true text) =
        words separator text := by
  induction text with
  | nil => exact ⟨fun _ _ => rfl, rfl⟩
  | cons c rest ih =>
      -- the word that has been read so far is in front of the rest
      have hfalse : ∀ word : Str, (∀ d ∈ word, separator d = false) →
          words separator (word ++ universalNewlines false (c :: rest)) =
            words separator (word ++ c :: rest) := by
        intro word hword
        by_cases hc : c = carriageReturn
        · rw [universalNewlines, if_pos hc, words_append_separator hnewline,
            hc, words_append_separator hreturn, ih.2]
        · rw [universalNewlines, if_neg hc, if_neg (by simp)]
          cases hsep : separator c with
          | true =>
              have hrest := ih.1 [] (by simp)
              rw [List.nil_append, List.nil_append] at hrest
              rw [words_append_separator hsep, words_append_separator hsep,
                hrest]
          | false =>
              have hmore := ih.1 (word ++ [c]) (by
                intro d hd
                rcases List.mem_append.mp hd with hd | hd
                · exact hword d hd
                · rw [List.mem_singleton.mp hd, hsep])
              rwa [List.append_assoc, List.append_assoc] at hmore
      refine ⟨hfalse, ?_⟩
      by_cases hc : c = newline
      · have hrest := ih.1 [] (by simp)
        rw [List.nil_append, List.nil_append] at hrest
        rw [hc, words_cons_separator hnewline, ← hrest]
        rfl
      · have hsame : universalNewlines true (c :: rest) =
            universalNewlines false (c :: rest) := by
          simp [universalNewlines, hc]
        have hstart := hfalse [] (by simp)
        rwa [List.nil_append, List.nil_append, ← hsame] at hstart

theorem universalNewlines_eq {text : Str} (htext : carriageReturn ∉ text) :
    universalNewlines false text = text := by
  induction text with
  | nil => rfl
  | cons c rest ih =>
      have hc : c ≠ carriageReturn := fun h => htext (by simp [h])
      have hrest : carriageReturn ∉ rest :=
        fun h => htext (List.mem_cons_of_mem _ h)
      simp [universalNewlines, hc, ih hrest]

end PythonStrings
