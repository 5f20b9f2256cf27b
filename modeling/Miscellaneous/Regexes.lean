import Mathlib.Tactic

/-!
# Regular expressions with groups

Matching the whole of a text and keeping what the groups have matched.  The
matcher tries alternatives in their order and repeats as often as it can; it
gives every way in which the beginning of a text can match, the preferred one
first, and each of them is a match in the usual sense.
-/

namespace Regexes

inductive Regex (α : Type) where
  | empty
  | symbol (set : α → Bool)
  | seq (first second : Regex α)
  | alt (first second : Regex α)
  | star (body : Regex α)
  | group (index : ℕ) (body : Regex α)

variable {α : Type}

/-- The groups with their texts, as they are closed. -/
abbrev Captures (α : Type) := List (ℕ × List α)

inductive Matches : Regex α → List α → Captures α → Prop where
  | empty : Matches .empty [] []
  | symbol {set : α → Bool} {c : α} (hc : set c = true) :
      Matches (.symbol set) [c] []
  | seq {first second : Regex α} {text more : List α}
      {captures others : Captures α} (hfirst : Matches first text captures)
      (hsecond : Matches second more others) :
      Matches (.seq first second) (text ++ more) (captures ++ others)
  | left {first second : Regex α} {text : List α} {captures : Captures α}
      (hfirst : Matches first text captures) :
      Matches (.alt first second) text captures
  | right {first second : Regex α} {text : List α} {captures : Captures α}
      (hsecond : Matches second text captures) :
      Matches (.alt first second) text captures
  | stop {body : Regex α} : Matches (.star body) [] []
  | again {body : Regex α} {text more : List α}
      {captures others : Captures α} (hne : text ≠ [])
      (hbody : Matches body text captures)
      (hmore : Matches (.star body) more others) :
      Matches (.star body) (text ++ more) (captures ++ others)
  | group {index : ℕ} {body : Regex α} {text : List α} {captures : Captures α}
      (hbody : Matches body text captures) :
      Matches (.group index body) text (captures ++ [(index, text)])

/-! ## The matcher -/

/-- A way to match the beginning of a text: the groups, and what is left. -/
abbrev Way (α : Type) := Captures α × List α

def Way.after (way next : Way α) : Way α := (way.1 ++ next.1, next.2)

/-- A repetition must get on. -/
def repeated (body : List α → List (Way α)) : ℕ → List α → List (Way α)
  | 0, text => [([], text)]
  | fuel + 1, text =>
      ((body text).filter fun way => way.2.length < text.length).flatMap
          (fun way => (repeated body fuel way.2).map way.after) ++
        [([], text)]

def ways : Regex α → List α → List (Way α)
  | .empty, text => [([], text)]
  | .symbol _, [] => []
  | .symbol set, c :: rest => if set c then [([], rest)] else []
  | .seq first second, text =>
      (ways first text).flatMap fun way => (ways second way.2).map way.after
  | .alt first second, text => ways first text ++ ways second text
  | .star body, text => repeated (ways body) text.length text
  | .group index body, text =>
      (ways body text).map fun way =>
        (way.1 ++ [(index, text.take (text.length - way.2.length))], way.2)

/-- The groups of the preferred match of the whole text. -/
def regexMatch (r : Regex α) (text : List α) : Option (Captures α) :=
  ((ways r text).find? fun way => way.2.isEmpty).map Prod.fst

/-! ## The matcher is right -/

/-- The way matches the beginning of the text. -/
def Goes (r : Regex α) (text : List α) (way : Way α) : Prop :=
  ∃ consumed, text = consumed ++ way.2 ∧ Matches r consumed way.1

theorem matches_empty_iff {text : List α} {captures : Captures α} :
    Matches .empty text captures ↔ text = [] ∧ captures = [] := by
  constructor
  · intro hmatches
    cases hmatches
    exact ⟨rfl, rfl⟩
  · rintro ⟨rfl, rfl⟩
    exact .empty

theorem matches_symbol_iff {set : α → Bool} {text : List α}
    {captures : Captures α} :
    Matches (.symbol set) text captures ↔
      (∃ c, set c = true ∧ text = [c]) ∧ captures = [] := by
  constructor
  · intro hmatches
    cases hmatches with
    | symbol hc => exact ⟨⟨_, hc, rfl⟩, rfl⟩
  · rintro ⟨⟨c, hc, rfl⟩, rfl⟩
    exact .symbol hc

theorem matches_seq_iff {first second : Regex α} {text : List α}
    {captures : Captures α} :
    Matches (.seq first second) text captures ↔
      ∃ front back groups others, text = front ++ back ∧
        captures = groups ++ others ∧ Matches first front groups ∧
          Matches second back others := by
  constructor
  · intro hmatches
    cases hmatches with
    | seq hfirst hsecond => exact ⟨_, _, _, _, rfl, rfl, hfirst, hsecond⟩
  · rintro ⟨front, back, groups, others, rfl, rfl, hfirst, hsecond⟩
    exact .seq hfirst hsecond

theorem matches_alt_iff {first second : Regex α} {text : List α}
    {captures : Captures α} :
    Matches (.alt first second) text captures ↔
      Matches first text captures ∨ Matches second text captures := by
  constructor
  · intro hmatches
    cases hmatches with
    | left hfirst => exact Or.inl hfirst
    | right hsecond => exact Or.inr hsecond
  · rintro (hfirst | hsecond)
    · exact .left hfirst
    · exact .right hsecond

theorem matches_group_iff {index : ℕ} {body : Regex α} {text : List α}
    {captures : Captures α} :
    Matches (.group index body) text captures ↔
      ∃ groups, captures = groups ++ [(index, text)] ∧
        Matches body text groups := by
  constructor
  · intro hmatches
    cases hmatches with
    | group hbody => exact ⟨_, rfl, hbody⟩
  · rintro ⟨groups, rfl, hbody⟩
    exact .group hbody

theorem matches_star_iff {body : Regex α} {text : List α}
    {captures : Captures α} :
    Matches (.star body) text captures ↔
      text = [] ∧ captures = [] ∨
        ∃ front back groups others, front ≠ [] ∧ text = front ++ back ∧
          captures = groups ++ others ∧ Matches body front groups ∧
            Matches (.star body) back others := by
  constructor
  · intro hmatches
    cases hmatches with
    | stop => exact Or.inl ⟨rfl, rfl⟩
    | again hne hbody hmore =>
        exact Or.inr ⟨_, _, _, _, hne, rfl, rfl, hbody, hmore⟩
  · rintro (⟨rfl, rfl⟩ | ⟨front, back, groups, others, hne, rfl, rfl, hbody,
      hmore⟩)
    · exact .stop
    · exact .again hne hbody hmore

theorem mem_repeated_iff {r : Regex α} {body : List α → List (Way α)}
    (hbody : ∀ text way, way ∈ body text ↔ Goes r text way)
    {fuel : ℕ} {text : List α} (hfuel : text.length ≤ fuel) {way : Way α} :
    way ∈ repeated body fuel text ↔ Goes (.star r) text way := by
  induction fuel generalizing text way with
  | zero =>
      have hnil : text = [] := List.length_eq_zero_iff.mp (by omega)
      subst hnil
      rw [repeated, List.mem_singleton]
      constructor
      · rintro rfl
        exact ⟨[], rfl, .stop⟩
      · rintro ⟨consumed, hsplit, hmatches⟩
        have hboth := List.append_eq_nil_iff.mp hsplit.symm
        rw [hboth.1] at hmatches
        rcases matches_star_iff.mp hmatches with ⟨_, hcaptures⟩ | hagain
        · exact Prod.ext hcaptures hboth.2
        · rcases hagain with ⟨front, back, _, _, hne, hnone, _⟩
          exact absurd (List.append_eq_nil_iff.mp hnone.symm).1 hne
  | succ fuel ih =>
      rw [repeated, List.mem_append, List.mem_singleton, List.mem_flatMap]
      constructor
      · rintro (⟨first, hfirst, hmore⟩ | rfl)
        · rw [List.mem_filter, hbody, decide_eq_true_eq] at hfirst
          rcases hfirst with ⟨⟨consumed, hsplit, hmatches⟩, hshorter⟩
          rcases List.mem_map.mp hmore with ⟨next, hnext, hway⟩
          rw [ih (by omega)] at hnext
          rcases hnext with ⟨others, hothers, hstar⟩
          have hne : consumed ≠ [] := by
            rintro rfl
            rw [hsplit, List.nil_append] at hshorter
            omega
          refine ⟨consumed ++ others, ?_, ?_⟩
          · rw [← hway, Way.after, hsplit, hothers, List.append_assoc]
          · rw [← hway]
            exact .again hne hmatches hstar
        · exact ⟨[], rfl, .stop⟩
      · rintro ⟨consumed, hsplit, hmatches⟩
        rcases matches_star_iff.mp hmatches with ⟨hnone, hcaptures⟩ |
          ⟨front, back, groups, others, hne, hconsumed, hcaptures, hfront,
            hback⟩
        · right
          rw [hnone, List.nil_append] at hsplit
          exact Prod.ext hcaptures hsplit.symm
        · left
          have hpositive := List.length_pos_iff.mpr hne
          have htext : text = front ++ (back ++ way.2) := by
            rw [hsplit, hconsumed, List.append_assoc]
          have hlength : (back ++ way.2).length < text.length := by
            have hsum := congrArg List.length htext
            rw [List.length_append] at hsum
            omega
          refine ⟨(groups, back ++ way.2), ?_, ?_⟩
          · rw [List.mem_filter, hbody, decide_eq_true_eq]
            exact ⟨⟨front, htext, hfront⟩, hlength⟩
          · refine List.mem_map.mpr ⟨(others, way.2), ?_, ?_⟩
            · rw [ih (by change (back ++ way.2).length ≤ fuel; omega)]
              exact ⟨back, rfl, hback⟩
            · exact Prod.ext hcaptures.symm rfl

theorem mem_ways_iff (r : Regex α) (text : List α) (way : Way α) :
    way ∈ ways r text ↔ Goes r text way := by
  induction r generalizing text way with
  | empty =>
      rw [ways, List.mem_singleton]
      constructor
      · rintro rfl
        exact ⟨[], rfl, .empty⟩
      · rintro ⟨consumed, hsplit, hmatches⟩
        rw [matches_empty_iff] at hmatches
        rw [hmatches.1, List.nil_append] at hsplit
        exact Prod.ext hmatches.2 hsplit.symm
  | symbol set =>
      cases text with
      | nil =>
          rw [ways]
          constructor
          · intro hway
            cases hway
          · rintro ⟨consumed, hsplit, hmatches⟩
            rw [matches_symbol_iff] at hmatches
            rcases hmatches.1 with ⟨c, _, hconsumed⟩
            rw [hconsumed] at hsplit
            cases hsplit
      | cons c rest =>
          rw [ways]
          constructor
          · intro hway
            split_ifs at hway with hc
            · rw [List.mem_singleton] at hway
              rw [hway]
              exact ⟨[c], rfl, .symbol hc⟩
            · cases hway
          · rintro ⟨consumed, hsplit, hmatches⟩
            rw [matches_symbol_iff] at hmatches
            rcases hmatches with ⟨⟨d, hd, hconsumed⟩, hcaptures⟩
            rw [hconsumed, List.singleton_append, List.cons.injEq] at hsplit
            rw [hsplit.1, if_pos hd, List.mem_singleton]
            exact Prod.ext hcaptures hsplit.2.symm
  | seq first second ihfirst ihsecond =>
      rw [ways, List.mem_flatMap]
      constructor
      · rintro ⟨middle, hmiddle, hway⟩
        rcases List.mem_map.mp hway with ⟨next, hnext, hsame⟩
        rcases (ihfirst _ _).mp hmiddle with ⟨front, hfront, hfirst⟩
        rcases (ihsecond _ _).mp hnext with ⟨back, hback, hsecond⟩
        refine ⟨front ++ back, ?_, ?_⟩
        · rw [← hsame, Way.after, hfront, hback, List.append_assoc]
        · rw [← hsame]
          exact .seq hfirst hsecond
      · rintro ⟨consumed, hsplit, hmatches⟩
        rcases matches_seq_iff.mp hmatches with
          ⟨front, back, groups, others, hconsumed, hcaptures, hfirst, hsecond⟩
        refine ⟨(groups, back ++ way.2), ?_, ?_⟩
        · rw [ihfirst]
          exact ⟨front, by rw [hsplit, hconsumed, List.append_assoc], hfirst⟩
        · refine List.mem_map.mpr ⟨(others, way.2), ?_, ?_⟩
          · rw [ihsecond]
            exact ⟨back, rfl, hsecond⟩
          · exact Prod.ext hcaptures.symm rfl
  | alt first second ihfirst ihsecond =>
      rw [ways, List.mem_append, ihfirst, ihsecond]
      simp only [Goes, matches_alt_iff, and_or_left, exists_or]
  | star body ih =>
      rw [ways]
      exact mem_repeated_iff ih le_rfl
  | group index body ih =>
      rw [ways, List.mem_map]
      constructor
      · rintro ⟨inner, hinner, hway⟩
        rcases (ih _ _).mp hinner with ⟨consumed, hsplit, hmatches⟩
        have htake : text.take (text.length - inner.2.length) = consumed := by
          rw [hsplit, List.length_append, Nat.add_sub_cancel, List.take_left]
        rw [htake] at hway
        rw [← hway]
        exact ⟨consumed, hsplit, .group hmatches⟩
      · rintro ⟨consumed, hsplit, hmatches⟩
        rcases matches_group_iff.mp hmatches with ⟨groups, hcaptures, hbody⟩
        have htake : text.take (text.length - way.2.length) = consumed := by
          rw [hsplit, List.length_append, Nat.add_sub_cancel, List.take_left]
        refine ⟨(groups, way.2), ?_, ?_⟩
        · rw [ih]
          exact ⟨consumed, hsplit, hbody⟩
        · rw [htake]
          exact Prod.ext hcaptures.symm rfl

theorem mem_ways_nil_iff {r : Regex α} {text : List α} {captures : Captures α} :
    (captures, []) ∈ ways r text ↔ Matches r text captures := by
  rw [mem_ways_iff]
  constructor
  · rintro ⟨consumed, hsplit, hmatches⟩
    rw [List.append_nil] at hsplit
    rwa [hsplit]
  · intro hmatches
    exact ⟨text, (List.append_nil text).symm, hmatches⟩

theorem matches_of_regexMatch {r : Regex α} {text : List α}
    {captures : Captures α} (hfound : regexMatch r text = some captures) :
    Matches r text captures := by
  rcases Option.map_eq_some_iff.mp hfound with ⟨way, hway, hcaptures⟩
  have hfirst := List.find?_some hway
  have hempty : way.2 = [] := List.isEmpty_iff.mp hfirst
  have hmem := List.mem_of_find?_eq_some hway
  rw [← mem_ways_nil_iff, ← hcaptures, ← hempty]
  exact hmem

/-- No match is missed. -/
theorem regexMatch_eq_none_iff {r : Regex α} {text : List α} :
    regexMatch r text = none ↔ ∀ captures, ¬Matches r text captures := by
  rw [regexMatch, Option.map_eq_none_iff, List.find?_eq_none]
  constructor
  · intro hnone captures hmatches
    exact hnone _ (mem_ways_nil_iff.mpr hmatches) rfl
  · intro hnone way hway hempty
    have hnil : way.2 = [] := List.isEmpty_iff.mp hempty
    apply hnone way.1
    rw [← mem_ways_nil_iff, ← hnil]
    exact hway

/-! ## Shorthands -/

def maybe (r : Regex α) : Regex α := .alt r .empty

def times (r : Regex α) : ℕ → Regex α
  | 0 => .empty
  | n + 1 => .seq r (times r n)

theorem matches_times_symbol_iff {set : α → Bool} {n : ℕ} {text : List α}
    {captures : Captures α} :
    Matches (times (.symbol set) n) text captures ↔
      (text.length = n ∧ ∀ c ∈ text, set c = true) ∧ captures = [] := by
  induction n generalizing text captures with
  | zero =>
      rw [times, matches_empty_iff, List.length_eq_zero_iff]
      constructor
      · rintro ⟨rfl, rfl⟩
        exact ⟨⟨rfl, fun c hc => by cases hc⟩, rfl⟩
      · rintro ⟨⟨rfl, _⟩, rfl⟩
        exact ⟨rfl, rfl⟩
  | succ n ih =>
      rw [times, matches_seq_iff]
      simp only [matches_symbol_iff, ih]
      constructor
      · rintro ⟨front, back, groups, others, rfl, rfl, ⟨⟨c, hc, rfl⟩, rfl⟩,
          ⟨hlength, hall⟩, rfl⟩
        exact ⟨⟨by simp [hlength], List.forall_mem_cons.mpr ⟨hc, hall⟩⟩, rfl⟩
      · rintro ⟨⟨hlength, hall⟩, rfl⟩
        cases text with
        | nil => cases hlength
        | cons c rest =>
            rw [List.forall_mem_cons] at hall
            exact ⟨[c], rest, [], [], rfl, rfl, ⟨⟨c, hall.1, rfl⟩, rfl⟩,
              ⟨by simpa using hlength, hall.2⟩, rfl⟩

end Regexes
