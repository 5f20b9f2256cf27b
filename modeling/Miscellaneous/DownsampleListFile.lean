import Miscellaneous.Downsample
import Mathlib.Tactic

/-!
# The list file

A line of the list file is cut at white space, so a record comes back exactly
if none of its strings contains any, and it is written at all only if all of
them can be encoded.  That no string of a record is empty follows from how the
records are made.
-/

namespace Miscellaneous.Downsample

open PosixPaths PythonJson PythonStrings

/-- The file is written, and reading it gives the records. -/
def RoundTrips (records : List (List Str)) : Prop :=
  ∃ file, writeRecords records = some file ∧ readRecords file = records

/-- A string without white space and without lone surrogates. -/
def Plain (text : Str) : Prop :=
  ∀ c ∈ text, isSpace c = false ∧ isSurrogate c = false

theorem encode_eq_some_iff {text file : Str} :
    encode text = some file ↔
      (∀ c ∈ text, isSurrogate c = false) ∧ text = file := by
  have hall : (text.all fun c => !isSurrogate c) = true ↔
      ∀ c ∈ text, isSurrogate c = false := by
    simp [List.all_eq_true]
  unfold encode
  split_ifs with hencodable
  · rw [Option.some.injEq]
    exact ⟨fun h => ⟨hall.mp hencodable, h⟩, fun h => h.2⟩
  · constructor
    · rintro ⟨⟩
    · intro h
      exact absurd (hall.mpr h.1) hencodable

/-- Whatever is read has no white space in it. -/
theorem isSpace_of_mem_readRecords {file : Str} {record : List Str}
    (hrecord : record ∈ readRecords file) {text : Str} (htext : text ∈ record) :
    ∀ c ∈ text, isSpace c = false := by
  rcases List.mem_map.mp hrecord with ⟨line, _, hline⟩
  rw [← hline] at htext
  exact separator_of_mem_words htext

theorem mem_of_mem_recordLine {record : List Str} {c : CodePoint}
    (hc : c ∈ recordLine record) :
    c = space ∨ c = newline ∨ ∃ text ∈ record, c ∈ text := by
  rcases List.mem_append.mp hc with hjoin | hend
  · rcases mem_intercalate hjoin with hspace | htext
    · exact Or.inl hspace
    · exact Or.inr (Or.inr htext)
  · exact Or.inr (Or.inl (List.mem_singleton.mp hend))

theorem mem_recordLine {record : List Str} {text : Str} (htext : text ∈ record)
    {c : CodePoint} (hc : c ∈ text) : c ∈ recordLine record :=
  List.mem_append_left _ (mem_intercalate_of_mem htext hc)

theorem split_recordLine {record : List Str}
    (hrecord : ∀ text ∈ record, text ≠ [] ∧ ∀ c ∈ text, isSpace c = false) :
    split (recordLine record) = record := by
  have hspace : isSpace space = true := by decide
  have hnewline : isSpace newline = true := by decide
  rw [split, recordLine, words_append_separator hnewline, join,
    words_intercalate hspace hrecord]
  simp [words]

theorem not_mem_join {record : List Str} {c : CodePoint} (hspace : c ≠ space)
    (hrecord : ∀ text ∈ record, c ∉ text) : c ∉ join [space] record := by
  intro hc
  rcases mem_intercalate hc with hsame | ⟨text, htext, hmem⟩
  · exact hspace hsame
  · exact hrecord text htext hmem

theorem readRecords_writeRecords {records : List (List Str)}
    (hrecords : ∀ record ∈ records, ∀ text ∈ record,
      text ≠ [] ∧ ∀ c ∈ text, isSpace c = false) :
    readRecords (records.flatMap recordLine) = records := by
  have hfree : ∀ c, isSpace c = true → c ≠ space → ∀ record ∈ records,
      c ∉ join [space] record := by
    intro c hc hspace record hrecord
    apply not_mem_join hspace
    intro text htext hmem
    rw [(hrecords record hrecord text htext).2 c hmem] at hc
    cases hc
  have hreturn : carriageReturn ∉ records.flatMap recordLine := by
    intro hmem
    rcases List.mem_flatMap.mp hmem with ⟨record, hrecord, hline⟩
    rcases List.mem_append.mp hline with hjoin | hend
    · exact hfree _ (by decide) (by decide) record hrecord hjoin
    · exact absurd (List.mem_singleton.mp hend) (by decide)
  have hlines : readlines (records.flatMap recordLine) =
      records.map recordLine := by
    have hflat := @lines_flatMap CodePoint _ newline
      (records.map fun record => join [space] record) (by
        intro text htext
        rcases List.mem_map.mp htext with ⟨record, hrecord, hjoin⟩
        rw [← hjoin]
        exact hfree _ (by decide) (by decide) record hrecord)
    rw [List.flatMap_map, List.map_map] at hflat
    exact hflat
  rw [readRecords, universalNewlines_eq hreturn, hlines, List.map_map]
  calc records.map (split ∘ recordLine) = records.map id := by
        apply List.map_congr_left
        intro record hrecord
        exact split_recordLine (hrecords record hrecord)
    _ = records := List.map_id records

/-- Records of nonempty strings come back exactly if all strings are plain. -/
theorem roundTrips_iff_plain {records : List (List Str)}
    (hnonempty : ∀ record ∈ records, ∀ text ∈ record, text ≠ []) :
    RoundTrips records ↔ ∀ record ∈ records, ∀ text ∈ record, Plain text := by
  constructor
  · rintro ⟨file, hwrite, hread⟩ record hrecord text htext c hc
    constructor
    · rw [← hread] at hrecord
      exact isSpace_of_mem_readRecords hrecord htext c hc
    · apply (encode_eq_some_iff.mp hwrite).1
      exact List.mem_flatMap.mpr ⟨record, hrecord, mem_recordLine htext hc⟩
  · intro hplain
    refine ⟨records.flatMap recordLine, ?_, ?_⟩
    · rw [writeRecords, encode_eq_some_iff]
      refine ⟨?_, rfl⟩
      intro c hc
      rcases List.mem_flatMap.mp hc with ⟨record, hrecord, hline⟩
      rcases mem_of_mem_recordLine hline with hspace | hnewline | ⟨text, htext, hmem⟩
      · rw [hspace]
        decide
      · rw [hnewline]
        decide
      · exact (hplain record hrecord text htext c hmem).2
    · apply readRecords_writeRecords
      intro record hrecord text htext
      exact ⟨hnonempty record hrecord text htext,
        fun c hc => (hplain record hrecord text htext c hc).1⟩

/-! ## The records -/

theorem isPrefix_lastDgMakeup {path : Str} (hpath : str "dg_makeup" <:+: path) :
    str "dg_makeup" <+: lastDgMakeup path := by
  rcases rfind?_of_isInfix hpath with ⟨i, hfind, hstarts⟩
  rwa [lastDgMakeup, sliceFrom_rfind hfind]

theorem ne_nil_of_dgMakeup {name : Str} (hname : str "dg_makeup" <+: name) :
    name ≠ [] := by
  intro hnil
  rw [hnil, List.prefix_nil] at hname
  exact absurd hname (by decide)

variable {F : Type}

theorem isPrefix_of_mem_dgMakeups {env : Environment F} {asset : Str}
    {names : List Str} (hnames : dgMakeups env asset = .ok names) {name : Str}
    (hname : name ∈ names) : str "dg_makeup" <+: name := by
  unfold dgMakeups at hnames
  split at hnames
  · cases hnames
    cases hname
  · cases hnames
  · rcases bind_eq_ok_iff.mp hnames with ⟨item, hitem, hrest⟩
    rcases bind_eq_ok_iff.mp hrest with ⟨filters, hfilters, hrest⟩
    rcases bind_eq_ok_iff.mp hrest with ⟨all, hall, hresult⟩
    cases hresult
    simpa using (List.mem_filter.mp hname).2

variable [PyRuntime F]

theorem analyzeMagicAssets_eq_ok {env : Environment F} {asset : Str}
    {record : List Str} (hrecord : analyzeMagicAssets env asset = .ok record) :
    ∃ names files, dgMakeups env asset = .ok names ∧
      names.mapM (fun name => getLargeTexFiles env (pathJoin asset name)) =
        .ok files ∧
      record = if files.flatten = [] then [] else asset :: files.flatten := by
  rcases bind_eq_ok_iff.mp hrecord with ⟨names, hnames, hrest⟩
  rcases bind_eq_ok_iff.mp hrest with ⟨files, hfiles, hresult⟩
  cases hresult
  exact ⟨names, files, hnames, hfiles, rfl⟩

theorem analyzeMagicAssets_nonempty {env : Environment F} {asset : Str}
    (hasset : asset ≠ []) {record : List Str}
    (hrecord : analyzeMagicAssets env asset = .ok record) :
    ∀ text ∈ record, text ≠ [] := by
  rcases analyzeMagicAssets_eq_ok hrecord with
    ⟨names, files, hnames, hfiles, hresult⟩
  intro text htext
  rw [hresult] at htext
  split_ifs at htext with hempty
  · cases htext
  rcases List.mem_cons.mp htext with hsame | htext
  · exact hsame ▸ hasset
  rcases List.mem_flatten.mp htext with ⟨elements, helements, hmem⟩
  rcases exists_of_mapM_eq_ok hfiles helements with ⟨name, hname, hfile⟩
  rcases bind_eq_ok_iff.mp hfile with ⟨pairs, hpairs, hpure⟩
  cases hpure
  rcases List.mem_flatMap.mp hmem with ⟨pair, hpair, helement⟩
  have hparent : lastDgMakeup (pathJoin asset name) ≠ [] :=
    ne_nil_of_dgMakeup (isPrefix_lastDgMakeup
      ((isPrefix_of_mem_dgMakeups hnames hname).isInfix.trans
        (isInfix_pathJoin asset name)))
  simp only [pairElements, List.mem_cons, List.not_mem_nil, or_false] at helement
  rcases helement with helement | helement
  · rw [helement]
    exact pathJoin_ne_nil hparent _
  · rw [helement]
    exact pathJoin_ne_nil hparent _

/-- The list file gives back the records that the analysis produces exactly if
no string of theirs has white space or lone surrogates in it. -/
theorem analyzed_roundTrips_iff {env : Environment F}
    {records : List (List Str)}
    (hrecords : ∀ record ∈ records, record ≠ [] ∧
      ∃ asset, asset ≠ [] ∧ analyzeMagicAssets env asset = .ok record) :
    RoundTrips records ↔
      ∀ record ∈ records, ∀ text ∈ record, Plain text := by
  apply roundTrips_iff_plain
  intro record hrecord
  rcases (hrecords record hrecord).2 with ⟨asset, hasset, hanalyze⟩
  exact analyzeMagicAssets_nonempty hasset hanalyze

theorem analyzed_roundTrips_iff_face :
    RoundTrips [[str "magic/hat", str "dg_makeup/face.png",
        str "dg_makeup/face.tex"]] ↔
      ∀ record ∈ [[str "magic/hat", str "dg_makeup/face.png",
        str "dg_makeup/face.tex"]], ∀ text ∈ record, Plain text := by
  have hanalyze : analyzeMagicAssets faceEnvironment (str "magic/hat") =
      .ok [str "magic/hat", str "dg_makeup/face.png",
        str "dg_makeup/face.tex"] := by
    decide +kernel
  apply @analyzed_roundTrips_iff Empty _ faceEnvironment
  intro record hrecord
  rw [List.mem_singleton.mp hrecord]
  exact ⟨by simp, _, by decide, hanalyze⟩

theorem analyzed_roundTrips_fails :
    ¬∀ (env : Environment Empty) (records : List (List Str)),
      (∀ record ∈ records, record ≠ [] ∧
        ∃ asset, asset ≠ [] ∧ analyzeMagicAssets env asset = .ok record) →
      RoundTrips records := by
  intro hall
  have hanalyze : analyzeMagicAssets faceEnvironment (str "magic/my hat") =
      .ok [str "magic/my hat", str "dg_makeup/face.png",
        str "dg_makeup/face.tex"] := by
    decide +kernel
  have hproduced : ∀ record ∈ [[str "magic/my hat", str "dg_makeup/face.png",
      str "dg_makeup/face.tex"]], record ≠ [] ∧ ∃ asset, asset ≠ [] ∧
        analyzeMagicAssets faceEnvironment asset = .ok record := by
    intro record hrecord
    rw [List.mem_singleton.mp hrecord]
    exact ⟨by simp, _, by decide, hanalyze⟩
  rcases hall faceEnvironment _ hproduced with ⟨file, _, hread⟩
  have hspace := isSpace_of_mem_readRecords
    (hread ▸ List.mem_singleton_self _) List.mem_cons_self space (by decide)
  exact absurd hspace (by decide)

end Miscellaneous.Downsample
