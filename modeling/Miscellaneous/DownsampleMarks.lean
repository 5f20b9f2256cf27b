import Miscellaneous.DownsampleConfigs
import Mathlib.Data.List.ReduceOption
import Mathlib.Tactic

/-!
# Recorded files and marked filters

For one asset, whether the elements of its record name the files that were
measured, whether they lead to the config files that they come from, and
whether the filters marked in these are the ones with a recorded image.  The
first two are decided by the names of the directories and files; the third
compares names as they are spelled in the record.
-/

namespace Miscellaneous.Downsample

open PosixPaths PythonJson PythonStrings

variable {F : Type} [PyRuntime F]

/-! ## What is asked of a record -/

/-- The config file of the directory `name` contributes the pair of names to
the record of the asset. -/
def Recorded (env : Environment F) (asset name : Str) (pair : Str × Str) :
    Prop :=
  ∃ names pairs, dgMakeups env asset = .ok names ∧ name ∈ names ∧
    largePairs env (pathJoin asset name) = .ok pairs ∧ pair ∈ pairs

def RecordedFile (env : Environment F) (asset name file : Str) : Prop :=
  ∃ pair, Recorded env asset name pair ∧ (file = pair.1 ∨ file = pair.2)

def RecordedImage (env : Environment F) (asset path : Str) : Prop :=
  ∃ name pair, Recorded env asset name pair ∧
    path = pathJoin (pathJoin asset name) pair.1

def configPath (asset name : Str) : Str :=
  pathJoin (pathJoin asset name) (str "config.json")

/-- Joined to the asset the elements are the paths that were measured and
configured. -/
def NamesFiles (env : Environment F) (asset : Str) : Prop :=
  ∀ name pair, Recorded env asset name pair →
    (pairElements (pathJoin asset name) pair).map (srcPath asset) =
      [pathJoin (pathJoin asset name) pair.1,
        pathJoin (pathJoin asset name) pair.2]

/-- The config files of the elements are the copies of those that they come
from. -/
def FindsConfigs (env : Environment F) (magic target asset : Str)
    (elements : List Str) : Prop :=
  ∀ path, path ∈ getDstConfigJsonFiles asset elements magic target ↔
    ∃ name pair, Recorded env asset name pair ∧
      path = rootMapped magic target (configPath asset name)

/-- A filter with a recorded image gets the mark, any other stays as it is. -/
def MarkedAs (env : Environment F) (asset name : Str)
    (filter marked : Value F) : Prop :=
  (∃ img, imgName filter = .ok (some img) ∧
      RecordedImage env asset (pathJoin (pathJoin asset name) img) ∧
      marked = filter.setItem (str "needScale") (.bool false)) ∨
    (∃ name?, imgName filter = .ok name? ∧
      (∀ img, name? = some img →
        ¬RecordedImage env asset (pathJoin (pathJoin asset name) img)) ∧
      marked = filter)

/-- With the config files copied to the target, the files are all written
back, and the filters marked in them are those with a recorded image. -/
def MarksRecorded (env : Environment F) (magic target asset : Str)
    (elements : List Str) : Prop :=
  ∀ copied : Environment F,
    (∀ name pair, Recorded env asset name pair →
      copied.load (rootMapped magic target (configPath asset name)) =
        env.load (configPath asset name)) →
    ∃ written,
      addNeedScaleToJsonFiles copied (asset :: elements)
          (getDstConfigJsonFiles asset elements magic target) = .ok written ∧
        ∀ name pair, Recorded env asset name pair →
          ∃ config filters marked,
            env.load (configPath asset name) = .ok config ∧
            config.getItem (str "filters") = .ok (.list filters) ∧
            List.Forall₂ (MarkedAs env asset name) filters marked ∧
            (rootMapped magic target (configPath asset name),
              config.setItem (str "filters") (.list marked)) ∈ written

/-! ## What it depends on -/

/-- A recorded file has an absolute name or is in a directory whose name starts
with its only `dg_makeup`. -/
def OwnNames (env : Environment F) (asset : Str) : Prop :=
  ∀ name file, RecordedFile env asset name file →
    isAbsolute file = true ∨ Once name

/-- The recorded files lie directly in the directories that contribute to the
record, at least one in each. -/
structure OwnDirectories (env : Environment F) (asset : Str) : Prop where
  inside : ∀ name file, RecordedFile env asset name file →
    ∃ other pair, Recorded env asset other pair ∧
      LiesIn (pathJoin asset other) (pathJoin (pathJoin asset name) file)
  nonempty : ∀ name pair, Recorded env asset name pair →
    ∃ other file, RecordedFile env asset other file ∧
      LiesIn (pathJoin asset name) (pathJoin (pathJoin asset other) file)

/-- In the paths of the record the source root occurs only at the
beginning. -/
structure BelowRoot (env : Environment F) (magic asset : Str) : Prop where
  root : magic <+: asset
  files : ∀ name file, RecordedFile env asset name file →
    UnderRoot magic (pathJoin (pathJoin asset name) file)
  configs : ∀ name pair, Recorded env asset name pair →
    UnderRoot magic (configPath asset name)

/-- The image of a filter is not spelled like the asset, like a tex file only if
like a recorded image too, and always absolute or always relative. -/
structure PlainImage (env : Environment F) (asset name img : Str) : Prop where
  notAsset : pathJoin name img ≠ asset
  notTex : ∀ other pair, Recorded env asset other pair →
    pathJoin name img = pathJoin other pair.2 →
      ∃ third another, Recorded env asset third another ∧
        pathJoin name img = pathJoin third another.1
  sameKind : ∀ other pair, Recorded env asset other pair →
    pathJoin (pathJoin asset name) img =
        pathJoin (pathJoin asset other) pair.1 →
      isAbsolute img = isAbsolute pair.1

/-- In the directories that contribute to the record the name has one
`dg_makeup` and at most one slash at its end, and the filters have the names of
their images as plain strings.  No string of the config file has lone
surrogates. -/
structure PlainNames (env : Environment F) (asset : Str) : Prop where
  once : ∀ name pair, Recorded env asset name pair → Once name
  single : ∀ name pair, Recorded env asset name pair →
    endsWithSlash (stem name) = false
  images : ∀ name pair, Recorded env asset name pair → ∀ config filters,
    env.load (configPath asset name) = .ok config →
      config.getItem (str "filters") = .ok (.list filters) →
        ∀ filter ∈ filters, ∃ name?, imgName filter = .ok name? ∧
          ∀ img, name? = some img → PlainImage env asset name img
  encodable : ∀ name pair, Recorded env asset name pair → ∀ config,
    env.load (configPath asset name) = .ok config → config.encodable = true

/-! ## The elements of a record -/

section Elements

variable {env : Environment F} {asset : Str} {elements : List Str}

theorem mem_elements_iff
    (hrecord : analyzeMagicAssets env asset = .ok (asset :: elements))
    {element : Str} :
    element ∈ elements ↔ ∃ name pair, Recorded env asset name pair ∧
      element ∈ pairElements (pathJoin asset name) pair := by
  rcases analyzeMagicAssets_eq_ok hrecord with
    ⟨names, files, hnames, hfiles, hresult⟩
  have helements : elements = files.flatten := by
    split_ifs at hresult
    exact List.tail_eq_of_cons_eq hresult
  rw [helements, List.mem_flatten]
  constructor
  · rintro ⟨part, hpart, hmem⟩
    rcases exists_of_mapM_eq_ok hfiles hpart with ⟨name, hname, hfile⟩
    rcases bind_eq_ok_iff.mp hfile with ⟨pairs, hpairs, hpure⟩
    cases hpure
    rcases List.mem_flatMap.mp hmem with ⟨pair, hpair, helement⟩
    exact ⟨name, pair, ⟨names, pairs, hnames, hname, hpairs, hpair⟩, helement⟩
  · rintro ⟨name, pair, ⟨others, pairs, hothers, hname, hpairs, hpair⟩, helement⟩
    rw [hnames, Except.ok.injEq] at hothers
    subst hothers
    rcases exists_result_of_mapM_eq_ok hfiles hname with ⟨part, hpart, hfile⟩
    rcases bind_eq_ok_iff.mp hfile with ⟨others, hothers, hpure⟩
    rw [hpairs, Except.ok.injEq] at hothers
    subst hothers
    cases hpure
    exact ⟨_, hpart, List.mem_flatMap.mpr ⟨pair, hpair, helement⟩⟩

theorem Recorded.isPrefix {name : Str} {pair : Str × Str}
    (hpair : Recorded env asset name pair) : str "dg_makeup" <+: name := by
  rcases hpair with ⟨names, _, hnames, hname, _⟩
  exact isPrefix_of_mem_dgMakeups hnames hname

/-- A filter with two names is a dictionary, so it comes from a list. -/
theorem exists_dict_of_largeImgAndTex {dgMakeup : Str} {filter : Value F}
    {pair : Str × Str}
    (hpair : largeImgAndTex env dgMakeup filter = .ok (some pair)) :
    ∃ entries, filter = .dict entries := by
  rcases bind_eq_ok_iff.mp hpair with ⟨hasParts, _, hrest⟩
  cases hasParts with
  | false => cases hrest
  | true =>
      rcases bind_eq_ok_iff.mp hrest with ⟨parts, hparts, _⟩
      cases filter with
      | dict entries => exact ⟨entries, rfl⟩
      | none | bool | int | float | str | list => cases hparts

theorem Recorded.exists_config {name : Str} {pair : Str × Str}
    (hpair : Recorded env asset name pair) :
    ∃ config filters, env.load (configPath asset name) = .ok config ∧
      config.getItem (str "filters") = .ok (.list filters) := by
  rcases hpair with ⟨names, pairs, _, _, hpairs, hmem⟩
  unfold largePairs at hpairs
  rw [← configPath] at hpairs
  split at hpairs
  · cases hpairs
    cases hmem
  · cases hpairs
  · rename_i config hload
    rcases bind_eq_ok_iff.mp hpairs with ⟨item, hitem, hrest⟩
    rcases bind_eq_ok_iff.mp hrest with ⟨filters, hfilters, hrest⟩
    rcases bind_eq_ok_iff.mp hrest with ⟨found, hfound, hpure⟩
    cases hpure
    have hsome : some pair ∈ found := List.reduceOption_mem_iff.mp hmem
    rcases exists_of_mapM_eq_ok hfound hsome with ⟨filter, hfilter, hlarge⟩
    rcases exists_dict_of_largeImgAndTex hlarge with ⟨entries, hdict⟩
    subst hdict
    cases item with
    | list items => exact ⟨config, items, hload, hitem⟩
    | dict others =>
        cases hfilters
        simp at hfilter
    | str s =>
        cases hfilters
        simp at hfilter
    | none | bool | int | float => cases hfilters

/-! ## Names and config files -/

theorem namesFiles_iff (hasset : asset ≠ []) :
    NamesFiles env asset ↔ OwnNames env asset := by
  constructor
  · rintro hnames name file ⟨pair, hpair, hfile⟩
    have hboth := hnames name pair hpair
    simp only [pairElements, List.map_cons, List.map_nil, List.cons.injEq,
      and_true] at hboth
    rw [← srcPath_element_iff hasset hpair.isPrefix]
    rcases hfile with hfile | hfile
    · rw [hfile]
      exact hboth.1
    · rw [hfile]
      exact hboth.2
  · intro hown name pair hpair
    have himg := (srcPath_element_iff hasset hpair.isPrefix).mpr
      (hown name pair.1 ⟨pair, hpair, Or.inl rfl⟩)
    have htex := (srcPath_element_iff hasset hpair.isPrefix).mpr
      (hown name pair.2 ⟨pair, hpair, Or.inr rfl⟩)
    simp only [pairElements, List.map_cons, List.map_nil, himg, htex]

/-- What is computed from the elements depends on the recorded files. -/
theorem exists_element_iff
    (hrecord : analyzeMagicAssets env asset = .ok (asset :: elements))
    (hnames : NamesFiles env asset) {P : Str → Prop} :
    (∃ element ∈ elements, P (srcPath asset element)) ↔
      ∃ name file, RecordedFile env asset name file ∧
        P (pathJoin (pathJoin asset name) file) := by
  constructor
  · rintro ⟨element, helement, hP⟩
    rcases (mem_elements_iff hrecord).mp helement with
      ⟨name, pair, hpair, hmem⟩
    have hjoined : srcPath asset element ∈ _ := List.mem_map_of_mem hmem
    rw [hnames name pair hpair] at hjoined
    simp only [List.mem_cons, List.not_mem_nil, or_false] at hjoined
    rcases hjoined with himg | htex
    · exact ⟨name, pair.1, ⟨pair, hpair, Or.inl rfl⟩, himg ▸ hP⟩
    · exact ⟨name, pair.2, ⟨pair, hpair, Or.inr rfl⟩, htex ▸ hP⟩
  · rintro ⟨name, file, ⟨pair, hpair, hfile⟩, hP⟩
    have hmem : pathJoin (pathJoin asset name) file ∈
        (pairElements (pathJoin asset name) pair).map (srcPath asset) := by
      rw [hnames name pair hpair]
      rcases hfile with hfile | hfile <;> simp [hfile]
    rcases List.mem_map.mp hmem with ⟨element, helement, hsame⟩
    exact ⟨element, (mem_elements_iff hrecord).mpr ⟨name, pair, hpair, helement⟩,
      hsame ▸ hP⟩

theorem UnderRoot.ne_nil {magic path : Str} (hpath : UnderRoot magic path) :
    magic ≠ [] := by
  rcases hpath with ⟨rest, _, _, honce⟩
  intro hnil
  exact honce (hnil ▸ List.nil_infix)

theorem mem_configs_iff {magic target path : Str}
    (hrecord : analyzeMagicAssets env asset = .ok (asset :: elements))
    (hnames : NamesFiles env asset) (hroot : BelowRoot env magic asset) :
    path ∈ getDstConfigJsonFiles asset elements magic target ↔
      ∃ name file, RecordedFile env asset name file ∧
        path = jsonPath (rootMapped magic target
          (pathJoin (pathJoin asset name) file)) := by
  rw [mem_getDstConfigJsonFiles]
  have hexists := @exists_element_iff F _ env asset elements hrecord hnames
    fun source => path = jsonPath (replace source magic target)
  rw [show (∃ element ∈ elements,
      path = jsonPath (dstPath magic target asset element)) ↔ _ from hexists]
  constructor
  · rintro ⟨name, file, hfile, hpath⟩
    have hunder := hroot.files name file hfile
    exact ⟨name, file, hfile, hunder.replace_eq hunder.ne_nil ▸ hpath⟩
  · rintro ⟨name, file, hfile, hpath⟩
    have hunder := hroot.files name file hfile
    exact ⟨name, file, hfile, (hunder.replace_eq hunder.ne_nil).symm ▸ hpath⟩

theorem findsConfigs_iff {magic target : Str} (hasset : asset ≠ [])
    (hrecord : analyzeMagicAssets env asset = .ok (asset :: elements))
    (hnames : NamesFiles env asset) (hroot : BelowRoot env magic asset) :
    FindsConfigs env magic target asset elements ↔
      OwnDirectories env asset := by
  have hjson : ∀ name file, RecordedFile env asset name file →
      ∀ other pair, Recorded env asset other pair →
        (jsonPath (rootMapped magic target
              (pathJoin (pathJoin asset name) file)) =
            rootMapped magic target (configPath asset other) ↔
          LiesIn (pathJoin asset other)
            (pathJoin (pathJoin asset name) file)) := by
    intro name file hfile other pair hpair
    exact jsonPath_iff (pathJoin_ne_nil hasset other)
      (hroot.files name file hfile) (hroot.configs other pair hpair)
  constructor
  · intro hfinds
    constructor
    · intro name file hfile
      rcases (hfinds _).mp ((mem_configs_iff hrecord hnames hroot).mpr
        ⟨name, file, hfile, rfl⟩) with ⟨other, pair, hpair, hsame⟩
      exact ⟨other, pair, hpair, (hjson name file hfile other pair hpair).mp hsame⟩
    · intro name pair hpair
      rcases (mem_configs_iff hrecord hnames hroot).mp ((hfinds _).mpr
        ⟨name, pair, hpair, rfl⟩) with ⟨other, file, hfile, hsame⟩
      exact ⟨other, file, hfile,
        (hjson other file hfile name pair hpair).mp hsame.symm⟩
  · intro hown path
    rw [mem_configs_iff hrecord hnames hroot]
    constructor
    · rintro ⟨name, file, hfile, hpath⟩
      rcases hown.inside name file hfile with ⟨other, pair, hpair, hlies⟩
      refine ⟨other, pair, hpair, ?_⟩
      rw [hpath, (hjson name file hfile other pair hpair).mpr hlies]
    · rintro ⟨name, pair, hpair, hpath⟩
      rcases hown.nonempty name pair hpair with ⟨other, file, hfile, hlies⟩
      refine ⟨other, file, hfile, ?_⟩
      rw [hpath, (hjson other file hfile name pair hpair).mpr hlies]

/-! ## Marks -/

theorem isAbsolute_pathJoin_name {name img : Str}
    (hname : str "dg_makeup" <+: name) :
    isAbsolute (pathJoin name img) = isAbsolute img := by
  by_cases himg : isAbsolute img = true
  · rw [pathJoin_of_isAbsolute himg]
  · have himg' : isAbsolute img = false := by simpa using himg
    rw [isAbsolute_pathJoin (ne_nil_of_dgMakeup hname) himg',
      isAbsolute_of_dgMakeup hname, himg']

/-- The same spelling in the record is the same path. -/
theorem joined_eq_iff {name other img file : Str} (hasset : asset ≠ [])
    (hname : str "dg_makeup" <+: name) (hother : str "dg_makeup" <+: other)
    (hkind : isAbsolute img = isAbsolute file) :
    pathJoin (pathJoin asset name) img = pathJoin (pathJoin asset other) file ↔
      pathJoin name img = pathJoin other file := by
  by_cases himg : isAbsolute img = true
  · have hfile : isAbsolute file = true := hkind ▸ himg
    simp only [pathJoin_of_isAbsolute himg, pathJoin_of_isAbsolute hfile]
  · have himg' : isAbsolute img = false := by simpa using himg
    have hfile' : isAbsolute file = false := hkind ▸ himg'
    rw [pathJoin_assoc hasset (ne_nil_of_dgMakeup hname)
        (isAbsolute_of_dgMakeup hname) himg',
      pathJoin_assoc hasset (ne_nil_of_dgMakeup hother)
        (isAbsolute_of_dgMakeup hother) hfile']
    constructor
    · apply pathJoin_left_inj
      · rw [isAbsolute_pathJoin_name hname, himg']
      · rw [isAbsolute_pathJoin_name hother, hfile']
    · intro hsame
      rw [hsame]

theorem pathJoin_stem {name : Str} (img : Str)
    (hname : str "dg_makeup" <+: name)
    (hsingle : endsWithSlash (stem name) = false) :
    pathJoin (stem name) img = pathJoin name img := by
  by_cases himg : isAbsolute img = true
  · simp only [pathJoin_of_isAbsolute himg]
  · have himg' : isAbsolute img = false := by simpa using himg
    rw [pathJoin_eq_stem (ne_nil_of_dgMakeup hname) himg',
      pathJoin_of_not_endsWithSlash
        (ne_nil_of_dgMakeup (isPrefix_stem hname)) hsingle himg']

theorem lastDgMakeup_pathJoin {name : Str} (hname : str "dg_makeup" <+: name)
    (honce : Once name) : lastDgMakeup (pathJoin asset name) = name := by
  rcases exists_front asset (isAbsolute_of_dgMakeup hname) with
    ⟨front, _, hjoin⟩
  rw [hjoin, lastDgMakeup_of_once hname honce]

/-- The image of a filter is spelled like a string of the record exactly if it
is recorded. -/
theorem spelled_iff_recorded {name img : Str} {pair : Str × Str}
    (hasset : asset ≠ [])
    (hrecord : analyzeMagicAssets env asset = .ok (asset :: elements))
    (hplain : PlainNames env asset) (hpair : Recorded env asset name pair)
    (himg : PlainImage env asset name img) :
    pathJoin (stem name) img ∈ asset :: elements ↔
      RecordedImage env asset (pathJoin (pathJoin asset name) img) := by
  rw [pathJoin_stem img hpair.isPrefix (hplain.single name pair hpair)]
  have himage : ∀ other another, Recorded env asset other another →
      pathJoin name img = pathJoin other another.1 →
        RecordedImage env asset (pathJoin (pathJoin asset name) img) := by
    intro other another hanother hsame
    refine ⟨other, another, hanother, ?_⟩
    rw [joined_eq_iff hasset hpair.isPrefix hanother.isPrefix]
    · exact hsame
    · rw [← isAbsolute_pathJoin_name hpair.isPrefix, hsame,
        isAbsolute_pathJoin_name hanother.isPrefix]
  constructor
  · intro hmem
    rcases List.mem_cons.mp hmem with hsame | hmem
    · exact absurd hsame himg.notAsset
    rcases (mem_elements_iff hrecord).mp hmem with
      ⟨other, another, hanother, helement⟩
    rw [pairElements, lastDgMakeup_pathJoin hanother.isPrefix
      (hplain.once other another hanother)] at helement
    simp only [List.mem_cons, List.not_mem_nil, or_false] at helement
    rcases helement with hsame | hsame
    · exact himage other another hanother hsame
    · rcases himg.notTex other another hanother hsame with
        ⟨third, last, hlast, hsame⟩
      exact himage third last hlast hsame
  · rintro ⟨other, another, hanother, hsame⟩
    have hkind := himg.sameKind other another hanother hsame
    rw [joined_eq_iff hasset hpair.isPrefix hanother.isPrefix hkind] at hsame
    apply List.mem_cons_of_mem
    rw [mem_elements_iff hrecord]
    refine ⟨other, another, hanother, ?_⟩
    rw [pairElements, lastDgMakeup_pathJoin hanother.isPrefix
      (hplain.once other another hanother), hsame]
    exact List.mem_cons_self

theorem needScaleFilter_marks {name : Str} {pair : Str × Str}
    (hasset : asset ≠ [])
    (hrecord : analyzeMagicAssets env asset = .ok (asset :: elements))
    (hplain : PlainNames env asset) (hpair : Recorded env asset name pair)
    {filter : Value F} {name? : Option Str}
    (hname : imgName filter = .ok name?)
    (himg : ∀ img, name? = some img → PlainImage env asset name img) :
    ∃ marked, needScaleFilter (asset :: elements) (stem name) filter =
        .ok marked ∧ MarkedAs env asset name filter marked := by
  cases name? with
  | none =>
      refine ⟨filter, ?_, Or.inr ⟨none, hname, ?_, rfl⟩⟩
      · rw [needScaleFilter, hname]
        rfl
      · intro img hnone
        cases hnone
  | some img =>
      have hspelled :=
        spelled_iff_recorded hasset hrecord hplain hpair (himg img rfl)
      by_cases hmem : pathJoin (stem name) img ∈ asset :: elements
      · refine ⟨filter.setItem (str "needScale") (.bool false), ?_,
          Or.inl ⟨img, hname, hspelled.mp hmem, rfl⟩⟩
        rw [needScaleFilter, hname]
        exact if_pos hmem
      · refine ⟨filter, ?_, Or.inr ⟨some img, hname, ?_, rfl⟩⟩
        · rw [needScaleFilter, hname]
          exact if_neg hmem
        · intro other hother
          rw [← Option.some.inj hother]
          exact fun hrecorded => hmem (hspelled.mpr hrecorded)

/-- A mark brings no new string but its own key. -/
theorem MarkedAs.encodable {name : Str} {filter marked : Value F}
    (hmarked : MarkedAs env asset name filter marked)
    (hfilter : filter.encodable = true) : marked.encodable = true := by
  rcases hmarked with ⟨_, _, _, rfl⟩ | ⟨_, _, _, rfl⟩
  · exact Value.encodable_setItem hfilter (by decide) rfl
  · exact hfilter

theorem encodable_of_marks {name : Str} {config : Value F}
    {filters marked : List (Value F)} (hconfig : config.encodable = true)
    (hitem : config.getItem (str "filters") = .ok (.list filters))
    (hall : List.Forall₂ (MarkedAs env asset name) filters marked) :
    (config.setItem (str "filters") (.list marked)).encodable = true := by
  have hfilters : (Value.list filters).encodable = true :=
    Value.encodable_getItem hconfig hitem
  have hmarked : (Value.list marked).encodable = true := by
    unfold Value.encodable at hfilters ⊢
    rw [encodableItems_iff] at hfilters ⊢
    intro filter hfilter
    rcases List.forall₂_iff_get.mp hall with ⟨hlength, hget⟩
    rcases List.mem_iff_get.mp hfilter with ⟨i, rfl⟩
    have hi : i.val < filters.length := i.isLt.trans_eq hlength.symm
    exact (hget i.val hi i.isLt).encodable
      (hfilters _ (List.get_mem filters ⟨i.val, hi⟩))
  exact Value.encodable_setItem hconfig (by decide) hmarked

theorem addNeedScale_marks {magic target name : Str} {pair : Str × Str}
    (hasset : asset ≠ [])
    (hrecord : analyzeMagicAssets env asset = .ok (asset :: elements))
    (hroot : BelowRoot env magic asset) (hplain : PlainNames env asset)
    (hpair : Recorded env asset name pair) :
    ∃ config filters marked, env.load (configPath asset name) = .ok config ∧
      config.getItem (str "filters") = .ok (.list filters) ∧
      List.Forall₂ (MarkedAs env asset name) filters marked ∧
      addNeedScale (asset :: elements)
          (rootMapped magic target (configPath asset name)) config =
        .ok (config.setItem (str "filters") (.list marked)) ∧
      (config.setItem (str "filters") (.list marked)).dump = .ok () := by
  rcases hpair.exists_config with ⟨config, filters, hload, hitem⟩
  have hfilters : ∀ filter ∈ filters, ∃ marked,
      needScaleFilter (asset :: elements) (stem name) filter = .ok marked ∧
        MarkedAs env asset name filter marked := by
    intro filter hfilter
    rcases hplain.images name pair hpair config filters hload hitem filter
      hfilter with ⟨name?, hname, himg⟩
    exact needScaleFilter_marks hasset hrecord hplain hpair hname himg
  rcases exists_mapM_eq_ok hfilters with ⟨marked, hmarked, hall⟩
  refine ⟨config, filters, marked, hload, hitem, hall, ?_,
    Value.dump_eq_ok.mpr (encodable_of_marks
      (hplain.encodable name pair hpair config hload) hitem hall)⟩
  have hparent : configParent
      (rootMapped magic target (configPath asset name)) = stem name :=
    configParent_rootMapped hasset hroot.root hpair.isPrefix
      (hplain.once name pair hpair)
  rw [← hparent] at hmarked
  exact bind_eq_ok_iff.mpr
    ⟨_, hitem, bind_eq_ok_iff.mpr ⟨marked, hmarked, rfl⟩⟩

/-- If every file can be read and marked, all of them are written back. -/
theorem exists_addNeedScaleToJsonFiles {copied : Environment F}
    {record jsonFiles : List Str}
    (hfiles : ∀ path ∈ jsonFiles, ∃ config marked,
      copied.load path = .ok config ∧
        addNeedScale record path config = .ok marked ∧ marked.dump = .ok ()) :
    ∃ written, addNeedScaleToJsonFiles copied record jsonFiles = .ok written ∧
      ∀ path ∈ jsonFiles, ∀ config marked, copied.load path = .ok config →
        addNeedScale record path config = .ok marked →
          (path, marked) ∈ written := by
  have hwritten : ∃ written,
      addNeedScaleToJsonFiles copied record jsonFiles = .ok written ∧
        List.Forall₂ (fun _ _ => True) jsonFiles written := by
    apply exists_mapM_eq_ok
    intro path hpath
    rcases hfiles path hpath with ⟨config, marked, hload, hadd, hdump⟩
    refine ⟨(path, marked), ?_, trivial⟩
    exact bind_eq_ok_iff.mpr ⟨config, hload, bind_eq_ok_iff.mpr
      ⟨marked, hadd, bind_eq_ok_iff.mpr ⟨(), hdump, rfl⟩⟩⟩
  rcases hwritten with ⟨written, hwritten, _⟩
  refine ⟨written, hwritten, ?_⟩
  intro path hpath config marked hload hadd
  rcases exists_result_of_mapM_eq_ok hwritten hpath with ⟨result, hmem, hresult⟩
  rcases bind_eq_ok_iff.mp hresult with ⟨other, hother, hrest⟩
  rw [hload] at hother
  cases hother
  rcases bind_eq_ok_iff.mp hrest with ⟨third, hthird, hwrite⟩
  rw [hadd] at hthird
  cases hthird
  rcases bind_eq_ok_iff.mp hwrite with ⟨_, _, hpure⟩
  cases hpure
  exact hmem

theorem marksRecorded_of_plainNames {magic target : Str} (hasset : asset ≠ [])
    (hrecord : analyzeMagicAssets env asset = .ok (asset :: elements))
    (hroot : BelowRoot env magic asset)
    (hfinds : FindsConfigs env magic target asset elements)
    (hplain : PlainNames env asset) :
    MarksRecorded env magic target asset elements := by
  intro copied hcopied
  have hmarks := fun name pair =>
    @addNeedScale_marks F _ env asset elements magic target name pair hasset
      hrecord hroot hplain
  have hfiles : ∀ path ∈ getDstConfigJsonFiles asset elements magic target,
      ∃ config marked, copied.load path = .ok config ∧
        addNeedScale (asset :: elements) path config = .ok marked ∧
        marked.dump = .ok () := by
    intro path hpath
    rcases (hfinds path).mp hpath with ⟨name, pair, hpair, hsame⟩
    rcases hmarks name pair hpair with
      ⟨config, filters, marked, hload, _, _, hadd, hdump⟩
    rw [hsame, hcopied name pair hpair]
    exact ⟨config, _, hload, hadd, hdump⟩
  rcases exists_addNeedScaleToJsonFiles hfiles with
    ⟨written, hwritten, hmem⟩
  refine ⟨written, hwritten, ?_⟩
  intro name pair hpair
  rcases hmarks name pair hpair with
    ⟨config, filters, marked, hload, hitem, hall, hadd, _⟩
  refine ⟨config, filters, marked, hload, hitem, hall, ?_⟩
  have hpath : rootMapped magic target (configPath asset name) ∈
      getDstConfigJsonFiles asset elements magic target :=
    (hfinds _).mpr ⟨name, pair, hpair, rfl⟩
  exact hmem _ hpath config _ (by rw [hcopied name pair hpair, hload]) hadd

/-! ## Where the four cuts agree -/

/-- The elements name their files exactly if nothing of the directories is cut
off; then they lead to their config files exactly if the files lie directly in
the directories.  With plain names the marks are right too. -/
theorem record_agrees {magic target : Str} (hasset : asset ≠ [])
    (hrecord : analyzeMagicAssets env asset = .ok (asset :: elements)) :
    (NamesFiles env asset ↔ OwnNames env asset) ∧
      (BelowRoot env magic asset → NamesFiles env asset →
        (FindsConfigs env magic target asset elements ↔
          OwnDirectories env asset)) ∧
      (BelowRoot env magic asset → OwnDirectories env asset →
        PlainNames env asset →
          NamesFiles env asset ∧
            FindsConfigs env magic target asset elements ∧
            MarksRecorded env magic target asset elements) := by
  constructor
  · exact namesFiles_iff hasset
  constructor
  · intro hroot hnames
    exact findsConfigs_iff hasset hrecord hnames hroot
  · intro hroot hown hplain
    have hnames : NamesFiles env asset := by
      rw [namesFiles_iff hasset]
      intro name file hfile
      rcases hfile with ⟨pair, hpair, _⟩
      exact Or.inr (hplain.once name pair hpair)
    have hfinds : FindsConfigs env magic target asset elements :=
      (findsConfigs_iff hasset hrecord hnames hroot).mpr hown
    exact ⟨hnames, hfinds,
      marksRecorded_of_plainNames hasset hrecord hroot hfinds hplain⟩

end Elements

/-! ## Two assets -/

theorem face_recorded {name : Str} {pair : Str × Str}
    (hpair : Recorded faceEnvironment (str "magic/hat") name pair) :
    name = str "dg_makeup" ∧ pair = (str "face.png", str "face.tex") := by
  rcases hpair with ⟨names, pairs, hnames, hname, hpairs, hmem⟩
  have hdirectories : dgMakeups faceEnvironment (str "magic/hat") =
      .ok [str "dg_makeup"] := by
    decide +kernel
  rw [hdirectories] at hnames
  cases hnames
  have hsame := List.mem_singleton.mp hname
  subst hsame
  have hfound : largePairs faceEnvironment
      (pathJoin (str "magic/hat") (str "dg_makeup")) =
        .ok [(str "face.png", str "face.tex")] := by
    decide +kernel
  rw [hfound] at hpairs
  cases hpairs
  exact ⟨rfl, List.mem_singleton.mp hmem⟩

theorem recorded_face : Recorded faceEnvironment (str "magic/hat")
    (str "dg_makeup") (str "face.png", str "face.tex") := by
  refine ⟨[str "dg_makeup"], [(str "face.png", str "face.tex")], ?_, ?_, ?_, ?_⟩
  · decide +kernel
  · exact List.mem_singleton_self _
  · decide +kernel
  · exact List.mem_singleton_self _

theorem face_recordedFile {name file : Str}
    (hfile : RecordedFile faceEnvironment (str "magic/hat") name file) :
    name = str "dg_makeup" ∧ (file = str "face.png" ∨ file = str "face.tex") := by
  rcases hfile with ⟨pair, hpair, hfile⟩
  rcases face_recorded hpair with ⟨hname, hsame⟩
  rw [hsame] at hfile
  exact ⟨hname, hfile⟩

theorem face_belowRoot :
    BelowRoot faceEnvironment (str "magic") (str "magic/hat") := by
  constructor
  · decide
  · intro name file hfile
    rcases face_recordedFile hfile with ⟨hname, hfile | hfile⟩
    · rw [hname, hfile]
      exact ⟨str "/hat/dg_makeup/face.png", by decide, by decide, by decide⟩
    · rw [hname, hfile]
      exact ⟨str "/hat/dg_makeup/face.tex", by decide, by decide, by decide⟩
  · intro name pair hpair
    rw [(face_recorded hpair).1]
    exact ⟨str "/hat/dg_makeup/config.json", by decide, by decide, by decide⟩

theorem face_ownDirectories :
    OwnDirectories faceEnvironment (str "magic/hat") := by
  have hdirectory : ∀ file ∈ [str "face.png", str "face.tex"],
      LiesIn (pathJoin (str "magic/hat") (str "dg_makeup"))
        (pathJoin (pathJoin (str "magic/hat") (str "dg_makeup")) file) := by
    intro file hfile
    refine ⟨file, ?_, rfl⟩
    simp only [List.mem_cons, List.not_mem_nil, or_false] at hfile
    rcases hfile with hfile | hfile
    · rw [hfile]
      decide
    · rw [hfile]
      decide
  constructor
  · intro name file hfile
    rcases face_recordedFile hfile with ⟨hname, hfile⟩
    rw [hname]
    exact ⟨_, _, recorded_face, hdirectory file (by simpa using hfile)⟩
  · intro name pair hpair
    rw [(face_recorded hpair).1]
    exact ⟨_, _, ⟨_, recorded_face, Or.inl rfl⟩,
      hdirectory _ List.mem_cons_self⟩

theorem face_plainNames : PlainNames faceEnvironment (str "magic/hat") := by
  constructor
  · intro name pair hpair
    rw [(face_recorded hpair).1]
    unfold Once
    decide
  · intro name pair hpair
    rw [(face_recorded hpair).1]
    decide
  · intro name pair hpair config filters hload hitem filter hfilter
    rw [(face_recorded hpair).1] at hload ⊢
    cases hload
    cases hitem
    rw [List.mem_singleton.mp hfilter]
    refine ⟨some (str "face.png"), rfl, ?_⟩
    intro img himg
    cases himg
    constructor
    · decide
    · intro other another hanother hsame
      rcases face_recorded hanother with ⟨hother, hpair⟩
      rw [hother, hpair] at hsame
      exact absurd hsame (by decide)
    · intro other another hanother _
      rw [(face_recorded hanother).2]
  · intro name pair hpair config hload
    rw [(face_recorded hpair).1] at hload
    cases hload
    decide +kernel

theorem record_agrees_face :
    NamesFiles faceEnvironment (str "magic/hat") ∧
      FindsConfigs faceEnvironment (str "magic") (str "small") (str "magic/hat")
        [str "dg_makeup/face.png", str "dg_makeup/face.tex"] ∧
      MarksRecorded faceEnvironment (str "magic") (str "small") (str "magic/hat")
        [str "dg_makeup/face.png", str "dg_makeup/face.tex"] := by
  have hrecord : analyzeMagicAssets faceEnvironment (str "magic/hat") =
      .ok [str "magic/hat", str "dg_makeup/face.png",
        str "dg_makeup/face.tex"] := by
    decide +kernel
  exact (record_agrees (by decide) hrecord).2.2 face_belowRoot
    face_ownDirectories face_plainNames

/-- The directory listed in `params.txt` is one level deeper. -/
def nestedEnvironment : Environment Empty where
  load path :=
    if str "/params.txt" <:+ path then
      .ok (.dict [(str "filters",
        .list [.str (str "dg_makeup_a/dg_makeup_b")])])
    else faceEnvironment.load path
  isfile := faceEnvironment.isfile
  imread := faceEnvironment.imread

/-- The elements name files next to the directory that was measured. -/
theorem record_agrees_fails :
    ¬∀ (env : Environment Empty) (magic target asset : Str)
        (elements : List Str), asset ≠ [] →
      analyzeMagicAssets env asset = .ok (asset :: elements) →
        NamesFiles env asset ∧
          FindsConfigs env magic target asset elements ∧
          MarksRecorded env magic target asset elements := by
  intro hall
  have hrecord : analyzeMagicAssets nestedEnvironment (str "magic/hat") =
      .ok [str "magic/hat", str "dg_makeup_b/face.png",
        str "dg_makeup_b/face.tex"] := by
    decide +kernel
  have hpair : Recorded nestedEnvironment (str "magic/hat")
      (str "dg_makeup_a/dg_makeup_b") (str "face.png", str "face.tex") := by
    refine ⟨[str "dg_makeup_a/dg_makeup_b"],
      [(str "face.png", str "face.tex")], ?_, ?_, ?_, ?_⟩
    · decide +kernel
    · exact List.mem_singleton_self _
    · decide +kernel
    · exact List.mem_singleton_self _
  have hnames := (hall nestedEnvironment (str "magic") (str "small")
    (str "magic/hat") _ (by decide) hrecord).1 _ _ hpair
  exact absurd hnames (by decide +kernel)

end Miscellaneous.Downsample
