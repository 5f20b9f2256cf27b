import Miscellaneous.DownsampleConfigs
import Miscellaneous.DownsampleRun
import Mathlib.Tactic

/-!
# What a run of the down-sampling leaves

Whatever the run does, and wherever it stops, it changes nothing in the source
root.  When it ends, every asset that is not listed again has its own copy:
the files that are listed are the scaled ones of the source, and the others
are as they are there.

The files of one asset are written one after the other.  As all of them are read
from the source, a copy is at every moment a tree of the same shape, and so
every file has a place to be written to.
-/

namespace Miscellaneous.DownsampleRun

open DirectoryTrees Disks Downsample DownsampleTex FailingActions PosixPaths
  PythonJson PythonStrings

/-- The elements are below their asset, the way to the destination is
straight, and neither that one nor the way to the asset leads through the
destination. -/
structure Direct (cwd : List Str) (magic target : Str) (source : Source) :
    Prop where
  magic_ne_nil : magic ≠ []
  target_ne_nil : target ≠ []
  clean : source.Clean cwd magic target
  within : ∀ element ∈ source.elements, stays 0 (components element) = true
  way : ∀ place ∈ places (start cwd (dstDir magic target (source.asset magic)))
      (components (dstDir magic target (source.asset magic))),
    place <+: location cwd (dstDir magic target (source.asset magic))
  elsewhere : ¬location cwd (dstDir magic target (source.asset magic)) <+:
    start cwd (dstDir magic target (source.asset magic))
  apart : ∀ place ∈ start cwd (source.asset magic) ::
      places (start cwd (source.asset magic)) (components (source.asset magic)),
    ¬location cwd (dstDir magic target (source.asset magic)) <+: place

/-- Where the asset is, and where its copy is. -/
def assetPlace (cwd : List Str) (magic : Str) (source : Source) : List Str :=
  location cwd (source.asset magic)

def copyPlace (cwd : List Str) (magic target : Str) (source : Source) :
    List Str :=
  location cwd (dstDir magic target (source.asset magic))

def elementPlace (element : Str) : List Str := resolve [] (components element)

/-! ## Paths of one asset -/

theorem stays_of_append {path more : List Str} {depth : ℕ}
    (hstays : stays depth (path ++ more) = true) : stays depth path = true := by
  induction path generalizing depth with
  | nil => rfl
  | cons component rest ih =>
      rw [List.cons_append, stays] at hstays
      rw [stays]
      split_ifs at hstays ⊢
      · rw [Bool.and_eq_true] at hstays ⊢
        exact ⟨hstays.1, ih hstays.2⟩
      · exact ih hstays

theorem stays_concat {path : List Str} {depth : ℕ} {name : Str}
    (hstays : stays depth path = true) (hname : name ≠ dotDot) :
    stays depth (path ++ [name]) = true := by
  induction path generalizing depth with
  | nil =>
      rw [List.nil_append, stays, if_neg hname]
      rfl
  | cons component rest ih =>
      rw [stays] at hstays
      rw [List.cons_append, stays]
      split_ifs at hstays ⊢
      · rw [Bool.and_eq_true] at hstays ⊢
        exact ⟨hstays.1, ih hstays.2⟩
      · exact ih hstays

theorem components_stem (path : Str) : components (stem path) = components path := by
  unfold stem
  split_ifs with hends
  · have hlast : path.getLast? = some slash := by simpa [endsWithSlash] using hends
    rcases List.getLast?_eq_some_iff.mp hlast with ⟨init, hinit⟩
    rw [hinit, List.dropLast_concat, components_append_slash]
    exact (List.append_nil _).symm
  · rfl

theorem isAbsolute_stem_append {path : Str} (hne : path ≠ []) (more : Str) :
    isAbsolute (stem path ++ slash :: more) = isAbsolute path := by
  rcases path with _ | ⟨c, rest⟩
  · exact absurd rfl hne
  · by_cases hnil : stem (c :: rest) = []
    · have hends : endsWithSlash (c :: rest) = true := by
        by_contra hends
        rw [stem, if_neg hends] at hnil
        cases hnil
      rw [stem, if_pos hends] at hnil
      have hrest : rest = [] := by
        cases rest with
        | nil => rfl
        | cons d rest => cases hnil
      rw [hrest] at hends
      have hc : c = slash := by simpa [endsWithSlash] using hends
      rw [stem, if_pos (by rw [hrest]; exact hends), hnil, hc]
      rfl
    · rw [isAbsolute_append hnil]
      rcases stem_isPrefix (c :: rest) with ⟨tail, htail⟩
      have hfront := isAbsolute_append hnil tail
      rw [htail] at hfront
      exact hfront.symm

/-- How a path ends is seen from its last two characters. -/
theorem namesDirectory_append {front path : Str} (hlong : 2 ≤ path.length) :
    namesDirectory (front ++ path) = namesDirectory path := by
  have hne : path ≠ [] := List.length_pos_iff.mp (by omega)
  have hdot : str "/." <:+ front ++ path ↔ str "/." <:+ path := by
    constructor
    · intro hsuffix
      exact List.suffix_of_suffix_length_le hsuffix (List.suffix_append _ _)
        hlong
    · intro hsuffix
      exact hsuffix.trans (List.suffix_append _ _)
  rw [namesDirectory, namesDirectory, endsWithSlash_append hne]
  simp only [hdot]

section Paths

variable {cwd : List Str} {magic target element : Str} {source : Source}

theorem components_srcPath (helement : element ∈ source.elements) :
    components (srcPath (source.asset magic) element) =
      components (source.asset magic) ++ components element :=
  components_pathJoin (source.elements_relative element helement)

variable (hdirect : Direct cwd magic target source)

include hdirect

theorem Direct.target_ne_magic : target ≠ magic := by
  intro hsame
  apply hdirect.clean.outside source.rel List.mem_cons_self
  rw [hsame]
  exact List.prefix_append _ _

theorem Direct.asset_ne_nil : source.asset magic ≠ [] :=
  pathJoin_ne_nil hdirect.magic_ne_nil source.rel

theorem Direct.dstDir_eq : dstDir magic target (source.asset magic) =
    target ++ (source.asset magic).drop magic.length :=
  hdirect.clean.replace_eq hdirect.magic_ne_nil hdirect.target_ne_magic
    List.mem_cons_self

theorem Direct.dstPath_eq (helement : element ∈ source.elements) :
    dstPath magic target (source.asset magic) element =
      target ++ (srcPath (source.asset magic) element).drop magic.length :=
  hdirect.clean.dstPath_eq hdirect.magic_ne_nil hdirect.target_ne_magic helement

theorem Direct.start_srcPath (helement : element ∈ source.elements) :
    start cwd (srcPath (source.asset magic) element) =
      start cwd (source.asset magic) := by
  rw [start, start, srcPath, isAbsolute_pathJoin hdirect.asset_ne_nil
    (source.elements_relative element helement)]

theorem Direct.isAbsolute_dstPath (helement : element ∈ source.elements) :
    isAbsolute (dstPath magic target (source.asset magic) element) =
      isAbsolute (dstDir magic target (source.asset magic)) := by
  rw [hdirect.dstPath_eq helement, hdirect.dstDir_eq,
    isAbsolute_append hdirect.target_ne_nil,
    isAbsolute_append hdirect.target_ne_nil]

theorem Direct.components_dstPath (helement : element ∈ source.elements) :
    components (dstPath magic target (source.asset magic) element) =
      components (dstDir magic target (source.asset magic)) ++
        components element := by
  have hjoin : srcPath (source.asset magic) element =
      pathJoin magic (pathJoin source.rel element) :=
    pathJoin_assoc hdirect.magic_ne_nil source.rel_ne_nil source.rel_relative
      (source.elements_relative element helement)
  have hrel : source.rel ∈ source.relatives := List.mem_cons_self
  have hmem : pathJoin source.rel element ∈ source.relatives :=
    List.mem_cons_of_mem _ (List.mem_map_of_mem helement)
  rw [hdirect.dstPath_eq helement, hjoin,
    hdirect.clean.components_eq hdirect.magic_ne_nil hdirect.target_ne_nil hmem,
    hdirect.dstDir_eq, Source.asset,
    hdirect.clean.components_eq hdirect.magic_ne_nil hdirect.target_ne_nil hrel,
    components_pathJoin (source.elements_relative element helement),
    List.append_assoc]

theorem Direct.location_srcPath (helement : element ∈ source.elements) :
    location cwd (srcPath (source.asset magic) element) =
      assetPlace cwd magic source ++ elementPlace element :=
  location_of_stays (components_srcPath helement)
    (isAbsolute_pathJoin hdirect.asset_ne_nil
      (source.elements_relative element helement))
    (hdirect.within element helement)

theorem Direct.location_dstPath (helement : element ∈ source.elements) :
    location cwd (dstPath magic target (source.asset magic) element) =
      copyPlace cwd magic target source ++ elementPlace element :=
  location_of_stays (hdirect.components_dstPath helement)
    (hdirect.isAbsolute_dstPath helement) (hdirect.within element helement)

theorem Direct.magic_isPrefix_assetPlace :
    location cwd magic <+: assetPlace cwd magic source := by
  rw [assetPlace, Source.asset, location_source hdirect.magic_ne_nil
    source.rel_relative source.rel_stays]
  exact List.prefix_append _ _

/-- Nothing is both in the copy and in the source root. -/
theorem Direct.not_in_magic {place : List Str}
    (hcopy : copyPlace cwd magic target source <+: place) :
    ¬location cwd magic <+: place := by
  have hplace : copyPlace cwd magic target source =
      location cwd target ++ resolve [] (components source.rel) :=
    hdirect.clean.location_eq hdirect.magic_ne_nil hdirect.target_ne_nil
      hdirect.target_ne_magic List.mem_cons_self
  intro hmagic
  rcases List.prefix_or_prefix_of_prefix hmagic hcopy with hout | habove
  · rw [hplace] at hout
    exact hdirect.clean.outside source.rel List.mem_cons_self hout
  · rw [hplace] at habove
    exact hdirect.clean.notAbove habove

theorem Direct.asset_not_isPrefix : ¬assetPlace cwd magic source <+:
    copyPlace cwd magic target source := fun hasset =>
  hdirect.not_in_magic (List.prefix_refl _)
    (hdirect.magic_isPrefix_assetPlace.trans hasset)

theorem Direct.namesDirectory_dstPath (helement : element ∈ source.elements)
    (hnonempty : element ≠ []) :
    namesDirectory (dstPath magic target (source.asset magic) element) =
      namesDirectory (srcPath (source.asset magic) element) := by
  have hrelative := source.elements_relative element helement
  have hlong : 2 ≤ (pathJoin source.rel element).length := by
    have hpositive := List.length_pos_iff.mpr hnonempty
    have hfirst := List.length_pos_iff.mpr source.rel_ne_nil
    by_cases hends : endsWithSlash source.rel = true
    · rw [pathJoin_of_endsWithSlash (Or.inr hends) hrelative,
        List.length_append]
      omega
    · rw [pathJoin_of_not_endsWithSlash source.rel_ne_nil (by simpa using hends)
        hrelative, List.length_append, List.length_cons]
      omega
  have hjoin : srcPath (source.asset magic) element =
      pathJoin magic (pathJoin source.rel element) :=
    pathJoin_assoc hdirect.magic_ne_nil source.rel_ne_nil source.rel_relative
      hrelative
  have habsolute : isAbsolute (pathJoin source.rel element) = false := by
    rw [isAbsolute_pathJoin source.rel_ne_nil hrelative]
    exact source.rel_relative
  rcases exists_rest hdirect.magic_ne_nil habsolute with ⟨rest, hrest, hcase⟩
  have hrest2 : 2 ≤ rest.length := by
    rcases hcase with ⟨_, hsame⟩ | ⟨_, hsame⟩
    · rwa [hsame]
    · rw [hsame, List.length_cons]
      omega
  rw [hdirect.dstPath_eq helement, hjoin, hrest, List.drop_left,
    namesDirectory_append hrest2, namesDirectory_append hrest2]

theorem Direct.dstPath_eq_stem (helement : element ∈ source.elements) :
    dstPath magic target (source.asset magic) element =
      stem (dstDir magic target (source.asset magic)) ++ slash :: element := by
  rcases exists_rest hdirect.magic_ne_nil source.rel_relative with
    ⟨rest, hrest, hcase⟩
  have hne : rest ≠ [] := by
    rcases hcase with ⟨_, hsame⟩ | ⟨_, hsame⟩
    · rw [hsame]
      exact source.rel_ne_nil
    · rw [hsame]
      exact List.cons_ne_nil _ _
  rw [hdirect.dstPath_eq helement, hdirect.dstDir_eq, srcPath,
    pathJoin_eq_stem hdirect.asset_ne_nil
      (source.elements_relative element helement), Source.asset, hrest,
    stem_append hne, List.append_assoc, List.drop_left, List.drop_left,
    stem_append hne, List.append_assoc]

/-- The config files that are written are in the copy. -/
theorem Direct.copyPlace_isPrefix_jsonPath (helement : element ∈ source.elements) :
    copyPlace cwd magic target source <+: location cwd
      (jsonPath (dstPath magic target (source.asset magic) element)) := by
  have hconfig : ∀ front : Str, components (front ++ str "/config.json") =
      components front ++ [str "config.json"] := by
    intro front
    have hsplit : str "/config.json" = slash :: str "config.json" := by decide
    have hname : components (str "config.json") = [str "config.json"] := by
      decide +kernel
    rw [hsplit, components_append_slash, hname]
  have hdot : str "config.json" ≠ dotDot := by decide
  have hsplit : str "/config.json" = slash :: str "config.json" := by decide
  have hjson : ∃ more tail, stays 0 tail = true ∧
      jsonPath (dstPath magic target (source.asset magic) element) =
        stem (dstDir magic target (source.asset magic)) ++ slash :: more ∧
      components (jsonPath (dstPath magic target (source.asset magic) element)) =
        components (dstDir magic target (source.asset magic)) ++ tail := by
    rw [hdirect.dstPath_eq_stem helement]
    rcases exists_lastPiece element with hfree | ⟨before, name, hname, hfree⟩
    · refine ⟨str "config.json", [str "config.json"], by decide +kernel, ?_, ?_⟩
      · rw [jsonPath_append hfree, hsplit]
      · rw [jsonPath_append hfree, hconfig, components_stem]
    · have hstays := hdirect.within element helement
      rw [hname, components_append_slash] at hstays
      refine ⟨before ++ str "/config.json",
        components before ++ [str "config.json"],
        stays_concat (stays_of_append hstays) hdot, ?_, ?_⟩
      · rw [hname, ← List.cons_append, ← List.append_assoc,
          jsonPath_append hfree]
        simp
      · rw [hname, ← List.cons_append, ← List.append_assoc,
          jsonPath_append hfree, hconfig, components_append_slash,
          components_stem, List.append_assoc]
  rcases hjson with ⟨more, tail, hstays, hpath, hcomponents⟩
  have hne : dstDir magic target (source.asset magic) ≠ [] := by
    rw [hdirect.dstDir_eq]
    exact List.append_ne_nil_of_left_ne_nil hdirect.target_ne_nil _
  have habsolute := isAbsolute_stem_append hne more
  rw [← hpath] at habsolute
  rw [copyPlace, location_of_stays hcomponents habsolute hstays]
  exact List.prefix_append _ _

end Paths

/-! ## What stays as it is -/

section Confinement

variable {C I F : Type} {tools : Tools C I F} {cwd : List Str}
  {inside way : List Str → Prop}

theorem keeps_readText {R : Drive C → Drive C → Prop}
    (hrefl : ∀ drive, R drive drive)
    (htrans : ∀ a b c, R a b → R b c → R a c) (path : Str) :
    Keeps R (readText tools cwd path) :=
  Keeps.bind htrans (keeps_readFile hrefl cwd path) fun content =>
    Keeps.lift hrefl (tools.text content)

theorem confined_writeWith {path : Str} {written : C × Except Error PUnit}
    (hplace : inside (location cwd path)) :
    Keeps (Confined inside way) (writeWith cwd path written) :=
  Keeps.bind Confined.trans (confined_writeFile hplace) fun _ =>
    Keeps.lift Confined.refl written.2

theorem confined_downscale {srcPath dstPath : Str} {scale : ℚ}
    (hplace : inside (location cwd dstPath)) :
    Keeps (Confined inside way) (downscale tools cwd srcPath dstPath scale) := by
  rw [downscale]
  split_ifs
  · intro drive
    rw [downscaleTex, outcome_bind_of_ok (outcome_get drive)]
    split_ifs
    · refine Keeps.bind Confined.trans
        (keeps_readText Confined.refl Confined.trans srcPath) ?_ drive
      intro text
      exact Keeps.lift_bind Confined.refl fun line _ => confined_writeWith hplace
    · exact Confined.refl drive
  · intro drive
    rw [downscaleImg, outcome_bind_of_ok (outcome_get drive)]
    apply relates_lift_bind Confined.refl
    intro content _
    split
    · exact Confined.refl drive
    · rename_i place hfind
      split_ifs
      · exact Confined.refl drive
      · exact confined_update (find_eq_location hfind ▸ hplace)

theorem confined_addNeedScaleToJsonFiles [PyRuntime F]
    {elements jsonFiles : List Str}
    (hplace : ∀ file ∈ jsonFiles, inside (location cwd file)) :
    Keeps (Confined inside way)
      (addNeedScaleToJsonFiles tools cwd elements jsonFiles) := by
  apply Keeps.forM Confined.refl Confined.trans
  intro file hfile
  refine Keeps.bind Confined.trans
    (keeps_readText Confined.refl Confined.trans file) ?_
  intro text
  apply Keeps.lift_bind Confined.refl
  intro config _
  apply Keeps.lift_bind Confined.refl
  intro marked _
  exact confined_writeWith (hplace file hfile)

theorem confined_removeOld {dstDir : Str}
    (hplace : ∀ place, location cwd dstDir <+: place → inside place) :
    Keeps (Confined inside way) (removeOld cwd dstDir : Work C PUnit) := by
  intro drive
  rw [removeOld, outcome_bind_of_ok (outcome_get drive)]
  split_ifs
  · exact confined_rmtree hplace drive
  · exact Confined.refl drive

theorem confined_copyAsset {oriDir dstDir : Str}
    (hplace : ∀ place, location cwd dstDir <+: place → inside place)
    (hway : ∀ place ∈ places (start cwd dstDir) (components dstDir), way place) :
    Keeps (Confined inside way) (copyAsset cwd oriDir dstDir : Work C PUnit) :=
  Keeps.bind Confined.trans (confined_removeOld hplace) fun _ =>
    confined_copytree hplace hway

end Confinement

/-! ## One asset -/

section Asset

variable {C I F : Type} (tools : Tools C I F) (cwd : List Str)
  (arguments : Arguments) (magic : Str)

/-- The element names this file of the asset. -/
structure Names (source : Source) (drive : Drive C) (element : Str)
    (rest : List Str) (content : C) : Prop where
  path : namesDirectory (srcPath (source.asset magic) element) = false
  walk : drive.walk (assetPlace cwd magic source) (components element) =
    some (assetPlace cwd magic source ++ rest)
  file : drive (assetPlace cwd magic source ++ rest) = some (.file content)

/-- What a file becomes. -/
def scaledContent (scale : ℚ) (srcPath dstPath : Str) (content : C) :
    Except Error C :=
  if str ".tex" <:+ srcPath then do
    let text ← tools.text content
    let line ← scaledLine tools scale text
    (tools.encode line).2
    return (tools.encode line).1
  else do
    let imgScale ← tools.resize (tools.imread content) scale
    tools.imencode dstPath imgScale

/-- The source root is as it was, the asset and its copy can be reached, and the
copy has the directories of the asset. -/
structure Mirrors (source : Source) (initial drive : Drive C) : Prop where
  kept : ∀ place, location cwd magic <+: place → drive place = initial place
  asset : drive.walk (start cwd (source.asset magic))
      (components (source.asset magic)) = some (assetPlace cwd magic source)
  copy : drive.walk (start cwd (dstDir magic arguments.target (source.asset magic)))
      (components (dstDir magic arguments.target (source.asset magic))) =
    some (copyPlace cwd magic arguments.target source)
  shape : ∀ rest,
    isDirectory (drive (copyPlace cwd magic arguments.target source ++ rest)) =
      isDirectory (initial (assetPlace cwd magic source ++ rest))

/-- The files that the elements name are the scaled ones, the other places of
the copy are those of the asset, and every image has been found. -/
structure Copied (source : Source) (elements : List Str)
    (left : List Str → Prop) (initial final : Drive C) : Prop where
  plain : ∀ rest, ¬left (copyPlace cwd magic arguments.target source ++ rest) →
    (∀ element ∈ elements, ∀ content,
      ¬Names cwd magic source initial element rest content) →
    final (copyPlace cwd magic arguments.target source ++ rest) =
      initial (assetPlace cwd magic source ++ rest)
  scaled : ∀ rest, ¬left (copyPlace cwd magic arguments.target source ++ rest) →
    ∀ element ∈ elements, ∀ content,
      Names cwd magic source initial element rest content →
      ∃ other ∈ elements, ∃ scaled,
        Names cwd magic source initial other rest content ∧
        scaledContent tools arguments.scale (srcPath (source.asset magic) other)
          (dstPath magic arguments.target (source.asset magic) other) content =
            .ok scaled ∧
        final (copyPlace cwd magic arguments.target source ++ rest) =
          some (.file scaled)
  found : ∀ element ∈ elements,
    ¬str ".tex" <:+ srcPath (source.asset magic) element →
      ∃ rest content, Names cwd magic source initial element rest content

end Asset

section Elements

variable {C I F : Type} {tools : Tools C I F} {cwd : List Str}
  {arguments : Arguments} {magic element : Str} {source : Source}
  {initial drive final : Drive C} {rest : List Str} {content : C}
  (hdirect : Direct cwd magic arguments.target source)
  (hmirrors : Mirrors cwd arguments magic source initial drive)

include hdirect

theorem Names.rest_eq (helement : element ∈ source.elements)
    (hnames : Names cwd magic source drive element rest content) :
    rest = elementPlace element := by
  have hplace := walk_eq_resolve hnames.walk
  rw [resolve_of_stays_zero (hdirect.within element helement),
    List.append_cancel_left_eq] at hplace
  exact hplace

/-- Which file an element names is seen in the asset. -/
theorem Names.of_asset_eq {other : Drive C} (helement : element ∈ source.elements)
    (hsame : ∀ below, drive (assetPlace cwd magic source ++ below) =
      other (assetPlace cwd magic source ++ below))
    (hnames : Names cwd magic source drive element rest content) :
    Names cwd magic source other element rest content := by
  have hstays : stays ([] : List Str).length (components element) = true :=
    hdirect.within element helement
  have hwalk := hnames.walk
  rw [← List.append_nil (assetPlace cwd magic source)] at hwalk
  have hother := (walk_below hstays
    (fun below => congrArg isDirectory (hsame below)) hwalk).2
  rw [List.append_nil] at hother
  refine ⟨hnames.path, ?_, ?_⟩
  · rw [hother, Names.rest_eq hdirect helement hnames, elementPlace]
  · rw [← hsame]
    exact hnames.file

include hmirrors

theorem Mirrors.asset_eq (rest : List Str) :
    drive (assetPlace cwd magic source ++ rest) =
      initial (assetPlace cwd magic source ++ rest) :=
  hmirrors.kept _
    (hdirect.magic_isPrefix_assetPlace.trans (List.prefix_append _ rest))

theorem Mirrors.names_iff (helement : element ∈ source.elements) :
    Names cwd magic source drive element rest content ↔
      Names cwd magic source initial element rest content :=
  ⟨Names.of_asset_eq hdirect helement (hmirrors.asset_eq hdirect),
    Names.of_asset_eq hdirect helement
      fun below => (hmirrors.asset_eq hdirect below).symm⟩

/-- A source that can be read is the file that the element names. -/
theorem Mirrors.names_of_find {place : List Str}
    (helement : element ∈ source.elements)
    (hfind : drive.find cwd (srcPath (source.asset magic) element) = some place)
    (hfile : drive place = some (.file content)) :
    Names cwd magic source drive element (elementPlace element) content := by
  have hplace := find_eq_location hfind
  rw [hdirect.location_srcPath helement] at hplace
  subst hplace
  rcases find_eq_some_iff.mp hfind with ⟨_, hwalk, hends⟩
  rw [hdirect.start_srcPath helement, components_srcPath helement, walk_append,
    hmirrors.asset] at hwalk
  refine ⟨?_, hwalk, hfile⟩
  rw [hfile] at hends
  rw [← Bool.not_eq_true]
  intro hnames
  exact absurd (hends hnames) Bool.false_ne_true

theorem Mirrors.find_srcPath (helement : element ∈ source.elements)
    (hnames : Names cwd magic source drive element rest content) :
    drive.find cwd (srcPath (source.asset magic) element) =
      some (assetPlace cwd magic source ++ rest) := by
  refine find_eq_some_iff.mpr ⟨pathJoin_ne_nil hdirect.asset_ne_nil element, ?_,
    ?_⟩
  · rw [hdirect.start_srcPath helement, components_srcPath helement, walk_append,
      hmirrors.asset]
    exact hnames.walk
  · rw [hnames.path]
    intro hfalse
    cases hfalse

/-- The copy has a place for the file. -/
theorem Mirrors.find_dstPath (helement : element ∈ source.elements)
    (hne : element ≠ [])
    (hnames : Names cwd magic source drive element rest content) :
    drive.find cwd (dstPath magic arguments.target (source.asset magic) element) =
        some (copyPlace cwd magic arguments.target source ++ rest) ∧
      isDirectory (drive (copyPlace cwd magic arguments.target source ++ rest)) =
        false := by
  have hstays : stays ([] : List Str).length (components element) = true :=
    hdirect.within element helement
  have hsame : ∀ below,
      isDirectory (drive (assetPlace cwd magic source ++ below)) = isDirectory
        (drive (copyPlace cwd magic arguments.target source ++ below)) := by
    intro below
    rw [hmirrors.shape, hmirrors.asset_eq hdirect]
  have hwalk := hnames.walk
  rw [← List.append_nil (assetPlace cwd magic source)] at hwalk
  have hcopy := (walk_below hstays hsame hwalk).2
  rw [List.append_nil] at hcopy
  constructor
  · refine find_eq_some_iff.mpr ⟨?_, ?_, ?_⟩
    · rw [hdirect.dstPath_eq helement]
      exact List.append_ne_nil_of_left_ne_nil hdirect.target_ne_nil _
    · have hstart : start cwd
          (dstPath magic arguments.target (source.asset magic) element) =
            start cwd (dstDir magic arguments.target (source.asset magic)) := by
        rw [start, start, hdirect.isAbsolute_dstPath helement]
      rw [hstart, hdirect.components_dstPath helement, walk_append,
        hmirrors.copy, Names.rest_eq hdirect helement hnames]
      exact hcopy
    · rw [hdirect.namesDirectory_dstPath helement hne, hnames.path]
      intro hfalse
      cases hfalse
  · rw [← hsame, hnames.file]
    rfl

/-- Writing a file of the copy again leaves everything else as it is. -/
theorem Mirrors.update
    (hfile : isDirectory
      (drive (copyPlace cwd magic arguments.target source ++ rest)) = false) :
    Mirrors cwd arguments magic source initial
      (Function.update drive
        (copyPlace cwd magic arguments.target source ++ rest)
        (some (.file content))) := by
  have hdirectories : ∀ passed, isDirectory (drive passed) = true →
      isDirectory (Function.update drive
        (copyPlace cwd magic arguments.target source ++ rest)
        (some (.file content)) passed) = true := by
    intro passed hpassed
    have hne : passed ≠ copyPlace cwd magic arguments.target source ++ rest := by
      intro hsame
      rw [hsame, hfile] at hpassed
      cases hpassed
    rwa [Function.update_of_ne hne]
  constructor
  · intro place hplace
    have hne : place ≠ copyPlace cwd magic arguments.target source ++ rest := by
      intro hsame
      exact hdirect.not_in_magic (List.prefix_append _ rest) (hsame ▸ hplace)
    rw [Function.update_of_ne hne]
    exact hmirrors.kept place hplace
  · exact walk_of_directories (fun passed _ => hdirectories passed)
      hmirrors.asset
  · exact walk_of_directories (fun passed _ => hdirectories passed)
      hmirrors.copy
  · intro other
    rw [← hmirrors.shape]
    by_cases hsame : copyPlace cwd magic arguments.target source ++ other =
        copyPlace cwd magic arguments.target source ++ rest
    · rw [hsame, Function.update_self, hfile]
      rfl
    · rw [Function.update_of_ne hsame]

omit hdirect hmirrors in
theorem readText_eq_ok_iff {path text : Str} :
    outcome (readText tools cwd path) drive = (.ok text, final) ↔
      final = drive ∧ ∃ content,
        (drive.find cwd path).bind drive = some (.file content) ∧
          tools.text content = .ok text := by
  rw [readText, outcome_bind_eq_ok_iff]
  simp only [readFile_eq_ok_iff, outcome_lift, Prod.mk.injEq]
  constructor
  · rintro ⟨content, middle, ⟨hmiddle, hfile⟩, htext, hfinal⟩
    exact ⟨hfinal.symm.trans hmiddle, content, hfile, htext⟩
  · rintro ⟨hfinal, content, hfile, htext⟩
    exact ⟨content, drive, ⟨rfl, hfile⟩, htext, hfinal.symm⟩

/-- An element that has been dealt with names no file, or its file has been
written to the copy. -/
theorem Mirrors.downscale_eq_ok (helement : element ∈ source.elements)
    (hne : element ≠ [])
    (hwritable : tools.imwritable
      (dstPath magic arguments.target (source.asset magic) element) = true)
    {scale : ℚ} {result : PUnit}
    (hrun : outcome (downscale tools cwd (srcPath (source.asset magic) element)
      (dstPath magic arguments.target (source.asset magic) element) scale)
        drive = (.ok result, final)) :
    (final = drive ∧ str ".tex" <:+ srcPath (source.asset magic) element ∧
      ∀ rest content, ¬Names cwd magic source drive element rest content) ∨
    ∃ content scaled,
      Names cwd magic source drive element (elementPlace element) content ∧
      scaledContent tools scale (srcPath (source.asset magic) element)
        (dstPath magic arguments.target (source.asset magic) element) content =
          .ok scaled ∧
      final = Function.update drive
        (copyPlace cwd magic arguments.target source ++ elementPlace element)
        (some (.file scaled)) := by
  rw [downscale] at hrun
  split_ifs at hrun with htex
  · rw [downscaleTex, outcome_bind_of_ok (outcome_get drive)] at hrun
    split_ifs at hrun with hexists
    · right
      rcases outcome_bind_eq_ok_iff.mp hrun with ⟨text, middle, hread, hwrite⟩
      rcases readText_eq_ok_iff.mp hread with ⟨hmiddle, content, hfile, htext⟩
      subst hmiddle
      rcases Option.bind_eq_some_iff.mp hfile with ⟨place, hfind, hplace⟩
      have hnames := hmirrors.names_of_find hdirect helement hfind hplace
      rcases outcome_lift_bind_eq_ok_iff.mp hwrite with ⟨line, hline, hencode⟩
      rcases outcome_bind_eq_ok_iff.mp hencode with
        ⟨_, written, hopen, hresult⟩
      rw [outcome_lift, Prod.mk.injEq] at hresult
      rcases writeFile_eq_ok_iff.mp hopen with ⟨copied, hcopied, _, hupdate⟩
      have hdst := (hmirrors.find_dstPath hdirect helement hne hnames).1
      rw [hdst, Option.some.injEq] at hcopied
      refine ⟨content, (tools.encode line).1, hnames, ?_, ?_⟩
      · rw [scaledContent, if_pos htex, htext]
        simp only [bind, Except.bind, hline, hresult.1]
        rfl
      · rw [← hresult.2, hupdate, hcopied]
    · left
      cases hrun
      refine ⟨rfl, htex, ?_⟩
      intro rest content hnames
      apply hexists
      rw [Drive.pathExists, hmirrors.find_srcPath hdirect helement hnames,
        Option.bind_some, hnames.file]
      rfl
  · right
    rw [downscaleImg, outcome_bind_of_ok (outcome_get drive)] at hrun
    rcases outcome_lift_bind_eq_ok_iff.mp hrun with ⟨scaled, hscaled, hwrite⟩
    have hfile : ∃ content,
        (drive.find cwd (srcPath (source.asset magic) element)).bind drive =
          some (.file content) ∧
        scaledContent tools scale (srcPath (source.asset magic) element)
          (dstPath magic arguments.target (source.asset magic) element)
            content = .ok scaled := by
      rw [downscaledImage] at hscaled
      rcases tools.resize_none scale with ⟨error, herror⟩
      rcases hentry : (drive.find cwd (srcPath (source.asset magic) element)).bind
          drive with _ | _ | content
      · simp [hentry, herror, bind, Except.bind] at hscaled
      · simp [hentry, herror, bind, Except.bind] at hscaled
      · refine ⟨content, rfl, ?_⟩
        rw [scaledContent, if_neg htex]
        simpa only [hentry] using hscaled
    rcases hfile with ⟨content, hfile, hcontent⟩
    rcases Option.bind_eq_some_iff.mp hfile with ⟨place, hfind, hplace⟩
    have hnames := hmirrors.names_of_find hdirect helement hfind hplace
    have hdst := hmirrors.find_dstPath hdirect helement hne hnames
    refine ⟨content, scaled, hnames, hcontent, ?_⟩
    rw [hdst.1] at hwrite
    simp only [hdst.2, hwritable, Bool.not_true, Bool.or_self,
      Bool.false_eq_true, if_false] at hwrite
    rw [outcome_modify, Prod.mk.injEq] at hwrite
    exact hwrite.2.symm

omit hdirect hmirrors in
theorem Copied.mono {elements : List Str} {left left' : List Str → Prop}
    {last : Drive C}
    (hcopied : Copied tools cwd arguments magic source elements left initial
      final)
    (hleft : ∀ rest,
      ¬left' (copyPlace cwd magic arguments.target source ++ rest) →
        ¬left (copyPlace cwd magic arguments.target source ++ rest) ∧
          last (copyPlace cwd magic arguments.target source ++ rest) =
            final (copyPlace cwd magic arguments.target source ++ rest)) :
    Copied tools cwd arguments magic source elements left' initial last := by
  constructor
  · intro rest hrest hnone
    rw [(hleft rest hrest).2]
    exact hcopied.plain rest (hleft rest hrest).1 hnone
  · intro rest hrest
    rw [(hleft rest hrest).2]
    exact hcopied.scaled rest (hleft rest hrest).1
  · exact hcopied.found

/-- One element more. -/
theorem Mirrors.copied_concat {done : List Str}
    (hcopied : Copied tools cwd arguments magic source done (fun _ => False)
      initial drive)
    (helement : element ∈ source.elements) (hne : element ≠ [])
    (hwritable : tools.imwritable
      (dstPath magic arguments.target (source.asset magic) element) = true)
    {result : PUnit}
    (hrun : outcome (downscale tools cwd (srcPath (source.asset magic) element)
      (dstPath magic arguments.target (source.asset magic) element)
        arguments.scale) drive = (.ok result, final)) :
    Mirrors cwd arguments magic source initial final ∧
      Copied tools cwd arguments magic source (done ++ [element])
        (fun _ => False) initial final := by
  rcases hmirrors.downscale_eq_ok hdirect helement hne hwritable hrun with
    ⟨hfinal, htex, hnone⟩ | ⟨content, scaled, hnames, hscaled, hfinal⟩
  · subst hfinal
    have hnone' : ∀ rest content,
        ¬Names cwd magic source initial element rest content := by
      intro rest content hnames
      exact hnone rest content
        ((hmirrors.names_iff hdirect helement).mpr hnames)
    refine ⟨hmirrors, ?_, ?_, ?_⟩
    · intro rest hrest hfree
      apply hcopied.plain rest hrest
      intro other hother
      exact hfree other (List.mem_append_left _ hother)
    · intro rest hrest other hother content hnames
      rcases List.mem_append.mp hother with hdone | hlast
      · rcases hcopied.scaled rest hrest other hdone content hnames with
          ⟨written, hwritten, hresult⟩
        exact ⟨written, List.mem_append_left _ hwritten, hresult⟩
      · rw [List.mem_singleton] at hlast
        subst hlast
        exact absurd hnames (hnone' rest content)
    · intro other hother himage
      rcases List.mem_append.mp hother with hdone | hlast
      · exact hcopied.found other hdone himage
      · rw [List.mem_singleton] at hlast
        subst hlast
        exact absurd htex himage
  · have hplace := hmirrors.find_dstPath hdirect helement hne hnames
    have hinitial := (hmirrors.names_iff hdirect helement).mp hnames
    have hother : ∀ rest, rest ≠ elementPlace element →
        final (copyPlace cwd magic arguments.target source ++ rest) =
          drive (copyPlace cwd magic arguments.target source ++ rest) := by
      intro rest hrest
      rw [hfinal, Function.update_of_ne]
      intro hsame
      exact hrest (List.append_cancel_left hsame)
    subst hfinal
    refine ⟨hmirrors.update hdirect hplace.2, ?_, ?_, ?_⟩
    · intro rest hrest hfree
      have hdifferent : rest ≠ elementPlace element := by
        intro hsame
        subst hsame
        exact hfree element (List.mem_append_right _ (List.mem_singleton_self _))
          content hinitial
      rw [hother rest hdifferent]
      apply hcopied.plain rest hrest
      intro item hitem
      exact hfree item (List.mem_append_left _ hitem)
    · intro rest hrest item hitem content' hitem'
      by_cases hsame : rest = elementPlace element
      · subst hsame
        have hcontent : content = content' := by
          have hboth := hinitial.file.symm.trans hitem'.file
          simpa using hboth
        subst hcontent
        exact ⟨element, List.mem_append_right _ (List.mem_singleton_self _),
          scaled, hinitial, hscaled, Function.update_self _ _ _⟩
      · rw [hother rest hsame]
        rcases List.mem_append.mp hitem with hdone | hlast
        · rcases hcopied.scaled rest hrest item hdone content' hitem' with
            ⟨written, hwritten, hresult⟩
          exact ⟨written, List.mem_append_left _ hwritten, hresult⟩
        · rw [List.mem_singleton] at hlast
          subst hlast
          exact absurd (Names.rest_eq hdirect helement hitem') hsame
    · intro item hitem himage
      rcases List.mem_append.mp hitem with hdone | hlast
      · exact hcopied.found item hdone himage
      · rw [List.mem_singleton] at hlast
        subst hlast
        exact ⟨_, content, hinitial⟩

/-- All of them. -/
theorem Mirrors.copied_forM {done todo : List Str}
    (hcopied : Copied tools cwd arguments magic source done (fun _ => False)
      initial drive)
    (htodo : ∀ element ∈ todo, element ∈ source.elements ∧ element ≠ [] ∧
      tools.imwritable
        (dstPath magic arguments.target (source.asset magic) element) = true)
    (hrun : outcome (todo.forM fun element =>
      downscale tools cwd (srcPath (source.asset magic) element)
        (dstPath magic arguments.target (source.asset magic) element)
          arguments.scale) drive = (.ok ⟨⟩, final)) :
    Mirrors cwd arguments magic source initial final ∧
      Copied tools cwd arguments magic source (done ++ todo)
        (fun _ => False) initial final := by
  induction todo generalizing done drive with
  | nil =>
      cases hrun
      rw [List.append_nil]
      exact ⟨hmirrors, hcopied⟩
  | cons element todo ih =>
      rw [forM_cons, outcome_bind_eq_ok_iff] at hrun
      rcases hrun with ⟨_, middle, hfirst, hrest⟩
      rw [List.forall_mem_cons] at htodo
      rcases htodo.1 with ⟨helement, hne, hwritable⟩
      rcases hmirrors.copied_concat hdirect hcopied helement hne hwritable hfirst
        with ⟨hmiddle, hone⟩
      have hall := ih hmiddle hone htodo.2 hrest
      rwa [List.append_assoc] at hall

end Elements

end Miscellaneous.DownsampleRun
