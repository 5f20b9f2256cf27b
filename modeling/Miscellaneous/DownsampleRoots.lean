import Miscellaneous.Downsample
import Mathlib.Tactic

/-!
# From the source root to the target root

`replace` exchanges every occurrence of the source root, so a path below it is
moved to the target root as it is only if the root does not occur in the rest
of the path.  The directories and files of a source are all of the form root
and relative path, and everything that is asked of their destinations is read
off the relative path.
-/

namespace Miscellaneous.Downsample

open PosixPaths PythonJson PythonStrings

/-- An asset strictly below the source root, by its path from there, and the
elements recorded for it. -/
structure Source where
  rel : Str
  elements : List Str
  rel_relative : isAbsolute rel = false
  rel_stays : stays 0 (components rel) = true
  rel_strict : resolve [] (components rel) ≠ []
  elements_relative : ∀ element ∈ elements, isAbsolute element = false

def Source.asset (magic : Str) (source : Source) : Str :=
  pathJoin magic source.rel

/-- The directory and the files of the source, each with the destination that
is computed for it. -/
def Source.moves (magic target : Str) (source : Source) : List (Str × Str) :=
  (source.asset magic, dstDir magic target (source.asset magic)) ::
    source.elements.map fun element =>
      (srcPath (source.asset magic) element,
        dstPath magic target (source.asset magic) element)

/-- The destinations are the paths from the source root, put behind the target
root; they are below the target, different for different sources and apart
from the source tree.  A destination directory is removed before it is copied
to, so it must not contain the source tree either. -/
structure MapsBelow (cwd : List Str) (magic target : Str)
    (sources : List Source) : Prop where
  text : ∀ source ∈ sources, ∀ move ∈ source.moves magic target,
    move.2 = target ++ move.1.drop magic.length
  path : ∀ source ∈ sources, ∀ move ∈ source.moves magic target,
    components move.2 = components target ++
      (components move.1).drop (components magic).length
  json : ∀ source ∈ sources, ∀ file,
    file ∈ getDstConfigJsonFiles (source.asset magic) source.elements magic
        target ↔
      ∃ element ∈ source.elements, file = jsonPath
        (target ++ (srcPath (source.asset magic) element).drop magic.length)
  below : ∀ source ∈ sources, ∀ move ∈ source.moves magic target,
    StaysBelow target move.2
  distinct : ∀ first ∈ sources, ∀ second ∈ sources,
    ∀ move ∈ first.moves magic target, ∀ other ∈ second.moves magic target,
      location cwd move.1 ≠ location cwd other.1 →
        location cwd move.2 ≠ location cwd other.2
  untouched : ∀ source ∈ sources, ∀ move ∈ source.moves magic target,
    ¬location cwd magic <+: location cwd move.2
  notRemoved : ∀ source ∈ sources,
    ¬location cwd (dstDir magic target (source.asset magic)) <+:
      location cwd magic

/-- The paths of the source from the source root. -/
def Source.relatives (source : Source) : List Str :=
  source.rel :: source.elements.map (pathJoin source.rel)

/-- The source root occurs in the paths only at the beginning, a slash at its
end is one of the target too, no element leads above the root, and no path
from the root leads from the target to the source tree. -/
structure Source.Clean (cwd : List Str) (magic target : Str)
    (source : Source) : Prop where
  once : ∀ relative ∈ source.relatives,
    ¬magic <:+: (pathJoin magic relative).drop magic.length
  slash : endsWithSlash magic = true → endsWithSlash target = true
  stays : ∀ relative ∈ source.relatives, stays 0 (components relative) = true
  outside : ∀ relative ∈ source.relatives, ¬location cwd magic <+:
    location cwd target ++ resolve [] (components relative)
  notAbove : ¬location cwd target ++ resolve [] (components source.rel) <+:
    location cwd magic

/-! ## The paths of a source -/

theorem Source.rel_ne_nil (source : Source) : source.rel ≠ [] := by
  intro hnil
  apply source.rel_strict
  rw [hnil]
  rfl

theorem Source.relative_of_mem (source : Source) {relative : Str}
    (hrelative : relative ∈ source.relatives) :
    relative ≠ [] ∧ isAbsolute relative = false := by
  rcases List.mem_cons.mp hrelative with hrel | hmem
  · rw [hrel]
    exact ⟨source.rel_ne_nil, source.rel_relative⟩
  · rcases List.mem_map.mp hmem with ⟨element, helement, hjoin⟩
    rw [← hjoin, isAbsolute_pathJoin source.rel_ne_nil
      (source.elements_relative element helement)]
    exact ⟨pathJoin_ne_nil source.rel_ne_nil element, source.rel_relative⟩

theorem Source.moves_eq {magic : Str} (hmagic : magic ≠ []) (target : Str)
    (source : Source) :
    source.moves magic target = source.relatives.map fun relative =>
      (pathJoin magic relative,
        replace (pathJoin magic relative) magic target) := by
  rw [Source.moves, Source.relatives, List.map_cons, List.map_map]
  congr 1
  apply List.map_congr_left
  intro element helement
  have hassoc := pathJoin_assoc hmagic source.rel_ne_nil source.rel_relative
    (source.elements_relative element helement)
  simp only [dstPath, srcPath, Source.asset, hassoc, Function.comp_apply]

/-- What follows the root in a path from the root. -/
theorem exists_rest {magic relative : Str} (hmagic : magic ≠ [])
    (hrelative : isAbsolute relative = false) :
    ∃ rest, pathJoin magic relative = magic ++ rest ∧
      (endsWithSlash magic = true ∧ rest = relative ∨
        endsWithSlash magic = false ∧ rest = slash :: relative) := by
  by_cases hends : endsWithSlash magic = true
  · exact ⟨relative, pathJoin_of_endsWithSlash (Or.inr hends) hrelative,
      Or.inl ⟨hends, rfl⟩⟩
  · have hends' : endsWithSlash magic = false := by simpa using hends
    exact ⟨slash :: relative,
      pathJoin_of_not_endsWithSlash hmagic hends' hrelative,
      Or.inr ⟨hends', rfl⟩⟩

section Moves

variable {cwd : List Str} {magic target relative : Str}

theorem replace_eq_iff_once (hmagic : magic ≠ []) (hne : target ≠ magic)
    (hrelative : isAbsolute relative = false) :
    replace (pathJoin magic relative) magic target =
        target ++ (pathJoin magic relative).drop magic.length ↔
      ¬magic <:+: (pathJoin magic relative).drop magic.length := by
  rcases exists_rest hmagic hrelative with ⟨rest, hrest, _⟩
  rw [hrest, List.drop_left]
  exact replace_append_eq_iff hmagic hne

theorem drop_components (hrelative : isAbsolute relative = false) :
    (components (pathJoin magic relative)).drop (components magic).length =
      components relative := by
  rw [components_pathJoin hrelative, List.drop_left]

/-- Behind the target the relative path has its components exactly if there is
a slash between them. -/
theorem components_target_iff (hmagic : magic ≠ []) (htarget : target ≠ [])
    (hne : relative ≠ []) (hrelative : isAbsolute relative = false) :
    components (target ++ (pathJoin magic relative).drop magic.length) =
        components target ++ components relative ↔
      (endsWithSlash magic = true → endsWithSlash target = true) := by
  rcases exists_rest hmagic hrelative with ⟨rest, hrest, hcase⟩
  rw [hrest, List.drop_left]
  rcases hcase with ⟨hends, hrest⟩ | ⟨hends, hrest⟩
  · rw [hrest]
    constructor
    · intro hcomponents _
      by_contra hslash
      exact components_append_ne htarget (by simpa using hslash) hne hrelative
        hcomponents
    · intro hslash
      exact components_append_of_endsWithSlash (hslash hends) relative
  · rw [hrest]
    simp [hends, components_append_slash]

theorem location_source (hmagic : magic ≠ [])
    (hrelative : isAbsolute relative = false)
    (hstays : stays 0 (components relative) = true) :
    location cwd (pathJoin magic relative) =
      location cwd magic ++ resolve [] (components relative) :=
  location_of_stays (components_pathJoin hrelative)
    (isAbsolute_pathJoin hmagic hrelative) hstays

theorem location_destination {path : Str} (htarget : target ≠ [])
    (hpath : components (target ++ path) =
      components target ++ components relative)
    (hstays : stays 0 (components relative) = true) :
    location cwd (target ++ path) =
      location cwd target ++ resolve [] (components relative) :=
  location_of_stays hpath (isAbsolute_append htarget path) hstays

end Moves

theorem mem_foldl_dedup (f : Str → Str) (items files : List Str) (file : Str) :
    file ∈ items.foldl
        (fun files item => if f item ∈ files then files else files ++ [f item])
        files ↔
      file ∈ files ∨ ∃ item ∈ items, file = f item := by
  induction items generalizing files with
  | nil => simp
  | cons item items ih =>
      rw [List.foldl_cons, ih]
      split_ifs with hmem
      · constructor
        · rintro (hfile | ⟨other, hother, hfile⟩)
          · exact Or.inl hfile
          · exact Or.inr ⟨other, List.mem_cons_of_mem _ hother, hfile⟩
        · rintro (hfile | ⟨other, hother, hfile⟩)
          · exact Or.inl hfile
          · rcases List.mem_cons.mp hother with hsame | hother
            · left
              rw [hfile, hsame]
              exact hmem
            · exact Or.inr ⟨other, hother, hfile⟩
      · simp [or_assoc]

theorem mem_getDstConfigJsonFiles {asset magic target file : Str}
    {elements : List Str} :
    file ∈ getDstConfigJsonFiles asset elements magic target ↔
      ∃ element ∈ elements,
        file = jsonPath (dstPath magic target asset element) := by
  have hfold := mem_foldl_dedup
    (fun element => jsonPath (dstPath magic target asset element)) elements []
    file
  simpa only [getDstConfigJsonFiles, List.not_mem_nil, false_or] using hfold

/-! ## When the paths are mapped below the target -/

section Roots

variable {cwd : List Str} {magic target : Str} {sources : List Source}

theorem MapsBelow.clean (hmagic : magic ≠ []) (htarget : target ≠ [])
    (hne : target ≠ magic) (hmaps : MapsBelow cwd magic target sources)
    {source : Source} (hsource : source ∈ sources) :
    source.Clean cwd magic target := by
  have hmem : ∀ relative ∈ source.relatives,
      (pathJoin magic relative, replace (pathJoin magic relative) magic target) ∈
        source.moves magic target := by
    intro relative hrelative
    rw [source.moves_eq hmagic]
    exact List.mem_map_of_mem hrelative
  have hpath : ∀ relative ∈ source.relatives,
      components (target ++ (pathJoin magic relative).drop magic.length) =
        components target ++ components relative := by
    intro relative hrelative
    have htext := hmaps.text source hsource _ (hmem relative hrelative)
    have hcomponents := hmaps.path source hsource _ (hmem relative hrelative)
    rw [htext, drop_components (source.relative_of_mem hrelative).2] at hcomponents
    exact hcomponents
  have hstays : ∀ relative ∈ source.relatives,
      PosixPaths.stays 0 (components relative) = true := by
    intro relative hrelative
    have htext := hmaps.text source hsource _ (hmem relative hrelative)
    rcases hmaps.below source hsource _ (hmem relative hrelative) with
      ⟨tail, htail, _, hstays⟩
    rw [htext, hpath relative hrelative, List.append_cancel_left_eq] at htail
    rwa [htail]
  have hlocation : ∀ relative ∈ source.relatives,
      location cwd (replace (pathJoin magic relative) magic target) =
        location cwd target ++ resolve [] (components relative) := by
    intro relative hrelative
    have htext : replace (pathJoin magic relative) magic target =
        target ++ (pathJoin magic relative).drop magic.length :=
      hmaps.text source hsource _ (hmem relative hrelative)
    rw [htext]
    exact location_destination htarget (hpath relative hrelative)
      (hstays relative hrelative)
  constructor
  · intro relative hrelative
    exact (replace_eq_iff_once hmagic hne
      (source.relative_of_mem hrelative).2).mp
        (hmaps.text source hsource _ (hmem relative hrelative))
  · have hrel : source.rel ∈ source.relatives := List.mem_cons_self
    exact (components_target_iff hmagic htarget source.rel_ne_nil
      source.rel_relative).mp (hpath source.rel hrel)
  · exact hstays
  · intro relative hrelative
    rw [← hlocation relative hrelative]
    exact hmaps.untouched source hsource _ (hmem relative hrelative)
  · rw [← hlocation source.rel List.mem_cons_self]
    exact hmaps.notRemoved source hsource

theorem Source.exists_relative (hmagic : magic ≠ []) {source : Source}
    {move : Str × Str} (hmove : move ∈ source.moves magic target) :
    ∃ relative ∈ source.relatives, move = (pathJoin magic relative,
      replace (pathJoin magic relative) magic target) := by
  rw [source.moves_eq hmagic] at hmove
  rcases List.mem_map.mp hmove with ⟨relative, hrelative, hmove⟩
  exact ⟨relative, hrelative, hmove.symm⟩

section Clean

variable {source : Source} (hclean : source.Clean cwd magic target)

include hclean

theorem Source.Clean.replace_eq (hmagic : magic ≠ []) (hne : target ≠ magic)
    {relative : Str} (hrelative : relative ∈ source.relatives) :
    replace (pathJoin magic relative) magic target =
      target ++ (pathJoin magic relative).drop magic.length :=
  (replace_eq_iff_once hmagic hne (source.relative_of_mem hrelative).2).mpr
    (hclean.once relative hrelative)

theorem Source.Clean.components_eq (hmagic : magic ≠ []) (htarget : target ≠ [])
    {relative : Str} (hrelative : relative ∈ source.relatives) :
    components (target ++ (pathJoin magic relative).drop magic.length) =
      components target ++ components relative := by
  have hboth := source.relative_of_mem hrelative
  exact (components_target_iff hmagic htarget hboth.1 hboth.2).mpr hclean.slash

theorem Source.Clean.location_eq (hmagic : magic ≠ []) (htarget : target ≠ [])
    (hne : target ≠ magic) {relative : Str}
    (hrelative : relative ∈ source.relatives) :
    location cwd (replace (pathJoin magic relative) magic target) =
      location cwd target ++ resolve [] (components relative) := by
  rw [hclean.replace_eq hmagic hne hrelative]
  exact location_destination htarget
    (hclean.components_eq hmagic htarget hrelative)
    (hclean.stays relative hrelative)

theorem Source.Clean.dstPath_eq (hmagic : magic ≠ []) (hne : target ≠ magic)
    {element : Str} (helement : element ∈ source.elements) :
    dstPath magic target (source.asset magic) element =
      target ++ (srcPath (source.asset magic) element).drop magic.length := by
  have hmem : (srcPath (source.asset magic) element,
      dstPath magic target (source.asset magic) element) ∈
        source.moves magic target :=
    List.mem_cons_of_mem _ (List.mem_map_of_mem helement)
  rcases Source.exists_relative hmagic hmem with ⟨relative, hrelative, hmove⟩
  rw [Prod.mk.injEq] at hmove
  rw [hmove.1, hmove.2]
  exact hclean.replace_eq hmagic hne hrelative

end Clean

theorem mapsBelow_of_clean (hmagic : magic ≠ []) (htarget : target ≠ [])
    (hne : target ≠ magic)
    (hclean : ∀ source ∈ sources, source.Clean cwd magic target) :
    MapsBelow cwd magic target sources := by
  constructor
  · intro source hsource move hmove
    rcases Source.exists_relative hmagic hmove with ⟨relative, hrelative, hmove⟩
    rw [hmove]
    exact (hclean source hsource).replace_eq hmagic hne hrelative
  · intro source hsource move hmove
    rcases Source.exists_relative hmagic hmove with ⟨relative, hrelative, hmove⟩
    rw [hmove, (hclean source hsource).replace_eq hmagic hne hrelative,
      drop_components (source.relative_of_mem hrelative).2]
    exact (hclean source hsource).components_eq hmagic htarget hrelative
  · intro source hsource file
    rw [mem_getDstConfigJsonFiles]
    constructor
    · rintro ⟨element, helement, hfile⟩
      rw [(hclean source hsource).dstPath_eq hmagic hne helement] at hfile
      exact ⟨element, helement, hfile⟩
    · rintro ⟨element, helement, hfile⟩
      rw [← (hclean source hsource).dstPath_eq hmagic hne helement] at hfile
      exact ⟨element, helement, hfile⟩
  · intro source hsource move hmove
    rcases Source.exists_relative hmagic hmove with ⟨relative, hrelative, hmove⟩
    rw [hmove, (hclean source hsource).replace_eq hmagic hne hrelative]
    exact ⟨components relative,
      (hclean source hsource).components_eq hmagic htarget hrelative,
      isAbsolute_append htarget _,
      (hclean source hsource).stays relative hrelative⟩
  · intro first hfirst second hsecond move hmove other hother
    rcases Source.exists_relative hmagic hmove with ⟨relative, hrelative, hmove⟩
    rcases Source.exists_relative hmagic hother with
      ⟨relative', hrelative', hother⟩
    rw [hmove, hother,
      (hclean first hfirst).location_eq hmagic htarget hne hrelative,
      (hclean second hsecond).location_eq hmagic htarget hne hrelative',
      location_source hmagic (first.relative_of_mem hrelative).2
        ((hclean first hfirst).stays relative hrelative),
      location_source hmagic (second.relative_of_mem hrelative').2
        ((hclean second hsecond).stays relative' hrelative')]
    simp only [ne_eq, List.append_cancel_left_eq, imp_self]
  · intro source hsource move hmove
    rcases Source.exists_relative hmagic hmove with ⟨relative, hrelative, hmove⟩
    rw [hmove, (hclean source hsource).location_eq hmagic htarget hne hrelative]
    exact (hclean source hsource).outside relative hrelative
  · intro source hsource
    have hrel : source.rel ∈ source.relatives := List.mem_cons_self
    rw [dstDir, Source.asset,
      (hclean source hsource).location_eq hmagic htarget hne hrel]
    exact (hclean source hsource).notAbove

theorem mapsBelow_iff_clean (hmagic : magic ≠ []) (htarget : target ≠ [])
    (houtside : ¬location cwd magic <+: location cwd target) :
    MapsBelow cwd magic target sources ↔
      ∀ source ∈ sources, source.Clean cwd magic target := by
  have hne : target ≠ magic := by
    intro hsame
    rw [hsame] at houtside
    exact houtside (List.prefix_refl _)
  constructor
  · intro hmaps source hsource
    exact hmaps.clean hmagic htarget hne hsource
  · exact mapsBelow_of_clean hmagic htarget hne

end Roots

/-- An asset two levels below the source root, with one face image. -/
def faceSource (rel : Str) (hrelative : isAbsolute rel = false)
    (hstays : stays 0 (components rel) = true)
    (hstrict : resolve [] (components rel) ≠ []) : Source where
  rel := rel
  elements := [str "dg_makeup/face.png"]
  rel_relative := hrelative
  rel_stays := hstays
  rel_strict := hstrict
  elements_relative := by decide +kernel

theorem mapsBelow_iff_clean_hat :
    MapsBelow [] (str "magic") (str "small")
        [faceSource (str "hats/top") (by decide +kernel) (by decide +kernel)
          (by decide +kernel)] ↔
      ∀ source ∈ [faceSource (str "hats/top") (by decide +kernel)
          (by decide +kernel) (by decide +kernel)],
        source.Clean [] (str "magic") (str "small") :=
  mapsBelow_iff_clean (by decide) (by decide) (by decide +kernel)

/-- The name of the source root occurs in the name of an asset. -/
theorem mapsBelow_fails :
    ¬∀ (cwd : List Str) (magic target : Str) (sources : List Source),
      magic ≠ [] → target ≠ [] →
      ¬location cwd magic <+: location cwd target →
        MapsBelow cwd magic target sources := by
  intro hall
  have hmaps := hall [] (str "magic") (str "small")
    [faceSource (str "hats/magic_hat") (by decide +kernel) (by decide +kernel)
      (by decide +kernel)] (by decide) (by decide) (by decide +kernel)
  have htext := hmaps.text _ (List.mem_singleton_self _) _ List.mem_cons_self
  exact absurd htext (by decide +kernel)

end Miscellaneous.Downsample
