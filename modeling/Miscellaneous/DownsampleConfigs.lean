import Miscellaneous.DownsampleListFile
import Miscellaneous.DownsampleRoots
import Mathlib.Tactic

/-!
# Elements and their config files

The element of an image is built from the last `dg_makeup` of its directory,
joined to the asset again, and cut at the last slash to find the config file.
The pieces fit together where `dg_makeup` occurs in the name of the directory
only at the beginning and the image lies directly in the directory.
-/

namespace Miscellaneous.Downsample

open PosixPaths PythonJson PythonStrings

/-! ## The two cuts -/

theorem not_slash_mem_dgMakeup : slash ∉ str "dg_makeup" := by decide

theorem dgMakeup_ne_nil : str "dg_makeup" ≠ [] := by decide

theorem isAbsolute_of_dgMakeup {name : Str}
    (hname : str "dg_makeup" <+: name) : isAbsolute name = false := by
  rcases hname with ⟨rest, hrest⟩
  rw [← hrest, isAbsolute_append dgMakeup_ne_nil]
  decide

theorem exists_front (path : Str) {more : Str}
    (hmore : isAbsolute more = false) :
    ∃ front, path <+: front ∧ pathJoin path more = front ++ more := by
  by_cases hends : path = [] ∨ endsWithSlash path = true
  · exact ⟨path, List.prefix_refl path, pathJoin_of_endsWithSlash hends hmore⟩
  · rw [not_or] at hends
    refine ⟨path ++ [slash], List.prefix_append _ _, ?_⟩
    rw [pathJoin_of_not_endsWithSlash hends.1 (by simpa using hends.2) hmore]
    simp

/-- The last `dg_makeup` is the one that the name starts with. -/
def Once (name : Str) : Prop := ¬str "dg_makeup" <:+: name.drop 1

theorem lastDgMakeup_of_once {front name : Str}
    (hname : str "dg_makeup" <+: name) (honce : Once name) :
    lastDgMakeup (front ++ name) = name := by
  have hfind : rfind? (str "dg_makeup") (front ++ name) = some front.length :=
    (rfind?_append_iff dgMakeup_ne_nil hname).mpr honce
  rw [lastDgMakeup, sliceFrom_rfind hfind, List.drop_left]

/-- The last `dg_makeup` of a directory starts a piece of its name. -/
theorem lastDgMakeup_isSuffix {front name : Str}
    (hname : str "dg_makeup" <+: name) :
    lastDgMakeup (front ++ name) <:+ name ∧
      (lastDgMakeup (front ++ name) = name → Once name) := by
  have hwithin : str "dg_makeup" <:+: front ++ name :=
    hname.isInfix.trans (List.suffix_append front name).isInfix
  rcases rfind?_of_isInfix hwithin with ⟨i, hfind, _⟩
  rw [lastDgMakeup, sliceFrom_rfind hfind]
  have hle : front.length ≤ i := by
    by_contra hlt
    refine (rfind?_spec hfind).2.2 front.length (by omega) (by simp) ?_
    rwa [List.drop_left]
  have hsplit : i = front.length + (i - front.length) := by omega
  constructor
  · rw [hsplit, List.drop_length_add_append]
    exact List.drop_suffix _ _
  · intro hsame
    have hlength := congrArg List.length hsame
    have hbound := (rfind?_spec hfind).1
    rw [List.length_drop, List.length_append] at hlength
    rw [List.length_append] at hbound
    have hi : i = front.length := by
      have hpositive := List.length_pos_iff.mpr (ne_nil_of_dgMakeup hname)
      omega
    rw [hi] at hfind
    exact (rfind?_append_iff dgMakeup_ne_nil hname).mp hfind

/-- A directory without the slash that it may end with. -/
def stem (directory : Str) : Str :=
  if endsWithSlash directory then directory.dropLast else directory

theorem pathJoin_eq_stem {directory : Str} (hne : directory ≠ []) {name : Str}
    (hname : isAbsolute name = false) :
    pathJoin directory name = stem directory ++ slash :: name := by
  unfold stem
  split_ifs with hends
  · have hlast : directory.getLast? = some slash := by
      simpa [endsWithSlash] using hends
    rcases List.getLast?_eq_some_iff.mp hlast with ⟨init, hinit⟩
    rw [pathJoin_of_endsWithSlash (Or.inr hends) hname, hinit]
    simp
  · exact pathJoin_of_not_endsWithSlash hne (by simpa using hends) hname

theorem stem_isPrefix (directory : Str) : stem directory <+: directory := by
  unfold stem
  split_ifs
  · exact List.dropLast_prefix directory
  · exact List.prefix_refl directory

theorem stem_append {front directory : Str} (hne : directory ≠ []) :
    stem (front ++ directory) = front ++ stem directory := by
  unfold stem
  rw [endsWithSlash_append hne, List.dropLast_append_of_ne_nil hne]
  split_ifs <;> rfl

theorem isPrefix_stem {name : Str} (hname : str "dg_makeup" <+: name) :
    str "dg_makeup" <+: stem name := by
  rcases hname with ⟨rest, hrest⟩
  cases rest with
  | nil =>
      rw [← hrest]
      decide
  | cons c rest =>
      rw [← hrest, stem_append (List.cons_ne_nil c rest)]
      exact List.prefix_append _ _

theorem isAbsolute_of_not_mem {name : Str} (hname : slash ∉ name) :
    isAbsolute name = false := by
  cases name with
  | nil => rfl
  | cons c rest =>
      have hc : c ≠ slash := fun h => hname (by simp [h])
      simpa [isAbsolute] using hc

theorem sliceTo_lastSlash {front name : Str} (hname : slash ∉ name) :
    sliceTo (front ++ slash :: name) (rfind (front ++ slash :: name) [slash]) =
      front := by
  rw [sliceTo_rfind (rfind?_singleton hname), List.take_left]

theorem jsonPath_append {front name : Str} (hname : slash ∉ name) :
    jsonPath (front ++ slash :: name) = front ++ str "/config.json" := by
  rw [jsonPath, sliceTo_lastSlash hname]

/-! ## Joining an element to its asset -/

theorem length_pathJoin_eq {path more name : Str} (hpath : path ≠ [])
    (hmore : more ≠ []) (hends : endsWithSlash path = endsWithSlash more)
    (hname : isAbsolute name = false)
    (hsame : pathJoin path name = pathJoin more name) :
    path.length = more.length := by
  by_cases hslash : endsWithSlash path = true
  · rw [pathJoin_of_endsWithSlash (Or.inr hslash) hname,
      pathJoin_of_endsWithSlash (Or.inr (hends ▸ hslash)) hname] at hsame
    rw [List.append_cancel_right hsame]
  · have hslash' : endsWithSlash path = false := by simpa using hslash
    rw [pathJoin_of_not_endsWithSlash hpath hslash' hname,
      pathJoin_of_not_endsWithSlash hmore (hends ▸ hslash') hname] at hsame
    rw [List.append_cancel_right hsame]

theorem pathJoin_left_inj {path first second : Str}
    (hfirst : isAbsolute first = false) (hsecond : isAbsolute second = false)
    (hsame : pathJoin path first = pathJoin path second) : first = second := by
  by_cases hends : path = [] ∨ endsWithSlash path = true
  · rw [pathJoin_of_endsWithSlash hends hfirst,
      pathJoin_of_endsWithSlash hends hsecond] at hsame
    exact List.append_cancel_left hsame
  · rw [not_or] at hends
    rw [pathJoin_of_not_endsWithSlash hends.1 (by simpa using hends.2) hfirst,
      pathJoin_of_not_endsWithSlash hends.1 (by simpa using hends.2) hsecond]
      at hsame
    exact List.tail_eq_of_cons_eq (List.append_cancel_left hsame)

theorem pathJoin_of_isAbsolute {path name : Str}
    (hname : isAbsolute name = true) : pathJoin path name = name := by
  rw [pathJoin, if_pos hname]

/-- The element leads back to the file if and only if nothing of the name of
the directory has been cut off, unless the file has an absolute name. -/
theorem srcPath_element_iff {asset name file : Str} (hasset : asset ≠ [])
    (hname : str "dg_makeup" <+: name) :
    srcPath asset (pathJoin (lastDgMakeup (pathJoin asset name)) file) =
        pathJoin (pathJoin asset name) file ↔
      isAbsolute file = true ∨ Once name := by
  have habsolute := isAbsolute_of_dgMakeup hname
  have hne := ne_nil_of_dgMakeup hname
  rcases exists_front asset habsolute with ⟨front, _, hfront⟩
  rw [srcPath, hfront]
  by_cases hfile : isAbsolute file = true
  · simp [pathJoin_of_isAbsolute hfile, hfile]
  have hfile' : isAbsolute file = false := by simpa using hfile
  rw [← hfront, pathJoin_assoc hasset hne habsolute hfile', hfront]
  rcases @lastDgMakeup_isSuffix front name hname with ⟨hsuffix, honce⟩
  have hlast : str "dg_makeup" <+: lastDgMakeup (front ++ name) :=
    isPrefix_lastDgMakeup
      (hname.isInfix.trans (List.suffix_append front name).isInfix)
  have hlastne := ne_nil_of_dgMakeup hlast
  constructor
  · intro hsame
    right
    have hinner : pathJoin (lastDgMakeup (front ++ name)) file =
        pathJoin name file := by
      apply pathJoin_left_inj _ _ hsame
      · rw [isAbsolute_pathJoin hlastne hfile', isAbsolute_of_dgMakeup hlast]
      · rw [isAbsolute_pathJoin hne hfile', habsolute]
    have hends : endsWithSlash (lastDgMakeup (front ++ name)) =
        endsWithSlash name := by
      rcases hsuffix with ⟨before, hbefore⟩
      rw [← endsWithSlash_append hlastne, hbefore]
    exact honce (hsuffix.eq_of_length
      (length_pathJoin_eq hlastne hne hends hfile' hinner))
  · rintro (hfalse | honce)
    · exact absurd hfalse hfile
    · rw [lastDgMakeup_of_once hname honce]

/-! ## The config file of an element -/

/-- A path below a directory of the source root, in which the root does not
occur again. -/
def UnderRoot (magic path : Str) : Prop :=
  ∃ rest, path = magic ++ rest ∧ slash ∈ rest ∧ ¬magic <:+: rest

def rootMapped (magic target path : Str) : Str :=
  target ++ path.drop magic.length

theorem UnderRoot.replace_eq {magic target path : Str} (hmagic : magic ≠ [])
    (hpath : UnderRoot magic path) :
    replace path magic target = rootMapped magic target path := by
  rcases hpath with ⟨rest, hrest, _, honce⟩
  rw [rootMapped, hrest, replace_append hmagic honce, List.drop_left]

/-- The path continues the directory by one name. -/
def LiesIn (directory path : Str) : Prop :=
  ∃ name, slash ∉ name ∧ path = pathJoin directory name

/-- The config file found for a file is the one of the directory exactly if
the file lies directly in the directory. -/
theorem jsonPath_iff {magic target directory path : Str}
    (hdirectory : directory ≠ []) (hpath : UnderRoot magic path)
    (hconfig : UnderRoot magic (pathJoin directory (str "config.json"))) :
    jsonPath (rootMapped magic target path) =
        rootMapped magic target (pathJoin directory (str "config.json")) ↔
      LiesIn directory path := by
  rcases hpath with ⟨rest, hrest, hslash, _⟩
  rcases hconfig with ⟨configRest, hconfigRest, _, _⟩
  rcases (exists_lastPiece rest).resolve_left (not_not_intro hslash) with
    ⟨before, name, hbefore, hname⟩
  have hjson : str "/config.json" = slash :: str "config.json" := by decide
  have hstem : magic ++ configRest =
      stem directory ++ str "/config.json" := by
    rw [← hconfigRest, pathJoin_eq_stem hdirectory (by decide), hjson]
  have hleft : jsonPath (rootMapped magic target path) =
      target ++ (before ++ str "/config.json") := by
    rw [rootMapped, hrest, List.drop_left, hbefore, ← List.append_assoc,
      jsonPath_append hname, List.append_assoc]
  have hright : rootMapped magic target
      (pathJoin directory (str "config.json")) = target ++ configRest := by
    rw [rootMapped, hconfigRest, List.drop_left]
  rw [hleft, hright, List.append_cancel_left_eq]
  constructor
  · intro hsame
    rw [← hsame, ← List.append_assoc] at hstem
    refine ⟨name, hname, ?_⟩
    rw [pathJoin_eq_stem hdirectory (isAbsolute_of_not_mem hname),
      ← List.append_cancel_right hstem, hrest, hbefore, List.append_assoc]
  · rintro ⟨other, hother, hsame⟩
    rw [pathJoin_eq_stem hdirectory (isAbsolute_of_not_mem hother), hrest,
      hbefore, ← List.append_assoc] at hsame
    rw [← (append_cons_inj hname hother hsame).1, List.append_assoc,
      List.append_cancel_left_eq] at hstem
    exact hstem.symm

/-! ## The parent of a config file -/

theorem Once.append_config {name : Str} (hname : str "dg_makeup" <+: name)
    (honce : Once name) : Once (stem name ++ slash :: str "config.json") := by
  intro hwithin
  have hpositive : 1 ≤ (stem name).length :=
    List.length_pos_iff.mpr (ne_nil_of_dgMakeup (isPrefix_stem hname))
  rw [List.drop_append_of_le_length hpositive] at hwithin
  rcases isInfix_append_cons not_slash_mem_dgMakeup hwithin with hfront | hpart
  · exact honce (hfront.trans ((stem_isPrefix name).drop 1).isInfix)
  · exact absurd hpart (by decide)

theorem configParent_append {front name : Str}
    (hname : str "dg_makeup" <+: name) (honce : Once name) :
    configParent (front ++ (stem name ++ slash :: str "config.json")) =
      stem name := by
  have hstarts : str "dg_makeup" <+: stem name ++ slash :: str "config.json" :=
    (isPrefix_stem hname).trans (List.prefix_append _ _)
  rw [configParent, lastDgMakeup_of_once hstarts (honce.append_config hname),
    sliceTo_lastSlash (by decide)]

/-- The last `dg_makeup` and the last slash of a config file are around the name
of its directory. -/
theorem configParent_rootMapped {magic target asset name : Str}
    (hasset : asset ≠ []) (hroot : magic <+: asset)
    (hname : str "dg_makeup" <+: name) (honce : Once name) :
    configParent (rootMapped magic target
        (pathJoin (pathJoin asset name) (str "config.json"))) = stem name := by
  rcases exists_front asset (isAbsolute_of_dgMakeup hname) with
    ⟨front, hfront, hjoin⟩
  rcases hroot.trans hfront with ⟨rest, hrest⟩
  rw [pathJoin_eq_stem (pathJoin_ne_nil hasset name) (by decide), hjoin,
    stem_append (ne_nil_of_dgMakeup hname), ← hrest, rootMapped,
    List.append_assoc, List.append_assoc, List.drop_left, ← List.append_assoc]
  exact configParent_append hname honce

end Miscellaneous.Downsample
