import Miscellaneous.PosixPaths
import Mathlib.Tactic

/-!
# Unpacking assets

`extract_assets.py` takes the files in the directories of a source root and
computes from the text of each path where it is extracted to: every occurrence
of the source root is exchanged and every `.zip` is deleted.  What the paths
say about files and directories is read off their components.
-/

namespace Miscellaneous.ExtractAssets

open PosixPaths PythonStrings

/-- A name as `os.listdir` lists it. -/
structure Name where
  text : Str
  ne_nil : text ≠ []
  no_slash : slash ∉ text
  ne_dot : text ≠ dot
  ne_dotDot : text ≠ dotDot

inductive Node where
  | file
  | directory (entries : List (Name × Node))
  | other

def Node.listdir : Node → List (Name × Node)
  | .directory entries => entries
  | _ => []

def Node.isfile : Node → Bool
  | .file => true
  | _ => false

def Node.isdir : Node → Bool
  | .directory _ => true
  | _ => false

/-- The paths, each with what is there. -/
def walkThrough (dir : Str) (node : Node) (getFileOrDir : ℕ) :
    List (Str × Node) :=
  (node.listdir.filter fun entry =>
    if getFileOrDir = 0 then entry.2.isfile else entry.2.isdir).map
      fun entry => (pathJoin dir entry.1.text, entry.2)

def zip : Str := str ".zip"

def unzipDir (zippath unzippath file : Str) : Str :=
  replace (replace file zippath unzippath) zip []

/-- The calls of `unzip_file`. -/
def extractions (zippath unzippath : Str) (root : Node) : List (Str × Str) :=
  (walkThrough zippath root 1).flatMap fun dir =>
    (walkThrough dir.1 dir.2 0).map fun file =>
      (file.1, unzipDir zippath unzippath file.1)

/-- The path goes on from the root, and never back to it. -/
def LiesBelow (root path : Str) : Prop :=
  ∃ tail, components path = components root ++ tail ∧
    isAbsolute path = isAbsolute root ∧ stays 0 tail = true ∧
      resolve [] tail ≠ []

/-- Every file is extracted into the target root followed by its own path from
the source root without the ending. -/
structure ExtractsBelow (cwd : List Str) (zippath unzippath : Str)
    (root : Node) : Prop where
  text : ∀ call ∈ extractions zippath unzippath root,
    call.2 = unzippath ++ removesuffix (call.1.drop zippath.length) zip
  path : ∀ call ∈ extractions zippath unzippath root,
    components call.2 = components unzippath ++
      components (removesuffix (call.1.drop zippath.length) zip)
  below : ∀ call ∈ extractions zippath unzippath root,
    LiesBelow unzippath call.2
  distinct : ∀ call ∈ extractions zippath unzippath root,
    ∀ other ∈ extractions zippath unzippath root,
      zip <:+ call.1 → zip <:+ other.1 → call.1 ≠ other.1 →
        location cwd call.2 ≠ location cwd other.2

/-- A file `f` in a directory `d` of the source root. -/
def HasFile (root : Node) (d f : Name) : Prop :=
  ∃ dir child, (d, dir) ∈ root.listdir ∧ dir.isdir = true ∧
    (f, child) ∈ dir.listdir ∧ child.isfile = true

def filePath (zippath : Str) (d f : Name) : Str :=
  pathJoin (pathJoin zippath d.text) f.text

def rest (zippath : Str) (d f : Name) : Str :=
  (filePath zippath d f).drop zippath.length

/-- The source root occurs in no path a second time, unless it is the target
root. -/
def OccursOnce (zippath unzippath : Str) (root : Node) : Prop :=
  ∀ d f, HasFile root d f →
    unzippath = zippath ∨ ¬zippath <:+: rest zippath d f

/-- There is no `.zip` but the one at the end, a slash at the end of the source
root is one of the target root too and otherwise there is a target root, and
what is left of the name is no way back. -/
structure FileClean (zippath unzippath : Str) (d f : Name) : Prop where
  once : ¬zip <:+: unzippath ++ removesuffix (rest zippath d f) zip
  slash : endsWithSlash zippath = true →
    unzippath = [] ∨ endsWithSlash unzippath = true
  target : endsWithSlash zippath = false → unzippath ≠ []
  name : f.text ≠ dotDot ++ zip

/-- Besides, no directory has both files whose names leave nothing, `.zip` and
`..zip`. -/
structure Clean (zippath unzippath : Str) (root : Node) : Prop where
  files : ∀ d f, HasFile root d f → FileClean zippath unzippath d f
  apart : ∀ d f f', HasFile root d f → HasFile root d f' →
    f.text = zip → f'.text ≠ dot ++ zip

/-! ## The paths -/

theorem mem_walkThrough {dir : Str} {node : Node} {getFileOrDir : ℕ}
    {found : Str × Node} :
    found ∈ walkThrough dir node getFileOrDir ↔
      ∃ name, (name, found.2) ∈ node.listdir ∧
        (if getFileOrDir = 0 then found.2.isfile else found.2.isdir) = true ∧
          found.1 = pathJoin dir name.text := by
  unfold walkThrough
  rw [List.mem_map]
  constructor
  · rintro ⟨⟨name, child⟩, hentry, rfl⟩
    exact ⟨name, (List.mem_filter.mp hentry).1, (List.mem_filter.mp hentry).2, rfl⟩
  · rintro ⟨name, hentry, hkind, hpath⟩
    exact ⟨(name, found.2), List.mem_filter.mpr ⟨hentry, hkind⟩,
      Prod.ext hpath.symm rfl⟩

theorem mem_extractions {zippath unzippath : Str} {root : Node}
    {call : Str × Str} :
    call ∈ extractions zippath unzippath root ↔
      ∃ d f, HasFile root d f ∧ call = (filePath zippath d f,
        unzipDir zippath unzippath (filePath zippath d f)) := by
  unfold extractions
  rw [List.mem_flatMap]
  constructor
  · rintro ⟨dir, hdir, hcall⟩
    rcases mem_walkThrough.mp hdir with ⟨d, hd, hisdir, hdirpath⟩
    rcases List.mem_map.mp hcall with ⟨file, hfile, rfl⟩
    rcases mem_walkThrough.mp hfile with ⟨f, hf, hisfile, hfilepath⟩
    refine ⟨d, f, ⟨dir.2, file.2, hd, hisdir, hf, hisfile⟩, ?_⟩
    rw [hfilepath, hdirpath]
    rfl
  · rintro ⟨d, f, ⟨dir, child, hd, hisdir, hf, hisfile⟩, rfl⟩
    refine ⟨(pathJoin zippath d.text, dir),
      mem_walkThrough.mpr ⟨d, hd, hisdir, rfl⟩, ?_⟩
    exact List.mem_map.mpr ⟨(filePath zippath d f, child),
      mem_walkThrough.mpr ⟨f, hf, hisfile, rfl⟩, rfl⟩

theorem HasFile.mem_extractions {root : Node} {d f : Name}
    (hfile : HasFile root d f) (zippath unzippath : Str) :
    (filePath zippath d f, unzipDir zippath unzippath (filePath zippath d f)) ∈
      extractions zippath unzippath root :=
  ExtractAssets.mem_extractions.mpr ⟨d, f, hfile, rfl⟩

theorem Name.not_isAbsolute (name : Name) : isAbsolute name.text = false := by
  have hne := name.ne_nil
  have hslash := name.no_slash
  cases htext : name.text with
  | nil => exact absurd htext hne
  | cons c more =>
      rw [htext] at hslash
      have hc : c ≠ slash := fun h => hslash (h ▸ List.mem_cons_self)
      simpa [isAbsolute] using hc

theorem Name.not_endsWithSlash (name : Name) :
    endsWithSlash name.text = false := by
  rw [endsWithSlash, beq_eq_false_iff_ne]
  intro hlast
  exact name.no_slash (List.mem_of_getLast? hlast)

theorem Name.components_text (name : Name) :
    components name.text = [name.text] := by
  rw [components_of_not_mem name.no_slash name.ne_nil, if_neg name.ne_dot]

def lead (zippath : Str) : Str :=
  if endsWithSlash zippath = true then [] else [slash]

theorem filePath_eq {zippath : Str} (hzip : zippath ≠ []) (d f : Name) :
    filePath zippath d f =
      zippath ++ (lead zippath ++ d.text ++ slash :: f.text) := by
  have hends : endsWithSlash (pathJoin zippath d.text) = false := by
    rw [endsWithSlash_pathJoin zippath d.ne_nil, d.not_endsWithSlash]
  rw [filePath, pathJoin_of_not_endsWithSlash (pathJoin_ne_nil hzip d.text) hends
    f.not_isAbsolute, lead]
  split_ifs with hslash
  · rw [pathJoin_of_endsWithSlash (Or.inr hslash) d.not_isAbsolute,
      List.nil_append, List.append_assoc]
  · rw [pathJoin_of_not_endsWithSlash hzip (by simpa using hslash)
      d.not_isAbsolute]
    simp

theorem rest_eq {zippath : Str} (hzip : zippath ≠ []) (d f : Name) :
    rest zippath d f = lead zippath ++ d.text ++ slash :: f.text := by
  rw [rest, filePath_eq hzip, List.drop_left]

/-! ## One file -/

def Name.stem (name : Name) : Str := removesuffix name.text zip

theorem zip_ne_nil : zip ≠ [] := by decide

theorem slash_not_mem_zip : slash ∉ zip := by decide

theorem unbordered_zip : Unbordered zip := by decide

theorem Name.text_eq_of_isSuffix {name : Name} (hends : zip <:+ name.text) :
    name.text = name.stem ++ zip := by
  rcases hends with ⟨text, htext⟩
  rw [stem, ← htext, removesuffix_append]

theorem Name.slash_not_mem_stem (name : Name) : slash ∉ name.stem := by
  unfold stem removesuffix
  split_ifs
  · exact fun hmem => name.no_slash (List.mem_of_mem_take hmem)
  · exact name.no_slash

theorem Name.stem_eq_dotDot_iff (name : Name) :
    name.stem = dotDot ↔ name.text = dotDot ++ zip := by
  constructor
  · intro hstem
    by_cases hends : zip <:+ name.text
    · rw [name.text_eq_of_isSuffix hends, hstem]
    · rw [stem, removesuffix, if_neg hends] at hstem
      exact absurd hstem name.ne_dotDot
  · intro htext
    rw [stem, htext, removesuffix_append]

/-- The components of a stem: none if nothing but a dot is left. -/
theorem Name.components_stem (name : Name) :
    components name.stem =
      if name.stem = [] ∨ name.stem = dot then [] else [name.stem] := by
  by_cases hnil : name.stem = []
  · rw [if_pos (Or.inl hnil), hnil]
    rfl
  · rw [components_of_not_mem name.slash_not_mem_stem hnil]
    exact if_congr (or_iff_right hnil).symm rfl rfl

section File

variable {zippath unzippath : Str}

theorem unzipDir_eq_iff (hzip : zippath ≠ []) {more : Str}
    (honce : unzippath = zippath ∨ ¬zippath <:+: more) :
    unzipDir zippath unzippath (zippath ++ more) =
        unzippath ++ removesuffix more zip ↔
      ¬zip <:+: unzippath ++ removesuffix more zip := by
  have hmoved : replace (zippath ++ more) zippath unzippath =
      unzippath ++ more := by
    rcases honce with hsame | honce
    · rw [hsame, replace, if_neg hzip, replaceFrom_self hzip]
    · exact replace_append hzip honce
  rw [unzipDir, hmoved]
  exact replace_nil_eq_removesuffix_iff zip_ne_nil unbordered_zip unzippath more

variable {d f : Name}

theorem removesuffix_rest (hzip : zippath ≠ []) (d f : Name) :
    removesuffix (rest zippath d f) zip =
      lead zippath ++ d.text ++ slash :: f.stem := by
  rw [rest_eq hzip, removesuffix_append_cons slash_not_mem_zip]
  rfl

theorem components_lead_append (zippath : Str) (d f : Name) :
    components (lead zippath ++ d.text ++ slash :: f.stem) =
      d.text :: components f.stem := by
  have hlead : components (lead zippath ++ d.text) = [d.text] := by
    unfold lead
    split_ifs
    · exact d.components_text
    · have hslash := components_append_slash [] d.text
      rw [d.components_text] at hslash
      exact hslash
  rw [components_append_slash, hlead]
  rfl

/-- The components follow those of the target root exactly if a slash is
between them. -/
theorem components_target_iff (d f : Name) :
    components (unzippath ++ (lead zippath ++ d.text ++ slash :: f.stem)) =
        components unzippath ++ d.text :: components f.stem ↔
      (endsWithSlash zippath = true →
        unzippath = [] ∨ endsWithSlash unzippath = true) := by
  have hcut : components (unzippath ++
      (lead zippath ++ d.text ++ slash :: f.stem)) =
        components (unzippath ++ (lead zippath ++ d.text)) ++
          components f.stem := by
    rw [← List.append_assoc, components_append_slash]
  have hglue : components unzippath ++ d.text :: components f.stem =
      components unzippath ++ components d.text ++ components f.stem := by
    rw [d.components_text]
    simp
  rw [hcut, hglue, List.append_cancel_right_eq, lead]
  split_ifs with hends
  · rw [List.nil_append]
    constructor
    · intro hsame _
      by_contra hslash
      rw [not_or, Bool.not_eq_true] at hslash
      exact components_append_ne hslash.1 hslash.2 d.ne_nil d.not_isAbsolute hsame
    · intro hslash
      rcases hslash hends with hnil | hslash
      · rw [hnil]
        rfl
      · exact components_append_of_endsWithSlash hslash d.text
  · refine iff_of_true ?_ fun h => absurd h hends
    exact components_append_slash unzippath d.text

theorem isAbsolute_target_iff (d : Name) (more : Str) :
    isAbsolute (unzippath ++ (lead zippath ++ d.text ++ more)) =
        isAbsolute unzippath ↔
      (endsWithSlash zippath = false → unzippath ≠ []) := by
  by_cases hnil : unzippath = []
  · subst hnil
    unfold lead
    split_ifs with hends
    · refine iff_of_true ?_ fun h => absurd hends (by simp [h])
      rw [List.nil_append, List.nil_append, isAbsolute_append d.ne_nil]
      exact d.not_isAbsolute
    · refine iff_of_false (by simp [isAbsolute]) fun h => ?_
      exact h (by simpa using hends) rfl
  · exact iff_of_true (isAbsolute_append hnil _) fun _ => hnil

theorem stays_tail (d f : Name) :
    stays 0 (d.text :: components f.stem) = true := by
  rw [stays, if_neg d.ne_dotDot, f.components_stem]
  split_ifs
  · rfl
  · rw [stays]
    split_ifs <;> rfl

theorem resolve_tail (d f : Name) (hname : f.stem ≠ dotDot) :
    resolve [] (d.text :: components f.stem) =
      d.text :: components f.stem := by
  have hfirst : enter [] d.text = [d.text] := if_neg d.ne_dotDot
  rw [f.components_stem, resolve, List.foldl_cons, hfirst]
  split_ifs
  · rfl
  · rw [List.foldl_cons, List.foldl_nil, enter, if_neg hname]
    rfl

theorem resolve_tail_of_dotDot (d f : Name) (hname : f.stem = dotDot) :
    resolve [] (d.text :: components f.stem) = [] := by
  have hfirst : enter [] d.text = [d.text] := if_neg d.ne_dotDot
  rw [hname, resolve, List.foldl_cons, hfirst]
  rfl

/-- The target root and the path behind the source root, without the ending. -/
def moved (zippath unzippath : Str) (d f : Name) : Str :=
  unzippath ++ removesuffix (rest zippath d f) zip

theorem components_moved_iff (hzip : zippath ≠ []) :
    components (moved zippath unzippath d f) = components unzippath ++
        components (removesuffix (rest zippath d f) zip) ↔
      (endsWithSlash zippath = true →
        unzippath = [] ∨ endsWithSlash unzippath = true) := by
  rw [moved, removesuffix_rest hzip, components_lead_append]
  exact components_target_iff d f

theorem isAbsolute_moved_iff (hzip : zippath ≠ []) :
    isAbsolute (moved zippath unzippath d f) = isAbsolute unzippath ↔
      (endsWithSlash zippath = false → unzippath ≠ []) := by
  rw [moved, removesuffix_rest hzip]
  exact isAbsolute_target_iff d _

theorem components_moved (hzip : zippath ≠ [])
    (hpath : components (moved zippath unzippath d f) = components unzippath ++
      components (removesuffix (rest zippath d f) zip)) :
    components (moved zippath unzippath d f) =
      components unzippath ++ d.text :: components f.stem := by
  rw [hpath, removesuffix_rest hzip, components_lead_append]

theorem liesBelow_moved_iff (hzip : zippath ≠ [])
    (hpath : components (moved zippath unzippath d f) = components unzippath ++
      components (removesuffix (rest zippath d f) zip)) :
    LiesBelow unzippath (moved zippath unzippath d f) ↔
      (endsWithSlash zippath = false → unzippath ≠ []) ∧
        f.text ≠ dotDot ++ zip := by
  have hcomponents := components_moved hzip hpath
  rw [← isAbsolute_moved_iff hzip, ne_eq, ← f.stem_eq_dotDot_iff]
  constructor
  · rintro ⟨tail, htail, habsolute, _, hstrict⟩
    refine ⟨habsolute, fun hname => hstrict ?_⟩
    rw [hcomponents, List.append_cancel_left_eq] at htail
    rw [← htail]
    exact resolve_tail_of_dotDot d f hname
  · rintro ⟨habsolute, hname⟩
    refine ⟨_, hcomponents, habsolute, stays_tail d f, ?_⟩
    rw [resolve_tail d f hname]
    exact List.cons_ne_nil _ _

theorem location_moved (cwd : List Str) (hzip : zippath ≠ [])
    (hpath : components (moved zippath unzippath d f) = components unzippath ++
      components (removesuffix (rest zippath d f) zip))
    (hbelow : LiesBelow unzippath (moved zippath unzippath d f)) :
    location cwd (moved zippath unzippath d f) =
      location cwd unzippath ++ d.text :: components f.stem := by
  have hname := ((liesBelow_moved_iff hzip hpath).mp hbelow).2
  rw [ne_eq, ← f.stem_eq_dotDot_iff] at hname
  rcases hbelow with ⟨tail, htail, habsolute, hstays, _⟩
  have hcomponents := components_moved hzip hpath
  rw [hcomponents, List.append_cancel_left_eq] at htail
  rw [location_of_stays hcomponents habsolute (stays_tail d f),
    resolve_tail d f hname]

/-- Names that end with `.zip` leave the same components if they are equal, or
if one is only the ending and the other has a dot in front of it. -/
theorem components_stem_eq_iff {f f' : Name} (hends : zip <:+ f.text)
    (hends' : zip <:+ f'.text) :
    components f.stem = components f'.stem ↔
      f.text = f'.text ∨ (f.text = zip ∧ f'.text = dot ++ zip) ∨
        (f'.text = zip ∧ f.text = dot ++ zip) := by
  have htext := Name.text_eq_of_isSuffix hends
  have htext' := Name.text_eq_of_isSuffix hends'
  have hnil (stem : Str) : stem ++ zip = zip ↔ stem = [] :=
    List.append_left_eq_self
  rw [htext, htext', hnil, hnil, List.append_cancel_right_eq,
    List.append_cancel_right_eq, List.append_cancel_right_eq,
    f.components_stem, f'.components_stem]
  have hdot : dot ≠ [] := by decide
  split_ifs with hempty hempty' hempty'
  · refine iff_of_true rfl ?_
    rcases hempty with h | h <;> rcases hempty' with h' | h' <;> simp [h, h']
  · refine iff_of_false id ?_
    rintro (h | ⟨_, h⟩ | ⟨h, _⟩)
    · exact hempty' (h ▸ hempty)
    · exact hempty' (Or.inr h)
    · exact hempty' (Or.inl h)
  · refine iff_of_false id ?_
    rintro (h | ⟨h, _⟩ | ⟨_, h⟩)
    · exact hempty (h ▸ hempty')
    · exact hempty (Or.inl h)
    · exact hempty (Or.inr h)
  · rw [List.cons.injEq, and_iff_left rfl]
    constructor
    · exact Or.inl
    · rintro (h | ⟨h, _⟩ | ⟨h, _⟩)
      · exact h
      · exact absurd (Or.inl h) hempty
      · exact absurd (Or.inl h) hempty'

end File

/-! ## All files -/

section Tree

variable {cwd : List Str} {zippath unzippath : Str} {root : Node}

theorem isSuffix_filePath_iff (hzip : zippath ≠ []) (d f : Name) :
    zip <:+ filePath zippath d f ↔ zip <:+ f.text := by
  rw [filePath_eq hzip, ← List.append_assoc]
  exact isSuffix_append_cons_iff slash_not_mem_zip _ f.text

theorem filePath_congr {d f d' f' : Name} (hdir : d.text = d'.text)
    (hfile : f.text = f'.text) :
    filePath zippath d f = filePath zippath d' f' := by
  rw [filePath, filePath, hdir, hfile]

theorem ExtractsBelow.fileClean (hzip : zippath ≠ [])
    (honce : OccursOnce zippath unzippath root)
    (hextracts : ExtractsBelow cwd zippath unzippath root) {d f : Name}
    (hfile : HasFile root d f) : FileClean zippath unzippath d f := by
  have hcall := hfile.mem_extractions zippath unzippath
  have htext : unzipDir zippath unzippath (filePath zippath d f) =
      moved zippath unzippath d f := hextracts.text _ hcall
  have hpath := hextracts.path _ hcall
  have hbelow := hextracts.below _ hcall
  simp only [htext] at hpath hbelow
  have hclean := (liesBelow_moved_iff hzip hpath).mp hbelow
  refine ⟨?_, (components_moved_iff hzip).mp hpath, hclean.1, hclean.2⟩
  rw [filePath_eq hzip, ← rest_eq hzip] at htext
  exact (unzipDir_eq_iff hzip (honce d f hfile)).mp htext

theorem FileClean.spec (hzip : zippath ≠ []) {d f : Name}
    (hclean : FileClean zippath unzippath d f)
    (honce : unzippath = zippath ∨ ¬zippath <:+: rest zippath d f) :
    unzipDir zippath unzippath (filePath zippath d f) =
        moved zippath unzippath d f ∧
      components (moved zippath unzippath d f) = components unzippath ++
        components (removesuffix (rest zippath d f) zip) ∧
      LiesBelow unzippath (moved zippath unzippath d f) := by
  have hpath := (@components_moved_iff _ unzippath d f hzip).mpr hclean.slash
  refine ⟨?_, hpath, (liesBelow_moved_iff hzip hpath).mpr
    ⟨hclean.target, hclean.name⟩⟩
  have htext := (unzipDir_eq_iff hzip honce).mpr hclean.once
  rwa [rest_eq hzip, ← filePath_eq hzip, ← rest_eq hzip] at htext

theorem ExtractsBelow.clean (hzip : zippath ≠ [])
    (honce : OccursOnce zippath unzippath root)
    (hextracts : ExtractsBelow cwd zippath unzippath root) :
    Clean zippath unzippath root := by
  have hfiles := @ExtractsBelow.fileClean cwd zippath unzippath root hzip honce
    hextracts
  refine ⟨@hfiles, fun d f f' hfile hfile' hname hname' => ?_⟩
  obtain ⟨htext, hpath, hbelow⟩ := (hfiles hfile).spec hzip (honce d f hfile)
  obtain ⟨htext', hpath', hbelow'⟩ :=
    (hfiles hfile').spec hzip (honce d f' hfile')
  have hends : zip <:+ f.text := by rw [hname]
  have hends' : zip <:+ f'.text := by
    rw [hname']
    exact List.suffix_append dot zip
  have hdiffer : filePath zippath d f ≠ filePath zippath d f' := by
    rw [filePath_eq hzip, filePath_eq hzip, hname, hname']
    simp [dot, str]
  have hplaces := hextracts.distinct _ (hfile.mem_extractions zippath unzippath)
    _ (hfile'.mem_extractions zippath unzippath)
    ((isSuffix_filePath_iff hzip d f).mpr hends)
    ((isSuffix_filePath_iff hzip d f').mpr hends') hdiffer
  have hsame := (components_stem_eq_iff hends hends').mpr
    (Or.inr (Or.inl ⟨hname, hname'⟩))
  simp only [htext, htext', location_moved cwd hzip hpath hbelow,
    location_moved cwd hzip hpath' hbelow', hsame] at hplaces
  exact hplaces rfl

theorem Clean.extractsBelow (hzip : zippath ≠ [])
    (honce : OccursOnce zippath unzippath root)
    (hclean : Clean zippath unzippath root) :
    ExtractsBelow cwd zippath unzippath root := by
  have hspec : ∀ {d f : Name}, HasFile root d f → _ := fun hfile =>
    (hclean.files _ _ hfile).spec hzip (honce _ _ hfile)
  constructor
  · intro call hcall
    obtain ⟨d, f, hfile, rfl⟩ := mem_extractions.mp hcall
    exact (hspec hfile).1
  · intro call hcall
    obtain ⟨d, f, hfile, rfl⟩ := mem_extractions.mp hcall
    simp only [(hspec hfile).1]
    exact (hspec hfile).2.1
  · intro call hcall
    obtain ⟨d, f, hfile, rfl⟩ := mem_extractions.mp hcall
    simp only [(hspec hfile).1]
    exact (hspec hfile).2.2
  · intro call hcall other hother hends hends' hdiffer hsame
    obtain ⟨d, f, hfile, rfl⟩ := mem_extractions.mp hcall
    obtain ⟨d', f', hfile', rfl⟩ := mem_extractions.mp hother
    obtain ⟨htext, hpath, hbelow⟩ := hspec hfile
    obtain ⟨htext', hpath', hbelow'⟩ := hspec hfile'
    simp only [htext, htext', location_moved cwd hzip hpath hbelow,
      location_moved cwd hzip hpath' hbelow', List.append_cancel_left_eq,
      List.cons.injEq] at hsame
    have hdir : d = d' := by
      cases d
      cases d'
      simpa using hsame.1
    subst hdir
    have hname := (isSuffix_filePath_iff hzip d f).mp hends
    have hname' := (isSuffix_filePath_iff hzip d f').mp hends'
    rcases (components_stem_eq_iff hname hname').mp hsame.2 with
      htexts | ⟨hzip', hdot⟩ | ⟨hzip', hdot⟩
    · exact hdiffer (filePath_congr rfl htexts)
    · exact hclean.apart d f f' hfile hfile' hzip' hdot
    · exact hclean.apart d f' f hfile' hfile hzip' hdot

/-- Where the source root is found in every path only at the beginning, the
files are extracted below the target root and apart from each other exactly if
the tree is clean. -/
theorem extractsBelow_iff (hzip : zippath ≠ [])
    (honce : OccursOnce zippath unzippath root) :
    ExtractsBelow cwd zippath unzippath root ↔ Clean zippath unzippath root :=
  ⟨ExtractsBelow.clean hzip honce, Clean.extractsBelow hzip honce⟩

end Tree

def nameA : Name := ⟨str "a", by decide, by decide, by decide, by decide⟩

def nameAZip : Name := ⟨str "a.zip", by decide, by decide, by decide, by decide⟩

def nameBZip : Name := ⟨str "b.zip", by decide, by decide, by decide, by decide⟩

def oneFile : Node := .directory [(nameA, .directory [(nameBZip, .file)])]

theorem hasFile_oneFile {d f : Name} (hfile : HasFile oneFile d f) :
    d = nameA ∧ f = nameBZip := by
  obtain ⟨dir, child, hd, _, hf, _⟩ := hfile
  have hdir : d = nameA ∧ dir = .directory [(nameBZip, .file)] := by
    simpa [oneFile, Node.listdir] using hd
  rw [hdir.2] at hf
  have hname : f = nameBZip ∧ child = .file := by
    simpa [Node.listdir] using hf
  exact ⟨hdir.1, hname.1⟩

theorem extractsBelow_oneFile :
    ExtractsBelow [] (str "assets") (str "out") oneFile := by
  apply (extractsBelow_iff (by decide) ?_).mpr
  · constructor
    · intro d f hfile
      obtain ⟨rfl, rfl⟩ := hasFile_oneFile hfile
      exact ⟨by decide, by decide, by decide, by decide⟩
    · intro d f f' hfile hfile' hname
      obtain ⟨_, rfl⟩ := hasFile_oneFile hfile
      exact absurd hname (by decide)
  · intro d f hfile
    obtain ⟨rfl, rfl⟩ := hasFile_oneFile hfile
    exact Or.inr (by decide)

/-- Two files, `a/b.zip` and `a.zip/b.zip`. -/
def twoFiles : Node :=
  .directory [(nameA, .directory [(nameBZip, .file)]),
    (nameAZip, .directory [(nameBZip, .file)])]

theorem not_extractsBelow_twoFiles :
    ¬ExtractsBelow [] (str "assets") (str "out") twoFiles := by
  intro hextracts
  have hfirst : (str "assets/a/b.zip", str "out/a/b") ∈
      extractions (str "assets") (str "out") twoFiles := by decide
  have hsecond : (str "assets/a.zip/b.zip", str "out/a/b") ∈
      extractions (str "assets") (str "out") twoFiles := by decide
  exact hextracts.distinct _ hfirst _ hsecond (by decide) (by decide) (by decide)
    rfl

end Miscellaneous.ExtractAssets
