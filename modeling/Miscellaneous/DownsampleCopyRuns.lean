import Miscellaneous.DownsampleCopies
import Mathlib.Tactic

/-!
# The copies of a whole run

The lines of the list file are dealt with one after the other.  What a line
changes is in the copy of its asset, apart from directories that are missing
on the way to it, so the copy of one asset is left alone by the lines after it
whose copies are apart from it.
-/

namespace Miscellaneous.DownsampleRun

open DirectoryTrees Disks Downsample DownsampleTex FailingActions PosixPaths
  PythonJson PythonStrings

def recordOf (magic : Str) (source : Source) : List Str :=
  source.asset magic :: source.elements

/-- In one of the copies. -/
def InCopies (cwd : List Str) (magic target : Str) (sources : List Source)
    (place : List Str) : Prop :=
  ∃ source ∈ sources, copyPlace cwd magic target source <+: place

/-- On the way to one of the copies. -/
def OnWay (cwd : List Str) (magic target : Str) (sources : List Source)
    (place : List Str) : Prop :=
  ∃ source ∈ sources, place ∈
    places (start cwd (dstDir magic target (source.asset magic)))
      (components (dstDir magic target (source.asset magic)))

/-- Neither copy is in the other one. -/
def Apart (cwd : List Str) (magic target : Str) (source other : Source) : Prop :=
  ¬copyPlace cwd magic target source <+: copyPlace cwd magic target other ∧
    ¬copyPlace cwd magic target other <+: copyPlace cwd magic target source

/-- A config file to which marks are added. -/
def Rewritten (cwd : List Str) (arguments : Arguments) (magic : Str)
    (source : Source) (place : List Str) : Prop :=
  arguments.addNeedscale = true ∧
    ∃ file ∈ getDstConfigJsonFiles (source.asset magic) source.elements magic
      arguments.target, location cwd file = place

section Runs

variable {C I F : Type} [PyRuntime F] {tools : Tools C I F} {cwd : List Str}
  {arguments : Arguments} {magic : Str} {source : Source}
  {sources : List Source} {initial drive final : Drive C}

theorem confined_downsampleAsset
    (hdirect : Direct cwd magic arguments.target source)
    (hsource : source ∈ sources) :
    Keeps (Confined (InCopies cwd magic arguments.target sources)
        (OnWay cwd magic arguments.target sources))
      (downsampleAsset tools cwd arguments magic (source.asset magic)
        source.elements) := by
  have hinside : ∀ {place},
      copyPlace cwd magic arguments.target source <+: place →
        InCopies cwd magic arguments.target sources place :=
    fun hplace => ⟨source, hsource, hplace⟩
  apply Keeps.bind Confined.trans
  · split_ifs
    · apply confined_copyAsset
      · intro place hplace
        exact hinside hplace
      · intro place hplace
        exact ⟨source, hsource, hplace⟩
    · exact Keeps.pure Confined.refl _
  · intro _
    apply Keeps.bind Confined.trans
    · apply Keeps.forM Confined.refl Confined.trans
      intro element helement
      apply confined_downscale
      apply hinside
      rw [hdirect.location_dstPath helement]
      exact List.prefix_append _ _
    · intro _
      split_ifs
      · apply confined_addNeedScaleToJsonFiles
        intro file hfile
        rcases mem_getDstConfigJsonFiles.mp hfile with ⟨element, helement, hfile⟩
        rw [hfile]
        exact hinside (hdirect.copyPlace_isPrefix_jsonPath helement)
      · exact Keeps.pure Confined.refl _

theorem confined_lines (hmagic : arguments.magic = some magic)
    (hdirect : ∀ source ∈ sources,
      Direct cwd magic arguments.target source) :
    Keeps (Confined (InCopies cwd magic arguments.target sources)
        (OnWay cwd magic arguments.target sources))
      ((sources.map (recordOf magic)).forM
        (downsampleLine tools cwd arguments)) := by
  apply Keeps.forM Confined.refl Confined.trans
  intro record hrecord
  rcases List.mem_map.mp hrecord with ⟨source, hsource, hsame⟩
  rw [← hsame, recordOf, downsampleLine, hmagic]
  exact confined_downsampleAsset (hdirect source hsource) hsource

/-- A place in the source root is not in a copy and not on the way to one. -/
theorem not_inCopies_of_magic
    (hdirect : ∀ source ∈ sources,
      Direct cwd magic arguments.target source)
    {place : List Str} (hplace : location cwd magic <+: place) :
    ¬InCopies cwd magic arguments.target sources place ∧
      ¬OnWay cwd magic arguments.target sources place := by
  constructor
  · rintro ⟨source, hsource, hcopy⟩
    exact (hdirect source hsource).not_in_magic hcopy hplace
  · rintro ⟨source, hsource, hway⟩
    exact (hdirect source hsource).not_in_magic (List.prefix_refl _)
      (hplace.trans ((hdirect source hsource).way place hway))

theorem kept_of_confined
    (hdirect : ∀ source ∈ sources,
      Direct cwd magic arguments.target source)
    (hconfined : Confined (InCopies cwd magic arguments.target sources)
      (OnWay cwd magic arguments.target sources) drive final)
    {place : List Str} (hplace : location cwd magic <+: place) :
    final place = drive place :=
  hconfined.eq_of_not (not_inCopies_of_magic hdirect hplace).1
    (not_inCopies_of_magic hdirect hplace).2

/-- Whatever happens, a run changes nothing in the source root, and nothing
outside the copies but for missing directories on the way to them. -/
theorem downsample_confined (hmagic : arguments.magic = some magic)
    (hdirect : ∀ source ∈ sources,
      Direct cwd magic arguments.target source)
    (hlist : outcome (readList tools cwd arguments.listFile) initial =
      (.ok (sources.map (recordOf magic)), initial))
    {result : Except Error PUnit}
    (hrun : outcome (downsample tools cwd arguments) initial =
      (result, final)) :
    (∀ place, location cwd magic <+: place → final place = initial place) ∧
      ∀ place, ¬InCopies cwd magic arguments.target sources place →
        final place = initial place ∨
          (initial place = none ∧ final place = some .directory ∧
            OnWay cwd magic arguments.target sources place) := by
  have hconfined := @confined_lines C I F _ tools cwd arguments magic sources
    hmagic hdirect initial
  rw [downsample, outcome_bind_of_ok hlist] at hrun
  rw [hrun] at hconfined
  constructor
  · intro place hplace
    exact kept_of_confined hdirect hconfined hplace
  · intro place hplace
    rcases hconfined place with hsame | hinside | hmade
    · exact Or.inl hsame
    · exact absurd hinside hplace
    · exact Or.inr hmade

/-! ## The copy of one asset -/

omit [PyRuntime F] in
theorem mirrors_copyAsset (hdirect : Direct cwd magic arguments.target source)
    (hkept : ∀ place, location cwd magic <+: place →
      drive place = initial place) {result : PUnit}
    (hrun : outcome (copyAsset cwd (source.asset magic)
      (dstDir magic arguments.target (source.asset magic))) drive =
        (.ok result, final)) :
    Mirrors cwd arguments magic source initial final ∧
      Copied tools cwd arguments magic source [] (fun _ => False) initial
        final := by
  rcases outcome_bind_eq_ok_iff.mp hrun with ⟨_, middle, hremove, hcopy⟩
  have hconfined : ∀ {before after : Drive C},
      Confined (copyPlace cwd magic arguments.target source <+: ·)
        (· <+: copyPlace cwd magic arguments.target source) before after →
      ∀ place, location cwd magic <+: place → after place = before place := by
    intro before after hchange place hplace
    apply hchange.eq_of_not
    · intro hinside
      exact hdirect.not_in_magic hinside hplace
    · intro hway
      exact hdirect.not_in_magic (List.prefix_refl _) (hplace.trans hway)
  have hfirst := @confined_removeOld C cwd
    (copyPlace cwd magic arguments.target source <+: ·)
    (· <+: copyPlace cwd magic arguments.target source) _
    (fun place hplace => hplace) drive
  rw [hremove] at hfirst
  have hsecond := @confined_copytree C
    (copyPlace cwd magic arguments.target source <+: ·)
    (· <+: copyPlace cwd magic arguments.target source) cwd
    (source.asset magic) _ (fun place hplace => hplace) hdirect.way middle
  rw [hcopy] at hsecond
  have hmiddle : ∀ place, location cwd magic <+: place →
      middle place = initial place := fun place hplace =>
    (hconfined hfirst place hplace).trans (hkept place hplace)
  rcases copytree_eq_ok hcopy hdirect.way hdirect.elsewhere
    hdirect.asset_not_isPrefix with ⟨hfind, _, hreached, hsame⟩
  have hcopied : ∀ rest,
      final (copyPlace cwd magic arguments.target source ++ rest) =
        initial (assetPlace cwd magic source ++ rest) := by
    intro rest
    rw [← hmiddle _ (hdirect.magic_isPrefix_assetPlace.trans
      (List.prefix_append _ rest))]
    exact hsame rest
  constructor
  · refine ⟨?_, ?_, hreached, ?_⟩
    · intro place hplace
      exact (hconfined hsecond place hplace).trans (hmiddle place hplace)
    · refine walk_of_directories ?_ (find_eq_some_iff.mp hfind).2.1
      intro passed hpassed hdirectory
      exact hsecond.isDirectory (hdirect.apart passed hpassed) hdirectory
    · intro rest
      rw [hcopied]
  · refine ⟨fun rest _ _ => hcopied rest, ?_, ?_⟩
    · intro rest _ element helement
      cases helement
    · intro element helement
      cases helement

theorem copied_downsampleAsset (hcopy : arguments.copy = true)
    (hdirect : Direct cwd magic arguments.target source)
    (hnonempty : ∀ element ∈ source.elements, element ≠ [])
    (hwritable : ∀ element ∈ source.elements, tools.imwritable
      (dstPath magic arguments.target (source.asset magic) element) = true)
    (hkept : ∀ place, location cwd magic <+: place →
      drive place = initial place) {result : PUnit}
    (hrun : outcome (downsampleAsset tools cwd arguments magic
      (source.asset magic) source.elements) drive = (.ok result, final)) :
    Copied tools cwd arguments magic source source.elements
      (Rewritten cwd arguments magic source) initial final := by
  rw [downsampleAsset, if_pos hcopy] at hrun
  rcases outcome_bind_eq_ok_iff.mp hrun with ⟨_, copied, hfirst, hrest⟩
  rcases outcome_bind_eq_ok_iff.mp hrest with ⟨_, scaled, hloop, hmarks⟩
  have hstart := @mirrors_copyAsset C I F tools cwd arguments magic source
    initial drive copied hdirect hkept _ hfirst
  have hall := (hstart.1.copied_forM hdirect hstart.2
    (fun element helement =>
      ⟨helement, hnonempty element helement, hwritable element helement⟩)
    hloop).2
  rw [List.nil_append] at hall
  apply hall.mono
  intro rest hleft
  refine ⟨fun hfalse => hfalse, ?_⟩
  split_ifs at hmarks with hadd
  · have hconfined := @confined_addNeedScaleToJsonFiles C I F tools cwd
      (Rewritten cwd arguments magic source) (fun _ => False) _
      (source.asset magic :: source.elements) _
      (fun file hfile => ⟨hadd, file, hfile, rfl⟩) scaled
    rw [hmarks] at hconfined
    exact hconfined.eq_of_not hleft fun hfalse => hfalse
  · cases hmarks
    rfl

theorem ne_nil_of_mem_readRecords {file : Str} {record : List Str}
    (hrecord : record ∈ readRecords file) : ∀ text ∈ record, text ≠ [] := by
  rcases List.mem_map.mp hrecord with ⟨line, _, hline⟩
  intro text htext
  rw [← hline, split, words, List.mem_filter] at htext
  simpa using htext.2

/-- When a run with `--copy` has ended, the copy of each asset that is apart
from the later ones, and whose images `imwrite` may open, has the listed files
scaled from the source, and is the same as the asset otherwise; only the config
files with marks are left open. -/
theorem downsample_copies (hmagic : arguments.magic = some magic)
    (hcopy : arguments.copy = true)
    (hdirect : ∀ source ∈ sources,
      Direct cwd magic arguments.target source)
    (hlist : outcome (readList tools cwd arguments.listFile) initial =
      (.ok (sources.map (recordOf magic)), initial))
    (hrun : outcome (downsample tools cwd arguments) initial =
      (.ok ⟨⟩, final))
    {before after : List Source} (hsplit : sources = before ++ source :: after)
    (hwritable : ∀ element ∈ source.elements, tools.imwritable
      (dstPath magic arguments.target (source.asset magic) element) = true)
    (hapart : ∀ other ∈ after, Apart cwd magic arguments.target source other) :
    Copied tools cwd arguments magic source source.elements
      (Rewritten cwd arguments magic source) initial final := by
  have hmem : source ∈ sources := by rw [hsplit]; simp
  have hnonempty : ∀ element ∈ source.elements, element ≠ [] := by
    rw [readList, outcome_bind_eq_ok_iff] at hlist
    rcases hlist with ⟨text, middle, _, hrecords⟩
    rw [outcome_pure, Prod.mk.injEq, Except.ok.injEq] at hrecords
    have hrecord : recordOf magic source ∈ readRecords text := by
      rw [hrecords.1]
      exact List.mem_map_of_mem hmem
    intro element helement
    exact ne_nil_of_mem_readRecords hrecord element
      (List.mem_cons_of_mem _ helement)
  rw [downsample, outcome_bind_of_ok hlist, hsplit, List.map_append,
    List.map_cons, forM_append_eq_ok_iff] at hrun
  rcases hrun with ⟨drive, hbefore, hrest⟩
  rw [forM_cons, outcome_bind_eq_ok_iff] at hrest
  rcases hrest with ⟨_, next, hasset, hafter⟩
  have hdirectBefore : ∀ other ∈ before,
      Direct cwd magic arguments.target other := by
    intro other hother
    exact hdirect other (by rw [hsplit]; simp [hother])
  have hdirectAfter : ∀ other ∈ after,
      Direct cwd magic arguments.target other := by
    intro other hother
    exact hdirect other (by rw [hsplit]; simp [hother])
  have hstart := @confined_lines C I F _ tools cwd arguments magic before
    hmagic hdirectBefore initial
  rw [hbefore] at hstart
  rw [recordOf, downsampleLine, hmagic] at hasset
  have hcopied := copied_downsampleAsset hcopy (hdirect source hmem) hnonempty
    hwritable (fun place hplace => kept_of_confined hdirectBefore hstart hplace) hasset
  have hend := @confined_lines C I F _ tools cwd arguments magic after
    hmagic hdirectAfter next
  rw [hafter] at hend
  apply hcopied.mono
  intro rest hleft
  refine ⟨hleft, ?_⟩
  apply hend.eq_of_not
  · rintro ⟨other, hother, hinside⟩
    rcases List.prefix_or_prefix_of_prefix hinside (List.prefix_append _ rest)
      with hbelow | hbelow
    · exact (hapart other hother).2 hbelow
    · exact (hapart other hother).1 hbelow
  · rintro ⟨other, hother, hway⟩
    exact (hapart other hother).1 ((List.prefix_append _ rest).trans
      ((hdirectAfter other hother).way _ hway))

end Runs

/-! ## A small library -/

/-- The second half of an image is cut off. -/
def halving : Tools Str Str Empty where
  numbers := decimalNumbers
  text content := .ok content
  encode text := (text, .ok ⟨⟩)
  loads _ := .ok .none
  dump _ := ([], .ok ⟨⟩)
  imread content := some content
  resize img _ :=
    match img with
    | some img => .ok (img.take (img.length / 2))
    | none => .error .valueError
  imencode _ img := .ok img
  imwritable _ := true
  resize_none _ := ⟨_, rfl⟩

theorem hat_relative : isAbsolute (str "hats/top") = false := by decide +kernel

theorem hat_stays : stays 0 (components (str "hats/top")) = true := by
  decide +kernel

theorem hat_strict : resolve [] (components (str "hats/top")) ≠ [] := by
  decide +kernel

def hat : Source := faceSource (str "hats/top") hat_relative hat_stays hat_strict

def hatEntries : List (List Str × Entry Str) :=
  [([], .directory),
    ([str "list.txt"],
      .file (str "magic/hats/top dg_makeup/face.png\n")),
    ([str "magic"], .directory),
    ([str "magic", str "hats"], .directory),
    ([str "magic", str "hats", str "top"], .directory),
    ([str "magic", str "hats", str "top", str "params.txt"],
      .file (str "two")),
    ([str "magic", str "hats", str "top", str "dg_makeup"], .directory),
    ([str "magic", str "hats", str "top", str "dg_makeup", str "face.png"],
      .file (str "pixels"))]

def hatDrive : Drive Str := fun place => hatEntries.lookup place

def hatArguments : Arguments :=
  ⟨str "list.txt", some (str "magic"), str "small", 1 / 2, true, false⟩

theorem direct_hat : ∀ source ∈ [hat],
    Direct [] (str "magic") hatArguments.target source := by
  intro source hsource
  rw [List.mem_singleton] at hsource
  subst hsource
  refine ⟨by decide, by decide, ⟨?_, ?_, ?_, ?_, ?_⟩, ?_, ?_, ?_, ?_⟩
  all_goals decide +kernel

theorem readList_hat :
    outcome (readList halving [] hatArguments.listFile) hatDrive =
      (.ok ([hat].map (recordOf (str "magic"))), hatDrive) := by
  rfl

def hatRun : Except Error PUnit × Drive Str :=
  outcome (downsample halving [] hatArguments) hatDrive

theorem hatRun_eq : outcome (downsample halving [] hatArguments) hatDrive =
    (hatRun.1, hatRun.2) := by
  rw [← hatRun]

theorem hatRun_ok : hatRun.1 = .ok ⟨⟩ := by decide +kernel

theorem downsample_confined_hat :
    (∀ place, location [] (str "magic") <+: place →
        hatRun.2 place = hatDrive place) ∧
      ∀ place, ¬InCopies [] (str "magic") hatArguments.target [hat] place →
        hatRun.2 place = hatDrive place ∨
          (hatDrive place = none ∧ hatRun.2 place = some .directory ∧
            OnWay [] (str "magic") hatArguments.target [hat] place) :=
  downsample_confined rfl direct_hat readList_hat hatRun_eq

theorem downsample_copies_hat :
    Copied halving [] hatArguments (str "magic") hat hat.elements
      (Rewritten [] hatArguments (str "magic") hat) hatDrive hatRun.2 := by
  have hrun := hatRun_eq
  rw [hatRun_ok] at hrun
  exact downsample_copies rfl rfl direct_hat readList_hat hrun
    (List.nil_append [hat]).symm (fun _ _ => rfl) (by simp)

end Miscellaneous.DownsampleRun
