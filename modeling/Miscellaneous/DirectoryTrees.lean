import Miscellaneous.Disks
import Mathlib.Tactic

/-!
# Directory trees

Whole directories that are removed, copied and changed below.  A drive is a
function of the place.  Paths are followed through directories that are there,
and an operation that is not possible raises an exception before it changes
anything; symbolic links and what the operating system refuses are left out.

A copy has the shape of its source: a path that stays below the source leads
to the same place of the copy.
-/

namespace DirectoryTrees

open Disks FailingActions PosixPaths PythonJson PythonStrings

inductive Entry (C : Type) where
  | directory
  | file (content : C)

abbrev Drive (C : Type) := List Str → Option (Entry C)

variable {C : Type}

def isDirectory : Option (Entry C) → Bool
  | some .directory => true
  | some (.file _) => false
  | none => false

def Drive.walk (drive : Drive C) : List Str → List Str → Option (List Str)
  | place, [] => some place
  | place, component :: rest =>
      if isDirectory (drive place) then
        drive.walk (enter place component) rest
      else none

/-- Only a directory can be named with a slash or a dot at the end. -/
def namesDirectory (path : Str) : Bool :=
  endsWithSlash path || decide (str "/." <:+ path)

/-- The place that a path leads to. -/
def Drive.find (drive : Drive C) (cwd : List Str) (path : Str) :
    Option (List Str) :=
  if path = [] then none
  else
    (drive.walk (start cwd path) (components path)).filter fun place =>
      !namesDirectory path || isDirectory (drive place)

/-- `os.path.exists`. -/
def Drive.pathExists (drive : Drive C) (cwd : List Str) (path : Str) : Bool :=
  ((drive.find cwd path).bind drive).isSome

def Drive.without (drive : Drive C) (place : List Str) : Drive C :=
  fun other => if place <+: other then none else drive other

/-- With a copy of what is at `src` and below. -/
def Drive.grafted (drive : Drive C) (src dst : List Str) : Drive C :=
  fun place =>
    if dst <+: place then drive (src ++ place.drop dst.length) else drive place

abbrev Work (C : Type) := Action (Drive C) Error

def readFile (cwd : List Str) (path : Str) : Work C C := do
  let drive ← get
  match (drive.find cwd path).bind drive with
  | some (.file content) => return content
  | some .directory => throw .osError
  | none => throw .fileNotFoundError

def writeFile (cwd : List Str) (path : Str) (content : C) : Work C PUnit := do
  let drive ← get
  match drive.find cwd path with
  | none => throw .fileNotFoundError
  | some place =>
      if isDirectory (drive place) then throw .osError
      else
        modify fun drive => Function.update drive place (some (.file content))

/-- The directories on the way; the last one must not be there. -/
def makedirsFrom : List Str → List Str → Work C PUnit
  | _, [] => throw .osError
  | directory, [component] => do
      let drive ← get
      if isDirectory (drive directory) = false ∨
          (drive (enter directory component)).isSome then
        throw .osError
      else
        modify fun drive =>
          Function.update drive (enter directory component) (some .directory)
  | directory, component :: next :: rest => do
      let drive ← get
      if isDirectory (drive directory) = false then throw .osError
      else if (drive (enter directory component)).isSome then
        makedirsFrom (enter directory component) (next :: rest)
      else
        modify fun drive =>
          Function.update drive (enter directory component) (some .directory)
        makedirsFrom (enter directory component) (next :: rest)

/-- `shutil.rmtree`. -/
def rmtree (cwd : List Str) (path : Str) : Work C PUnit := do
  let drive ← get
  match drive.find cwd path with
  | none => throw .fileNotFoundError
  | some place =>
      if isDirectory (drive place) = false then throw .osError
      else modify fun drive => drive.without place

/-- `shutil.copytree`, to a place that is not below the source. -/
def copytree (cwd : List Str) (src dst : Str) : Work C PUnit := do
  let drive ← get
  match drive.find cwd src with
  | none => throw .fileNotFoundError
  | some place =>
      if isDirectory (drive place) = false then throw .osError
      else
        makedirsFrom (start cwd dst) (components dst)
        modify fun drive => drive.grafted place (location cwd dst)

/-! ## Following paths -/

section Walks

variable {drive other : Drive C} {cwd directory place : List Str}
  {components : List Str}

theorem walk_eq_resolve
    (hwalk : drive.walk directory components = some place) :
    place = resolve directory components := by
  induction components generalizing directory with
  | nil =>
      rw [Drive.walk, Option.some.injEq] at hwalk
      exact hwalk.symm
  | cons component rest ih =>
      rw [Drive.walk] at hwalk
      split_ifs at hwalk
      exact ih hwalk

theorem walk_append {more : List Str} :
    drive.walk directory (components ++ more) =
      (drive.walk directory components).bind fun place =>
        drive.walk place more := by
  induction components generalizing directory with
  | nil => rfl
  | cons component rest ih =>
      rw [List.cons_append, Drive.walk, Drive.walk]
      split_ifs
      · exact ih
      · rfl

/-- A walk below one directory and the same walk below another one, where both
drives have the same directories. -/
theorem walk_below {base base' top : List Str}
    (hstays : stays top.length components = true)
    (hsame : ∀ rest, isDirectory (drive (base ++ rest)) =
      isDirectory (other (base' ++ rest)))
    (hwalk : drive.walk (base ++ top) components = some place) :
    place = base ++ resolve top components ∧
      other.walk (base' ++ top) components =
        some (base' ++ resolve top components) := by
  induction components generalizing top with
  | nil =>
      rw [Drive.walk, Option.some.injEq] at hwalk
      exact ⟨hwalk.symm, rfl⟩
  | cons component rest ih =>
      rw [Drive.walk] at hwalk
      split_ifs at hwalk with hdirectory
      rw [hsame] at hdirectory
      rw [Drive.walk, if_pos hdirectory, resolve, List.foldl_cons, ← resolve]
      rw [stays] at hstays
      split_ifs at hstays with hup
      · rw [Bool.and_eq_true, decide_eq_true_eq] at hstays
        have hne : top ≠ [] := List.length_pos_iff.mp hstays.1
        have henter : ∀ front, enter (front ++ top) component =
            front ++ top.dropLast := by
          intro front
          rw [enter, if_pos hup, List.dropLast_append_of_ne_nil hne]
        have htop : enter top component = top.dropLast := if_pos hup
        rw [henter] at hwalk ⊢
        rw [htop]
        apply ih _ hwalk
        rw [List.length_dropLast]
        exact hstays.2
      · have henter : ∀ front, enter (front ++ top) component =
            front ++ (top ++ [component]) := by
          intro front
          rw [enter, if_neg hup, List.append_assoc]
        have htop : enter top component = top ++ [component] := if_neg hup
        rw [henter] at hwalk ⊢
        rw [htop]
        apply ih _ hwalk
        rwa [List.length_append]

theorem find_eq_location {path : Str}
    (hfind : drive.find cwd path = some place) : place = location cwd path := by
  rw [Drive.find] at hfind
  split_ifs at hfind
  rw [Option.filter_eq_some_iff] at hfind
  exact walk_eq_resolve hfind.1

theorem find_eq_some_iff {path : Str} :
    drive.find cwd path = some place ↔
      path ≠ [] ∧
        drive.walk (start cwd path) (PosixPaths.components path) = some place ∧
        (namesDirectory path = true → isDirectory (drive place) = true) := by
  rw [Drive.find]
  split_ifs with hnil
  · simp [hnil]
  · rw [Option.filter_eq_some_iff, Bool.or_eq_true, Bool.not_eq_true']
    cases namesDirectory path
    · simp [hnil]
    · simp [hnil]

end Walks

/-! ## What may change -/

/-- What is outside stays as it is, except that missing directories on the way
are made. -/
def Confined (inside way : List Str → Prop) (drive final : Drive C) : Prop :=
  ∀ place, final place = drive place ∨ inside place ∨
    (drive place = none ∧ final place = some .directory ∧ way place)

section Confined

variable {inside way : List Str → Prop} {drive final : Drive C}

theorem Confined.refl (drive : Drive C) : Confined inside way drive drive :=
  fun _ => Or.inl rfl

theorem Confined.trans (first middle last : Drive C)
    (hfirst : Confined inside way first middle)
    (hlast : Confined inside way middle last) :
    Confined inside way first last := by
  intro place
  rcases hfirst place with hsame | hinside | ⟨hnone, hmade, hway⟩
  · rw [← hsame]
    exact hlast place
  · exact Or.inr (Or.inl hinside)
  · rcases hlast place with hsame | hinside | ⟨hnone', _⟩
    · exact Or.inr (Or.inr ⟨hnone, hsame.trans hmade, hway⟩)
    · exact Or.inr (Or.inl hinside)
    · rw [hmade] at hnone'
      cases hnone'

theorem Confined.eq_of_not (hconfined : Confined inside way drive final)
    {place : List Str} (hinside : ¬inside place) (hway : ¬way place) :
    final place = drive place := by
  rcases hconfined place with hsame | hmem | ⟨_, _, hmem⟩
  · exact hsame
  · exact absurd hmem hinside
  · exact absurd hmem hway

theorem Confined.isDirectory {place : List Str}
    (hconfined : Confined inside way drive final) (hinside : ¬inside place)
    (hdirectory : isDirectory (drive place) = true) :
    isDirectory (final place) = true := by
  rcases hconfined place with hsame | hmem | ⟨hnone, _⟩
  · rwa [hsame]
  · exact absurd hmem hinside
  · rw [hnone] at hdirectory
    cases hdirectory

theorem confined_update {place : List Str} {entry : Option (Entry C)}
    (hplace : inside place) :
    Confined inside way drive (Function.update drive place entry) := by
  intro other
  by_cases hsame : other = place
  · rw [hsame]
    exact Or.inr (Or.inl hplace)
  · exact Or.inl (Function.update_of_ne hsame _ _)

theorem confined_made {place : List Str} (hnone : drive place = none)
    (hplace : way place) :
    Confined inside way drive
      (Function.update drive place (some .directory)) := by
  intro other
  by_cases hsame : other = place
  · rw [hsame]
    exact Or.inr (Or.inr ⟨hnone, Function.update_self _ _ _, hplace⟩)
  · exact Or.inl (Function.update_of_ne hsame _ _)

theorem readFile_eq_ok_iff {cwd : List Str} {path : Str} {content : C} :
    outcome (readFile cwd path) drive = (.ok content, final) ↔
      final = drive ∧
        (drive.find cwd path).bind drive = some (.file content) := by
  rw [readFile, outcome_bind_of_ok (outcome_get drive)]
  rcases (drive.find cwd path).bind drive with _ | _ | other
  · simp
  · simp
  · constructor
    · intro hrun
      cases hrun
      exact ⟨rfl, rfl⟩
    · rintro ⟨hfinal, hfile⟩
      cases hfile
      rw [hfinal]
      rfl

theorem writeFile_eq_ok_iff {cwd : List Str} {path : Str} {content : C}
    {result : PUnit} :
    outcome (writeFile cwd path content) drive = (.ok result, final) ↔
      ∃ place, drive.find cwd path = some place ∧
        isDirectory (drive place) = false ∧
        final = Function.update drive place (some (.file content)) := by
  rw [writeFile, outcome_bind_of_ok (outcome_get drive)]
  cases drive.find cwd path with
  | none => simp
  | some place =>
      simp only [Option.some.injEq, exists_eq_left']
      split_ifs with hdirectory
      · simp [hdirectory]
      · rw [outcome_modify, Prod.mk.injEq]
        rw [Bool.not_eq_true] at hdirectory
        exact ⟨fun hrun => ⟨hdirectory, hrun.2.symm⟩,
          fun hwritten => ⟨rfl, hwritten.2.symm⟩⟩

theorem keeps_readFile {R : Drive C → Drive C → Prop} (hrefl : ∀ drive, R drive drive)
    (cwd : List Str) (path : Str) : Keeps R (readFile cwd path : Work C C) := by
  intro drive
  rw [readFile, outcome_bind_of_ok (outcome_get drive)]
  split <;> exact hrefl drive

theorem confined_writeFile {cwd : List Str} {path : Str} {content : C}
    (hplace : inside (location cwd path)) :
    Keeps (Confined inside way) (writeFile cwd path content) := by
  intro drive
  rw [writeFile, outcome_bind_of_ok (outcome_get drive)]
  split
  · exact Confined.refl drive
  · rename_i place hfind
    split_ifs
    · exact Confined.refl drive
    · exact confined_update (find_eq_location hfind ▸ hplace)

theorem confined_makedirsFrom {directory components : List Str}
    (hway : ∀ place ∈ places directory components, way place) :
    Keeps (Confined inside way)
      (makedirsFrom directory components : Work C PUnit) := by
  induction components generalizing directory with
  | nil => exact Confined.refl
  | cons component rest ih =>
      rw [places, List.forall_mem_cons] at hway
      intro drive
      cases rest with
      | nil =>
          rw [makedirsFrom, outcome_bind_of_ok (outcome_get drive)]
          split_ifs with hcannot
          · exact Confined.refl drive
          · rw [not_or, Bool.not_eq_true, Option.isSome_eq_false_iff,
              Option.isNone_iff_eq_none] at hcannot
            exact confined_made hcannot.2 hway.1
      | cons next rest =>
          rw [makedirsFrom, outcome_bind_of_ok (outcome_get drive)]
          split_ifs with hcannot hthere
          · exact Confined.refl drive
          · exact ih hway.2 drive
          · rw [Bool.not_eq_true, Option.isSome_eq_false_iff,
              Option.isNone_iff_eq_none] at hthere
            exact Confined.trans _ _ _ (confined_made hthere hway.1)
              (ih hway.2 _)

theorem confined_rmtree {cwd : List Str} {path : Str}
    (hplace : ∀ place, location cwd path <+: place → inside place) :
    Keeps (Confined inside way) (rmtree cwd path : Work C PUnit) := by
  intro drive
  rw [rmtree, outcome_bind_of_ok (outcome_get drive)]
  split
  · exact Confined.refl drive
  · rename_i place hfind
    split_ifs
    · exact Confined.refl drive
    · intro other
      by_cases hbelow : place <+: other
      · exact Or.inr (Or.inl (hplace other (find_eq_location hfind ▸ hbelow)))
      · exact Or.inl (if_neg hbelow)

theorem confined_copytree {cwd : List Str} {src dst : Str}
    (hplace : ∀ place, location cwd dst <+: place → inside place)
    (hway : ∀ place ∈ places (start cwd dst) (components dst), way place) :
    Keeps (Confined inside way) (copytree cwd src dst : Work C PUnit) := by
  intro drive
  rw [copytree, outcome_bind_of_ok (outcome_get drive)]
  split
  · exact Confined.refl drive
  · rename_i found hfind
    split_ifs
    · exact Confined.refl drive
    · apply relates_bind Confined.trans (confined_makedirsFrom hway drive)
      intro _ middle _ other
      by_cases hbelow : location cwd dst <+: other
      · exact Or.inr (Or.inl (hplace other hbelow))
      · exact Or.inl (if_neg hbelow)

end Confined

/-! ## Copies -/

section Copies

variable {drive final : Drive C} {cwd : List Str} {src dst : Str}
  {result : PUnit}

/-- The directories that have been made can be followed. -/
theorem walk_of_makedirsFrom {directory components : List Str}
    (hrun : outcome (makedirsFrom directory components) drive =
      (.ok result, final)) :
    final.walk directory components = some (resolve directory components) ∧
      isDirectory (final (resolve directory components)) = true := by
  induction components generalizing drive directory with
  | nil => cases hrun
  | cons component rest ih =>
      have hkeeps : ∀ {before : Drive C},
          outcome (makedirsFrom (enter directory component) rest) before =
            (.ok result, final) →
          isDirectory (before directory) = true →
            isDirectory (final directory) = true := by
        intro before hmake hbefore
        have hconfined := @confined_makedirsFrom C (fun _ => False)
          (fun _ => True) (enter directory component) rest
          (fun _ _ => trivial) before
        rw [hmake] at hconfined
        exact hconfined.isDirectory (fun hfalse => hfalse) hbefore
      cases rest with
      | nil =>
          rw [makedirsFrom, outcome_bind_of_ok (outcome_get drive)] at hrun
          split_ifs at hrun with hcannot
          · cases hrun
          · cases hrun
            rw [not_or, Bool.not_eq_false, Bool.not_eq_true,
              Option.isSome_eq_false_iff, Option.isNone_iff_eq_none] at hcannot
            have hne : directory ≠ enter directory component := by
              intro hsame
              rw [← hsame] at hcannot
              rw [hcannot.2] at hcannot
              cases hcannot.1
            have hmade : isDirectory (Function.update drive
                (enter directory component) (some .directory)
                  (enter directory component)) = true := by
              rw [Function.update_self]
              rfl
            have hstart : isDirectory (Function.update drive
                (enter directory component) (some .directory) directory) =
                  true := by
              rw [Function.update_of_ne hne]
              exact hcannot.1
            exact ⟨if_pos hstart, hmade⟩
      | cons next rest =>
          rw [makedirsFrom, outcome_bind_of_ok (outcome_get drive)] at hrun
          split_ifs at hrun with hcannot hthere
          · cases hrun
          · rw [Bool.not_eq_false] at hcannot
            rw [Drive.walk, if_pos (hkeeps hrun hcannot)]
            exact ih hrun
          · rw [Bool.not_eq_false] at hcannot
            rw [Bool.not_eq_true, Option.isSome_eq_false_iff,
              Option.isNone_iff_eq_none] at hthere
            have hne : directory ≠ enter directory component := by
              intro hsame
              rw [hsame, hthere] at hcannot
              cases hcannot
            rw [outcome_bind_of_ok (outcome_modify _ drive)] at hrun
            have hdirectory : isDirectory (Function.update drive
                (enter directory component) (some .directory) directory) =
                  true := by
              rwa [Function.update_of_ne hne]
            rw [Drive.walk, if_pos (hkeeps hrun hdirectory)]
            exact ih hrun

/-- The same path through a drive that has the directories on the way. -/
theorem walk_of_directories {other : Drive C} {directory components : List Str}
    {place : List Str}
    (hkept : ∀ passed ∈ directory :: places directory components,
      isDirectory (drive passed) = true → isDirectory (other passed) = true)
    (hwalk : drive.walk directory components = some place) :
    other.walk directory components = some place := by
  induction components generalizing directory with
  | nil => exact hwalk
  | cons component rest ih =>
      rw [Drive.walk] at hwalk
      split_ifs at hwalk with hdirectory
      rw [places, List.forall_mem_cons] at hkept
      rw [Drive.walk, if_pos (hkept.1 hdirectory)]
      exact ih hkept.2 hwalk

/-- After a copy what is below the destination is what is below the source, and
the destination can be reached. -/
theorem copytree_eq_ok
    (hrun : outcome (copytree cwd src dst) drive = (.ok result, final))
    (hway : ∀ place ∈ places (start cwd dst) (components dst),
      place <+: location cwd dst)
    (hstart : ¬location cwd dst <+: start cwd dst)
    (hsrc : ¬location cwd src <+: location cwd dst) :
    drive.find cwd src = some (location cwd src) ∧
      isDirectory (drive (location cwd src)) = true ∧
      final.walk (start cwd dst) (components dst) =
        some (location cwd dst) ∧
      ∀ rest, final (location cwd dst ++ rest) =
        drive (location cwd src ++ rest) := by
  rw [copytree, outcome_bind_of_ok (outcome_get drive)] at hrun
  split at hrun
  · cases hrun
  · rename_i found hfind
    have hfound := find_eq_location hfind
    subst hfound
    split_ifs at hrun with hdirectory
    · cases hrun
    · rw [Bool.not_eq_false] at hdirectory
      rcases outcome_bind_eq_ok_iff.mp hrun with ⟨_, middle, hmake, hgraft⟩
      rw [outcome_modify, Prod.mk.injEq] at hgraft
      have hconfined := @confined_makedirsFrom C (fun _ => False)
        (· <+: location cwd dst) (start cwd dst) (components dst) hway drive
      rw [hmake] at hconfined
      have hkept : ∀ rest, middle (location cwd src ++ rest) =
          drive (location cwd src ++ rest) := by
        intro rest
        apply hconfined.eq_of_not (fun hfalse => hfalse)
        intro hbelow
        exact hsrc ((List.prefix_append _ rest).trans hbelow)
      have hcopied : ∀ rest, final (location cwd dst ++ rest) =
          drive (location cwd src ++ rest) := by
        intro rest
        rw [← hgraft.2, Drive.grafted, if_pos (List.prefix_append _ rest),
          List.drop_left, hkept]
      refine ⟨hfind, hdirectory, ?_, hcopied⟩
      apply walk_of_directories _ (walk_of_makedirsFrom hmake).1
      intro passed hpassed hmiddle
      by_cases hbelow : location cwd dst <+: passed
      · have hsame : passed = location cwd dst := by
          rcases List.mem_cons.mp hpassed with hpassed | hpassed
          · exact absurd (hpassed ▸ hbelow) hstart
          · exact (hway passed hpassed).eq_of_length_le hbelow.length_le
        have hroot := hcopied []
        rw [List.append_nil, List.append_nil] at hroot
        rw [hsame, hroot]
        exact hdirectory
      · rw [← hgraft.2, Drive.grafted, if_neg hbelow]
        exact hmiddle

end Copies

end DirectoryTrees
