import Miscellaneous.FailingActions
import Miscellaneous.PosixPaths
import Miscellaneous.PythonBytes
import Mathlib.Tactic

/-!
# Directories and files

The part of a file system that a program changes: the directories, the contents
of the files, and everything that has been done to them.  The operating system
may refuse anything for reasons of its own, a write also after a part of it;
apart from that a directory can be made where its parent is one and nothing else
is, and a file can be opened in a directory.

Places are compared by the code points of their names.  A name with surrogate
escapes can stand for the same bytes as another text; here the two are
different names.
-/

namespace Disks

open FailingActions PosixPaths PythonBytes PythonJson PythonStrings

inductive Effect where
  | mkdir (place : List Str)
  | truncate (place : List Str)
  | write (place : List Str) (bytes : Bytes)
  | openAppend (place : List Str)
  | append (place : List Str) (bytes : Bytes)
  deriving DecidableEq

def Effect.place : Effect → List Str
  | .mkdir place | .truncate place | .write place _ | .openAppend place
  | .append place _ => place

structure Disk where
  isDir : List Str → Bool
  content : List Str → Option Bytes
  effects : List Effect

def Disk.has (disk : Disk) (place : List Str) : Bool :=
  disk.isDir place || (disk.content place).isSome

def Disk.after (disk : Disk) (effect : Effect) : Disk where
  isDir :=
    match effect with
    | .mkdir place => Function.update disk.isDir place true
    | _ => disk.isDir
  content :=
    match effect with
    | .mkdir _ => disk.content
    | .truncate place => Function.update disk.content place (some [])
    | .write place bytes => Function.update disk.content place (some bytes)
    | .openAppend place =>
        Function.update disk.content place
          (some ((disk.content place).getD []))
    | .append place bytes =>
        Function.update disk.content place
          (some ((disk.content place).getD [] ++ bytes))
  effects := disk.effects ++ [effect]

@[simp] theorem Disk.after_effects (disk : Disk) (effect : Effect) :
    (disk.after effect).effects = disk.effects ++ [effect] := rfl

/-- The place that the steps lead to, if each one is taken in a directory. -/
def Disk.walk (disk : Disk) : List Str → List Str → Option (List Str)
  | place, [] => some place
  | place, step :: rest =>
      if disk.isDir place then disk.walk (follow place step) rest else none

def start (cwd : List Str) (path : Str) : List Str :=
  if isAbsolute path then [] else cwd

def Disk.find (disk : Disk) (cwd : List Str) (path : Str) :
    Option (List Str) :=
  if path = [] then none else disk.walk (start cwd path) (lookupSteps path)

def Disk.leadsTo (disk : Disk) (base steps : List Str) : Bool :=
  match disk.walk base steps with
  | some place => disk.has place
  | none => false

/-- `os.path.exists`. -/
def Disk.pathExists (disk : Disk) (cwd : List Str) (path : Str) : Bool :=
  !path.isEmpty && disk.leadsTo (start cwd path) (lookupSteps path)

/-- What the operating system does not allow. -/
abbrev Refusal := Disk → Effect → Option Error

/-- How many bytes are written before a write is refused. -/
abbrev Acceptance := Disk → Effect → ℕ

section Calls

variable (refuses : Refusal) (accepts : Acceptance)

def perform (effect : Effect) : Action Disk Error PUnit := do
  let disk ← get
  match refuses disk effect with
  | some error => throw error
  | none => modify fun disk => disk.after effect

/-- A write that is refused may have written a part of the bytes. -/
def writeBytes (write : Bytes → Effect) (bytes : Bytes) :
    Action Disk Error PUnit := do
  let disk ← get
  match refuses disk (write bytes) with
  | some error =>
      let part := bytes.take (accepts disk (write bytes))
      unless part = [] do modify fun disk => disk.after (write part)
      throw error
  | none => modify fun disk => disk.after (write bytes)

/-- `os.mkdir` of the path with these steps, `false` for a FileExistsError. -/
def mkdir (base head : List Str) (tail : Str) : Action Disk Error Bool := do
  let disk ← get
  match disk.walk base head with
  | none => throw .osError
  | some directory =>
      if disk.isDir directory = false then throw .osError
      else if tail = dot ∨ tail = dotDot ∨ disk.has (directory ++ [tail]) then
        return false
      else
        perform refuses (.mkdir (directory ++ [tail]))
        return true

/-- The steps from the last one to the first.  What is missing before the last
one is made first, and it is no failure if something is there by then. -/
def makedirsFrom (base : List Str) : List Str → Action Disk Error Bool
  | [] => throw .osError
  | tail :: rest => do
      let disk ← get
      if rest = [] ∨ disk.leadsTo base rest.reverse then
        mkdir refuses base rest.reverse tail
      else
        let _ ← makedirsFrom base rest
        if tail = dot then return true
        else mkdir refuses base rest.reverse tail

/-- `os.makedirs`. -/
def makedirs (cwd : List Str) (path : Str) : Action Disk Error PUnit := do
  let made ← makedirsFrom refuses (start cwd path) (steps path).reverse
  unless made do throw .osError

/-- The place of a file that can be opened for writing. -/
def Disk.filePlace (disk : Disk) (cwd : List Str) (path : Str) :
    Option (List Str) :=
  (disk.find cwd path).filter fun place => !disk.isDir place

/-- `open` for writing; `mode` is what that does to the file. -/
def openFile (mode : List Str → Effect) (cwd : List Str) (path : Str) :
    Action Disk Error (List Str) := do
  let disk ← get
  match disk.filePlace cwd path with
  | none => throw .osError
  | some place =>
      perform refuses (mode place)
      return place

end Calls

/-! ## What the calls do -/

section Outcomes

variable {refuses : Refusal} {accepts : Acceptance} {disk final : Disk}

theorem outcome_perform_of_none {effect : Effect}
    (hallowed : refuses disk effect = none) :
    outcome (perform refuses effect) disk = (.ok ⟨⟩, disk.after effect) := by
  rw [perform, outcome_bind_of_ok (outcome_get disk)]
  simp [hallowed]

theorem outcome_perform_of_some {effect : Effect} {error : Error}
    (hrefused : refuses disk effect = some error) :
    outcome (perform refuses effect) disk = (.error error, disk) := by
  rw [perform, outcome_bind_of_ok (outcome_get disk)]
  simp [hrefused]

theorem perform_eq_ok_iff {effect : Effect} {result : PUnit} :
    outcome (perform refuses effect) disk = (.ok result, final) ↔
      refuses disk effect = none ∧ final = disk.after effect := by
  cases hcase : refuses disk effect with
  | none =>
      rw [outcome_perform_of_none hcase]
      simp [eq_comm]
  | some error =>
      rw [outcome_perform_of_some hcase]
      simp

theorem perform_eq_error {effect : Effect} {error : Error}
    (hrun : outcome (perform refuses effect) disk = (.error error, final)) :
    final = disk := by
  cases hcase : refuses disk effect with
  | none =>
      rw [outcome_perform_of_none hcase] at hrun
      cases hrun
  | some other =>
      rw [outcome_perform_of_some hcase] at hrun
      cases hrun
      rfl

theorem outcome_writeBytes_of_none {write : Bytes → Effect} {bytes : Bytes}
    (hallowed : refuses disk (write bytes) = none) :
    outcome (writeBytes refuses accepts write bytes) disk =
      (.ok ⟨⟩, disk.after (write bytes)) := by
  rw [writeBytes, outcome_bind_of_ok (outcome_get disk)]
  simp [hallowed]

def Disk.afterPart (disk : Disk) (write : Bytes → Effect) (part : Bytes) :
    Disk :=
  if part = [] then disk else disk.after (write part)

theorem outcome_writeBytes_of_some {write : Bytes → Effect} {bytes : Bytes}
    {error : Error} (hrefused : refuses disk (write bytes) = some error) :
    outcome (writeBytes refuses accepts write bytes) disk =
      (.error error, disk.afterPart write
        (bytes.take (accepts disk (write bytes)))) := by
  rw [writeBytes, outcome_bind_of_ok (outcome_get disk)]
  simp only [hrefused]
  by_cases hpart : bytes.take (accepts disk (write bytes)) = []
  · rw [if_pos hpart, Disk.afterPart, if_pos hpart]
    rfl
  · rw [if_neg hpart, Disk.afterPart, if_neg hpart]
    rfl

/-- A file is opened at its place or not at all. -/
theorem openFile_eq_ok_iff {mode : List Str → Effect} {cwd : List Str}
    {path : Str} {place : List Str} :
    outcome (openFile refuses mode cwd path) disk = (.ok place, final) ↔
      disk.filePlace cwd path = some place ∧
        refuses disk (mode place) = none ∧ final = disk.after (mode place) := by
  rw [openFile, outcome_bind_of_ok (outcome_get disk)]
  cases hplace : disk.filePlace cwd path with
  | none => simp
  | some found =>
      simp only [outcome_bind_eq_ok_iff, perform_eq_ok_iff, outcome_pure,
        Prod.mk.injEq, Except.ok.injEq, Option.some.injEq]
      constructor
      · rintro ⟨_, middle, ⟨hallowed, hmiddle⟩, hsame, hfinal⟩
        subst hsame
        exact ⟨rfl, hallowed, hfinal.symm.trans hmiddle⟩
      · rintro ⟨hsame, hallowed, hfinal⟩
        subst hsame
        exact ⟨⟨⟩, _, ⟨hallowed, rfl⟩, rfl, hfinal.symm⟩

theorem openFile_eq_error {mode : List Str → Effect} {cwd : List Str}
    {path : Str} {error : Error}
    (hrun : outcome (openFile refuses mode cwd path) disk =
      (.error error, final)) : final = disk := by
  rw [openFile, outcome_bind_of_ok (outcome_get disk)] at hrun
  cases hplace : disk.filePlace cwd path with
  | none =>
      simp only [hplace] at hrun
      cases hrun
      rfl
  | some place =>
      simp only [hplace] at hrun
      rcases outcome_bind_eq_error_iff.mp hrun with hfail | ⟨_, _, _, hpure⟩
      · exact perform_eq_error hfail
      · cases hpure

/-! ## What has been done -/

theorem Disk.has_after {disk : Disk} {place : List Str}
    (hplace : disk.has place = true) (effect : Effect) :
    (disk.after effect).has place = true := by
  unfold Disk.has at hplace ⊢
  rw [Bool.or_eq_true] at hplace ⊢
  cases effect with
  | mkdir other =>
      by_cases hsame : place = other
      · simp [Disk.after, hsame]
      · simpa [Disk.after, hsame] using hplace
  | truncate other | write other _ | openAppend other | append other _ =>
      by_cases hsame : place = other
      · simp [Disk.after, hsame]
      · simpa [Disk.after, hsame] using hplace

/-- Everything that has been done has the property, and nothing has gone. -/
structure Grows (P : Effect → Prop) (disk final : Disk) : Prop where
  effects : ∃ new, final.effects = disk.effects ++ new ∧
    ∀ effect ∈ new, P effect
  has : ∀ place, disk.has place = true → final.has place = true

variable {P : Effect → Prop}

theorem Grows.refl (disk : Disk) : Grows P disk disk :=
  ⟨⟨[], by simp, by simp⟩, fun _ hplace => hplace⟩

theorem Grows.trans {disk middle final : Disk} (hfirst : Grows P disk middle)
    (hsecond : Grows P middle final) : Grows P disk final := by
  rcases hfirst.effects with ⟨first, heffects, hP⟩
  rcases hsecond.effects with ⟨second, heffects', hP'⟩
  constructor
  · refine ⟨first ++ second, ?_, ?_⟩
    · rw [heffects', heffects, List.append_assoc]
    · intro effect heffect
      rcases List.mem_append.mp heffect with hmem | hmem
      · exact hP effect hmem
      · exact hP' effect hmem
  · intro place hplace
    exact hsecond.has place (hfirst.has place hplace)

theorem Grows.after {effect : Effect} (heffect : P effect) (disk : Disk) :
    Grows P disk (disk.after effect) := by
  constructor
  · refine ⟨[effect], rfl, ?_⟩
    intro other hother
    rwa [List.mem_singleton.mp hother]
  · intro place hplace
    exact Disk.has_after hplace effect

theorem Grows.mono {Q : Effect → Prop} {disk final : Disk}
    (hgrows : Grows P disk final) (hPQ : ∀ effect, P effect → Q effect) :
    Grows Q disk final := by
  rcases hgrows.effects with ⟨new, hnew, hP⟩
  exact ⟨⟨new, hnew, fun effect heffect => hPQ effect (hP effect heffect)⟩,
    hgrows.has⟩

/-- What has been done in between has the property. -/
theorem effect_between {Q R : Effect → Prop} {disk middle final : Disk}
    {effect : Effect}
    (heffects : ∃ new, final.effects = disk.effects ++ new ∧
      ∀ effect ∈ new, P effect)
    (hbefore : Grows Q disk middle)
    (hafter : Grows R (middle.after effect) final) : P effect := by
  rcases heffects with ⟨new, hnew, hP⟩
  rcases hbefore.effects with ⟨before, hmiddle, _⟩
  rcases hafter.effects with ⟨after, hfinal, _⟩
  have hsplit : new = before ++ effect :: after := by
    have hsame : disk.effects ++ new =
        disk.effects ++ (before ++ effect :: after) := by
      rw [← hnew, hfinal, Disk.after_effects, hmiddle]
      simp
    exact List.append_cancel_left hsame
  exact hP effect (hsplit ▸ List.mem_append_right before List.mem_cons_self)

theorem Grows.afterPart {write : Bytes → Effect}
    (hwrite : ∀ part, P (write part)) (part : Bytes) (disk : Disk) :
    Grows P disk (disk.afterPart write part) := by
  rw [Disk.afterPart]
  split_ifs
  · exact Grows.refl disk
  · exact Grows.after (hwrite part) disk

theorem grows_writeBytes {write : Bytes → Effect}
    (hwrite : ∀ part, P (write part)) (bytes : Bytes) :
    Keeps (Grows P) (writeBytes refuses accepts write bytes) := by
  intro disk
  cases hcase : refuses disk (write bytes) with
  | none =>
      rw [outcome_writeBytes_of_none hcase]
      exact Grows.after (hwrite bytes) disk
  | some error =>
      rw [outcome_writeBytes_of_some hcase]
      exact Grows.afterPart hwrite _ disk

theorem grows_openFile {mode : List Str → Effect} {cwd : List Str} {path : Str}
    (hmode : ∀ place, disk.filePlace cwd path = some place → P (mode place)) :
    Grows P disk (outcome (openFile refuses mode cwd path) disk).2 := by
  rcases hrun : outcome (openFile refuses mode cwd path) disk with
    ⟨error | place, final⟩
  · have hfinal := openFile_eq_error hrun
    subst hfinal
    exact Grows.refl final
  · rcases openFile_eq_ok_iff.mp hrun with ⟨hplace, _, hfinal⟩
    subst hfinal
    exact Grows.after (hmode place hplace) disk

/-- The places on the way. -/
def places : List Str → List Str → List (List Str)
  | _, [] => []
  | directory, component :: rest =>
      enter directory component :: places (enter directory component) rest

/-- A path that does not leave its starting place passes only places below. -/
theorem isPrefix_of_mem_places {path : List Str} {base top : List Str}
    (hstays : stays top.length path = true) {place : List Str}
    (hplace : place ∈ places (base ++ top) path) : base <+: place := by
  induction path generalizing top with
  | nil => cases hplace
  | cons component rest ih =>
      rw [stays] at hstays
      rw [places] at hplace
      have hnext : ∃ next, enter (base ++ top) component = base ++ next ∧
          stays next.length rest = true := by
        split_ifs at hstays with hup
        · rw [Bool.and_eq_true, decide_eq_true_eq] at hstays
          refine ⟨top.dropLast, ?_, ?_⟩
          · rw [enter, if_pos hup, List.dropLast_append_of_ne_nil
              (List.length_pos_iff.mp hstays.1)]
          · rw [List.length_dropLast]
            exact hstays.2
        · refine ⟨top ++ [component], ?_, ?_⟩
          · rw [enter, if_neg hup, List.append_assoc]
          · rwa [List.length_append]
      rcases hnext with ⟨next, henter, hrest⟩
      rw [henter] at hplace
      rcases List.mem_cons.mp hplace with hsame | hmem
      · rw [hsame]
        exact List.prefix_append base next
      · exact ih hrest hmem

/-- Where a step leads by a name. -/
def stepPlaces (directory : List Str) (step : Str) : List (List Str) :=
  if step = dot ∨ step = dotDot then [] else [directory ++ [step]]

def namedPlaces : List Str → List Str → List (List Str)
  | _, [] => []
  | directory, step :: rest =>
      stepPlaces directory step ++ namedPlaces (follow directory step) rest

theorem namedPlaces_append (directory path more : List Str) :
    namedPlaces directory (path ++ more) =
      namedPlaces directory path ++
        namedPlaces (path.foldl follow directory) more := by
  induction path generalizing directory with
  | nil => rfl
  | cons step rest ih =>
      rw [List.cons_append, namedPlaces, ih, namedPlaces, List.append_assoc]
      rfl

theorem namedPlaces_filter (directory steps : List Str) :
    namedPlaces directory (steps.filter (· ≠ dot)) =
      namedPlaces directory steps := by
  induction steps generalizing directory with
  | nil => rfl
  | cons step rest ih =>
      rw [namedPlaces, ← ih]
      by_cases hdot : step = dot
      · rw [List.filter_cons_of_neg (by simp [hdot]), stepPlaces,
          if_pos (Or.inl hdot), follow, if_pos hdot, List.nil_append]
      · rw [List.filter_cons_of_pos (by simp [hdot])]
        rfl

theorem mem_places_of_mem_namedPlaces {directory steps place : List Str}
    (hplace : place ∈ namedPlaces directory steps) :
    place ∈ places directory (steps.filter (· ≠ dot)) := by
  induction steps generalizing directory with
  | nil => cases hplace
  | cons step rest ih =>
      rw [namedPlaces, stepPlaces, List.mem_append] at hplace
      by_cases hdot : step = dot
      · rw [List.filter_cons_of_neg (by simp [hdot])]
        rw [if_pos (Or.inl hdot), follow, if_pos hdot] at hplace
        exact ih (hplace.resolve_left (List.not_mem_nil))
      · rw [List.filter_cons_of_pos (by simp [hdot]), places, List.mem_cons]
        rw [follow, if_neg hdot] at hplace
        rcases hplace with hfirst | hrest
        · left
          split_ifs at hfirst with hup
          · cases hfirst
          · rw [not_or] at hup
            rw [enter, if_neg hup.2]
            exact List.mem_singleton.mp hfirst
        · exact Or.inr (ih hrest)

theorem walk_eq_some {directory steps place : List Str}
    (hwalk : disk.walk directory steps = some place) :
    place = steps.foldl follow directory ∧
      (disk.has place = true →
        ∀ passed ∈ namedPlaces directory steps, disk.has passed = true) := by
  induction steps generalizing directory with
  | nil =>
      rw [Disk.walk, Option.some.injEq] at hwalk
      constructor
      · exact hwalk.symm
      · intro _ passed hpassed
        cases hpassed
  | cons step rest ih =>
      rw [Disk.walk] at hwalk
      split_ifs at hwalk
      rcases ih hwalk with ⟨hplace, hpassed⟩
      refine ⟨hplace, ?_⟩
      intro hhas passed hmem
      rw [namedPlaces, stepPlaces, List.mem_append] at hmem
      rcases hmem with hfirst | hrest
      · split_ifs at hfirst with hnamed
        · cases hfirst
        · rw [not_or] at hnamed
          rw [follow, if_neg hnamed.1, enter, if_neg hnamed.2] at hwalk
          rw [List.mem_singleton.mp hfirst]
          cases rest with
          | nil =>
              rw [Disk.walk, Option.some.injEq] at hwalk
              rwa [hwalk]
          | cons next rest =>
              rw [Disk.walk] at hwalk
              split_ifs at hwalk with hdir
              rw [Disk.has, hdir, Bool.true_or]
      · exact hpassed hhas passed hrest

theorem find_eq_some {cwd : List Str} {path : Str} {place : List Str}
    (hfind : disk.find cwd path = some place) :
    place = location cwd path := by
  rw [Disk.find] at hfind
  split_ifs at hfind
  rw [(walk_eq_some hfind).1, foldl_follow, filter_lookupSteps]
  rfl

theorem filePlace_eq_some {cwd : List Str} {path : Str} {place : List Str}
    (hplace : disk.filePlace cwd path = some place) :
    place = location cwd path := by
  rw [Disk.filePlace, Option.filter_eq_some_iff] at hplace
  exact find_eq_some hplace.1

theorem leadsTo_namedPlaces {base steps : List Str}
    (hleads : disk.leadsTo base steps = true) :
    ∀ place ∈ namedPlaces base steps, disk.has place = true := by
  rw [Disk.leadsTo] at hleads
  split at hleads
  · rename_i place hwalk
    exact (walk_eq_some hwalk).2 hleads
  · cases hleads

theorem pathExists_namedPlaces {cwd : List Str} {path : Str}
    (hpath : disk.pathExists cwd path = true) :
    ∀ place ∈ namedPlaces (start cwd path) (components path),
      disk.has place = true := by
  rw [Disk.pathExists, Bool.and_eq_true] at hpath
  rw [← filter_lookupSteps, namedPlaces_filter]
  exact leadsTo_namedPlaces hpath.2

/-! ## Directories that are made -/

/-- Nothing has been done, or a directory has been made where the path leads by
a name and nothing was. -/
theorem mkdir_cases (refuses : Refusal) (disk : Disk) (base head : List Str)
    (tail : Str) :
    (∃ error, outcome (mkdir refuses base head tail) disk =
        (.error error, disk)) ∨
      (outcome (mkdir refuses base head tail) disk = (.ok false, disk) ∧
        (tail ≠ dot → tail ≠ dotDot →
          disk.has (head.foldl follow base ++ [tail]) = true)) ∨
      (outcome (mkdir refuses base head tail) disk =
          (.ok true, disk.after (.mkdir (head.foldl follow base ++ [tail]))) ∧
        ¬(tail = dot ∨ tail = dotDot) ∧
        disk.has (head.foldl follow base ++ [tail]) = false) := by
  rw [mkdir, outcome_bind_of_ok (outcome_get disk)]
  cases hwalk : disk.walk base head with
  | none => exact Or.inl ⟨.osError, rfl⟩
  | some directory =>
      rw [← (walk_eq_some hwalk).1]
      dsimp only
      split_ifs with hdirectory hthere
      · exact Or.inl ⟨.osError, rfl⟩
      · refine Or.inr (Or.inl ⟨rfl, ?_⟩)
        intro hdot hup
        exact (hthere.resolve_left hdot).resolve_left hup
      · rw [← or_assoc, not_or, Bool.not_eq_true] at hthere
        cases hcase : refuses disk (.mkdir (directory ++ [tail])) with
        | some error =>
            left
            refine ⟨error, ?_⟩
            rw [outcome_bind_of_error (outcome_perform_of_some hcase)]
        | none =>
            right
            right
            refine ⟨?_, hthere.1, hthere.2⟩
            rw [outcome_bind_of_ok (outcome_perform_of_none hcase)]
            rfl

theorem has_of_has_after_mkdir {place other : List Str}
    (hplace : (disk.after (.mkdir other)).has place = true) :
    disk.has place = true ∨ place = other := by
  by_cases hsame : place = other
  · exact Or.inr hsame
  · left
    simpa [Disk.after, Disk.has, hsame] using hplace

/-- When the calls have come to their end, each place that the path names was
there or has been made, and nothing else has. -/
structure Made (places : List (List Str)) (disk final : Disk) : Prop where
  made : ∀ place ∈ places, disk.has place = true ∨
    ∃ middle, Grows (fun _ => True) disk middle ∧
      Grows (fun _ => True) (middle.after (.mkdir place)) final
  has : ∀ place, final.has place = true →
    disk.has place = true ∨ place ∈ places

theorem Made.append {first second : List (List Str)} {middle : Disk}
    (hfirst : Made first disk middle) (hsecond : Made second middle final)
    (hbefore : Grows (fun _ => True) disk middle)
    (hafter : Grows (fun _ => True) middle final) :
    Made (first ++ second) disk final := by
  constructor
  · intro place hplace
    rcases List.mem_append.mp hplace with hmem | hmem
    · rcases hfirst.made place hmem with hhas | ⟨last, hlast, hmade⟩
      · exact Or.inl hhas
      · exact Or.inr ⟨last, hlast, hmade.trans hafter⟩
    · rcases hsecond.made place hmem with hhas | ⟨last, hlast, hmade⟩
      · rcases hfirst.has place hhas with hhas | hmem'
        · exact Or.inl hhas
        · rcases hfirst.made place hmem' with hhas | ⟨last, hlast, hmade⟩
          · exact Or.inl hhas
          · exact Or.inr ⟨last, hlast, hmade.trans hafter⟩
      · exact Or.inr ⟨last, hbefore.trans hlast, hmade⟩
  · intro place hplace
    rcases hsecond.has place hplace with hhas | hmem
    · rcases hfirst.has place hhas with hhas | hmem
      · exact Or.inl hhas
      · exact Or.inr (List.mem_append_left _ hmem)
    · exact Or.inr (List.mem_append_right _ hmem)

theorem made_mkdir {base head : List Str} {tail : Str} {made : Bool}
    (hrun : outcome (mkdir refuses base head tail) disk = (.ok made, final)) :
    Made (stepPlaces (head.foldl follow base) tail) disk final := by
  rcases mkdir_cases refuses disk base head tail with
    ⟨error, hfail⟩ | ⟨hthere, hhas⟩ | ⟨hmade, hnamed, _⟩
  · rw [hrun] at hfail
    cases hfail
  · rw [hrun, Prod.mk.injEq] at hthere
    rw [hthere.2, stepPlaces]
    constructor
    · intro place hplace
      split_ifs at hplace with hnamed
      · cases hplace
      · rw [not_or] at hnamed
        rw [List.mem_singleton.mp hplace]
        exact Or.inl (hhas hnamed.1 hnamed.2)
    · intro place hplace
      exact Or.inl hplace
  · rw [hrun, Prod.mk.injEq] at hmade
    rw [hmade.2, stepPlaces, if_neg hnamed]
    constructor
    · intro place hplace
      rw [List.mem_singleton.mp hplace]
      exact Or.inr ⟨disk, Grows.refl disk, Grows.refl _⟩
    · intro place hplace
      exact (has_of_has_after_mkdir hplace).imp_right List.mem_singleton.mpr

theorem grows_mkdir {base head : List Str} {tail : Str}
    (hplaces : ∀ place ∈ stepPlaces (head.foldl follow base) tail,
      disk.has place = true ∨ P (.mkdir place)) :
    Grows P disk (outcome (mkdir refuses base head tail) disk).2 := by
  rcases mkdir_cases refuses disk base head tail with
    ⟨error, hrun⟩ | ⟨hrun, _⟩ | ⟨hrun, hnamed, hmissing⟩
  · rw [hrun]
    exact Grows.refl disk
  · rw [hrun]
    exact Grows.refl disk
  · rw [stepPlaces, if_neg hnamed, List.forall_mem_singleton] at hplaces
    rw [hrun]
    exact Grows.after (hplaces.resolve_left (by simp [hmissing])) disk

theorem namedPlaces_reverse_cons (base rest : List Str) (tail : Str) :
    namedPlaces base (tail :: rest).reverse =
      namedPlaces base rest.reverse ++
        stepPlaces (rest.reverse.foldl follow base) tail := by
  rw [List.reverse_cons, namedPlaces_append, namedPlaces, namedPlaces,
    List.append_nil]

theorem grows_trans (first middle last : Disk) (hfirst : Grows P first middle)
    (hsecond : Grows P middle last) : Grows P first last :=
  hfirst.trans hsecond

theorem grows_makedirsFrom {base steps : List Str}
    (hplaces : ∀ place ∈ namedPlaces base steps.reverse,
      disk.has place = true ∨ P (.mkdir place)) :
    Grows P disk (outcome (makedirsFrom refuses base steps) disk).2 := by
  induction steps generalizing disk with
  | nil => exact Grows.refl disk
  | cons tail rest ih =>
      rw [namedPlaces_reverse_cons, List.forall_mem_append] at hplaces
      have hfirst := @ih disk hplaces.1
      rw [makedirsFrom, outcome_bind_of_ok (outcome_get disk)]
      split_ifs with hrest hdot
      · exact grows_mkdir hplaces.2
      · exact relates_bind grows_trans hfirst
          fun _ middle _ => Grows.refl middle
      · apply relates_bind grows_trans hfirst
        intro _ middle hmiddle
        rw [hmiddle] at hfirst
        apply grows_mkdir
        intro place hplace
        exact (hplaces.2 place hplace).imp_left (hfirst.has place)

theorem made_makedirsFrom {base steps : List Str} {made : Bool}
    (hrun : outcome (makedirsFrom refuses base steps) disk =
      (.ok made, final)) :
    Made (namedPlaces base steps.reverse) disk final := by
  induction steps generalizing disk final made with
  | nil => cases hrun
  | cons tail rest ih =>
      rw [namedPlaces_reverse_cons]
      rw [makedirsFrom, outcome_bind_of_ok (outcome_get disk)] at hrun
      have hmakedirs := @grows_makedirsFrom refuses disk (fun _ => True) base
        rest (fun _ _ => Or.inr trivial)
      have hmkdir (before : Disk) := @grows_mkdir refuses before
        (fun _ => True) base rest.reverse tail (fun _ _ => Or.inr trivial)
      split_ifs at hrun with hrest hdot
      · have hthere : Made (namedPlaces base rest.reverse) disk disk := by
          refine ⟨fun place hplace => Or.inl ?_, fun _ hplace => Or.inl hplace⟩
          rcases hrest with hnil | hleads
          · rw [hnil] at hplace
            cases hplace
          · exact leadsTo_namedPlaces hleads place hplace
        have hlast := hmkdir disk
        rw [hrun] at hlast
        exact hthere.append (made_mkdir hrun) (Grows.refl disk) hlast
      · rcases outcome_bind_eq_ok_iff.mp hrun with ⟨_, middle, hfirst, hlast⟩
        cases hlast
        rw [stepPlaces, if_pos (Or.inl hdot), List.append_nil]
        exact ih hfirst
      · rcases outcome_bind_eq_ok_iff.mp hrun with ⟨_, middle, hfirst, hlast⟩
        have hafter := hmkdir middle
        rw [hfirst] at hmakedirs
        rw [hlast] at hafter
        exact (ih hfirst).append (made_mkdir hlast) hmakedirs hafter

theorem grows_makedirs {cwd : List Str} {path : Str}
    (hplaces : ∀ place ∈ namedPlaces (start cwd path) (components path),
      disk.has place = true ∨ P (.mkdir place)) :
    Grows P disk (outcome (makedirs refuses cwd path) disk).2 := by
  rw [components, namedPlaces_filter, ← List.reverse_reverse (steps path)]
    at hplaces
  apply relates_bind grows_trans (grows_makedirsFrom hplaces)
  intro made middle _
  split_ifs
  · exact Grows.refl middle
  · exact Grows.refl middle

theorem made_makedirs {cwd : List Str} {path : Str} {result : PUnit}
    (hrun : outcome (makedirs refuses cwd path) disk = (.ok result, final)) :
    Made (namedPlaces (start cwd path) (components path)) disk final := by
  rw [components, namedPlaces_filter]
  rcases outcome_bind_eq_ok_iff.mp hrun with ⟨made, middle, hmake, hrest⟩
  have hmade := made_makedirsFrom hmake
  rw [List.reverse_reverse] at hmade
  split_ifs at hrest
  · cases hrest
    exact hmade
  · cases hrest

end Outcomes

/-! ## Files that are left alone -/

/-- The bytes of the file that a path leads to. -/
def Disk.read (disk : Disk) (cwd : List Str) (path : Str) : Option Bytes :=
  (disk.find cwd path).bind disk.content

/-- The file at the place has the same bytes, and no directory has gone. -/
structure LeavesFile (place : List Str) (disk final : Disk) : Prop where
  content : final.content place = disk.content place
  isDir : ∀ other, disk.isDir other = true → final.isDir other = true

section LeavesFile

variable {refuses : Refusal} {accepts : Acceptance} {place : List Str} {disk final : Disk}

theorem LeavesFile.refl (disk : Disk) : LeavesFile place disk disk :=
  ⟨rfl, fun _ hother => hother⟩

theorem LeavesFile.trans (first middle last : Disk)
    (hfirst : LeavesFile place first middle)
    (hsecond : LeavesFile place middle last) : LeavesFile place first last :=
  ⟨hsecond.content.trans hfirst.content,
    fun other hother => hsecond.isDir other (hfirst.isDir other hother)⟩

theorem Disk.isDir_after {other : List Str} (hother : disk.isDir other = true)
    (effect : Effect) : (disk.after effect).isDir other = true := by
  cases effect with
  | mkdir made =>
      by_cases hsame : other = made
      · simp [Disk.after, hsame]
      · simpa [Disk.after, hsame] using hother
  | truncate _ | write _ _ | openAppend _ | append _ _ => exact hother

theorem leavesFile_after {effect : Effect}
    (heffect : (∃ made, effect = .mkdir made) ∨ effect.place ≠ place)
    (disk : Disk) : LeavesFile place disk (disk.after effect) := by
  refine ⟨?_, fun other hother => Disk.isDir_after hother effect⟩
  cases effect with
  | mkdir _ => rfl
  | truncate other | write other _ | openAppend other | append other _ =>
      have hother : place ≠ other := by
        rcases heffect with ⟨made, hmade⟩ | hne
        · cases hmade
        · exact hne.symm
      exact Function.update_of_ne hother _ _

theorem leavesFile_openFile {mode : List Str → Effect} {cwd : List Str}
    {path : Str} (hmode : (mode (location cwd path)).place ≠ place) :
    Keeps (LeavesFile place) (openFile refuses mode cwd path) := by
  intro disk
  rcases hrun : outcome (openFile refuses mode cwd path) disk with
    ⟨error | opened, final⟩
  · rw [openFile_eq_error hrun]
    exact LeavesFile.refl disk
  · rcases openFile_eq_ok_iff.mp hrun with ⟨hplace, _, hfinal⟩
    rw [filePlace_eq_some hplace] at hfinal
    rw [hfinal]
    exact leavesFile_after (Or.inr hmode) disk

theorem leavesFile_afterPart {write : Bytes → Effect}
    (hwrite : ∀ part, (write part).place ≠ place) (part : Bytes)
    (disk : Disk) : LeavesFile place disk (disk.afterPart write part) := by
  rw [Disk.afterPart]
  split_ifs
  · exact LeavesFile.refl disk
  · exact leavesFile_after (Or.inr (hwrite part)) disk

theorem leavesFile_writeBytes {write : Bytes → Effect}
    (hwrite : ∀ part, (write part).place ≠ place) (bytes : Bytes) :
    Keeps (LeavesFile place) (writeBytes refuses accepts write bytes) := by
  intro disk
  cases hcase : refuses disk (write bytes) with
  | none =>
      rw [outcome_writeBytes_of_none hcase]
      exact leavesFile_after (Or.inr (hwrite bytes)) disk
  | some error =>
      rw [outcome_writeBytes_of_some hcase]
      exact leavesFile_afterPart hwrite _ disk

theorem leavesFile_mkdir (base head : List Str) (tail : Str) :
    Keeps (LeavesFile place) (mkdir refuses base head tail) := by
  intro disk
  rcases mkdir_cases refuses disk base head tail with
    ⟨error, hrun⟩ | ⟨hrun, _⟩ | ⟨hrun, _⟩
  · rw [hrun]
    exact LeavesFile.refl disk
  · rw [hrun]
    exact LeavesFile.refl disk
  · rw [hrun]
    exact leavesFile_after (Or.inl ⟨_, rfl⟩) disk

theorem leavesFile_makedirsFrom (base steps : List Str) :
    Keeps (LeavesFile place) (makedirsFrom refuses base steps) := by
  induction steps with
  | nil => exact LeavesFile.refl
  | cons tail rest ih =>
      intro disk
      rw [makedirsFrom, outcome_bind_of_ok (outcome_get disk)]
      split_ifs with _ hdot
      · exact leavesFile_mkdir _ _ _ disk
      · exact Keeps.bind LeavesFile.trans ih
          (fun _ => Keeps.pure LeavesFile.refl true) disk
      · exact Keeps.bind LeavesFile.trans ih
          (fun _ => leavesFile_mkdir _ _ _) disk

theorem leavesFile_makedirs (cwd : List Str) (path : Str) :
    Keeps (LeavesFile place) (makedirs refuses cwd path) := by
  apply Keeps.bind LeavesFile.trans (leavesFile_makedirsFrom _ _)
  intro made disk
  split_ifs
  · exact LeavesFile.refl disk
  · exact LeavesFile.refl disk

theorem Disk.walk_of_isDir
    (hisDir : ∀ other, disk.isDir other = true → final.isDir other = true)
    {directory path last : List Str}
    (hwalk : disk.walk directory path = some last) :
    final.walk directory path = some last := by
  induction path generalizing directory with
  | nil => exact hwalk
  | cons component rest ih =>
      rw [Disk.walk] at hwalk ⊢
      split_ifs at hwalk with hdirectory
      rw [if_pos (hisDir directory hdirectory)]
      exact ih hwalk

theorem Disk.find_of_isDir
    (hisDir : ∀ other, disk.isDir other = true → final.isDir other = true)
    {cwd : List Str} {path : Str} (hfind : disk.find cwd path = some place) :
    final.find cwd path = some place := by
  rw [Disk.find] at hfind ⊢
  split_ifs at hfind ⊢
  exact Disk.walk_of_isDir hisDir hfind

theorem LeavesFile.read {cwd : List Str} {path : Str} {bytes : Bytes}
    (hleaves : LeavesFile (location cwd path) disk final)
    (hread : disk.read cwd path = some bytes) :
    final.read cwd path = some bytes := by
  rcases Option.bind_eq_some_iff.mp hread with ⟨last, hfind, hcontent⟩
  have hlast : last = location cwd path := find_eq_some hfind
  refine Option.bind_eq_some_iff.mpr
    ⟨last, Disk.find_of_isDir hleaves.isDir hfind, ?_⟩
  rw [hlast] at hcontent ⊢
  rw [hleaves.content, hcontent]

theorem Disk.content_of_read {cwd : List Str} {path : Str} {bytes : Bytes}
    (hread : disk.read cwd path = some bytes) :
    disk.content (location cwd path) = some bytes := by
  rcases Option.bind_eq_some_iff.mp hread with ⟨last, hfind, hcontent⟩
  rwa [find_eq_some hfind] at hcontent

end LeavesFile

end Disks
