import Miscellaneous.BoxServer
import Mathlib.Tactic

/-!
# The files of the handlers

What `makeMissing`, `writeFile` and `appendLine` do to the disk, from the
outcomes of the single calls.
-/

namespace Miscellaneous.BoxServer

open Disks FailingActions PosixPaths PythonBytes PythonJson PythonStrings

variable {F : Type} {system : System F} {world final : World F}

/-- The stored times are left alone, and everything that has been done to the
disk has the property. -/
def Leaves (P : Effect → Prop) (world final : World F) : Prop :=
  final.taskUpdateInfo = world.taskUpdateInfo ∧ Grows P world.disk final.disk

theorem Leaves.refl {P : Effect → Prop} (world : World F) :
    Leaves P world world := ⟨rfl, Grows.refl world.disk⟩

theorem Leaves.trans {P : Effect → Prop} (first middle last : World F)
    (hfirst : Leaves P first middle) (hsecond : Leaves P middle last) :
    Leaves P first last :=
  ⟨hsecond.1.trans hfirst.1, hfirst.2.trans hsecond.2⟩

theorem onDisk_eq_iff {α : Type} {action : Action Disk Error α}
    {result : Except Error α} :
    outcome (onDisk action) world = (result, final) ↔
      ∃ disk, outcome action world.disk = (result, disk) ∧
        final = { world with disk := disk } := by
  rw [onDisk, outcome_zoom]
  rcases outcome action world.disk with ⟨value, disk⟩
  simp only [Prod.mk.injEq]
  constructor
  · rintro ⟨hvalue, hfinal⟩
    exact ⟨disk, ⟨hvalue, rfl⟩, hfinal.symm⟩
  · rintro ⟨other, ⟨hvalue, hdisk⟩, hfinal⟩
    subst hdisk
    exact ⟨hvalue, hfinal.symm⟩

theorem leaves_onDisk {α : Type} {action : Action Disk Error α}
    {P : Effect → Prop}
    (hgrows : Grows P world.disk (outcome action world.disk).2) :
    Leaves P world (outcome (onDisk action) world).2 :=
  ⟨rfl, hgrows⟩

/-! ## Directories -/

/-- The places on the way of a path that it names. -/
def pathPlaces (system : System F) (path : Str) : List (List Str) :=
  namedPlaces (start system.cwd path) (components path)

theorem leaves_makeMissing {P : Effect → Prop} {path : Str}
    (hplaces : ∀ place ∈ pathPlaces system path,
      world.disk.has place = true ∨ P (.mkdir place)) :
    Leaves P world (outcome (makeMissing system path) world).2 := by
  rw [makeMissing, outcome_bind_of_ok (outcome_get world)]
  split_ifs
  · exact Leaves.refl world
  · exact leaves_onDisk (grows_makedirs hplaces)

/-- When a directory is there, each place on the way was there or has been
made, and nothing else has. -/
theorem makeMissing_eq_ok {path : Str} {result : PUnit}
    (hrun : outcome (makeMissing system path) world = (.ok result, final)) :
    Made (pathPlaces system path) world.disk final.disk := by
  rw [makeMissing, outcome_bind_of_ok (outcome_get world)] at hrun
  split_ifs at hrun with hexists
  · cases hrun
    exact ⟨fun place hplace =>
        Or.inl (pathExists_namedPlaces hexists place hplace),
      fun _ hplace => Or.inl hplace⟩
  · rcases onDisk_eq_iff.mp hrun with ⟨disk, hmake, hfinal⟩
    rw [hfinal]
    exact made_makedirs hmake

/-! ## Files -/

theorem writeFile_eq (system : System F) (path : Str) (bytes : Bytes) :
    writeFile system path bytes =
      onDisk (openFile system.refuses .truncate system.cwd path) >>=
        fun place => onDisk
          (writeBytes system.refuses system.accepts (.write place) bytes) := rfl

theorem leaves_opened {α : Type} {P : Effect → Prop}
    {mode : List Str → Effect} {path : Str} {rest : List Str → Handler F α}
    (hplace : ∀ place, world.disk.filePlace system.cwd path = some place →
      P (mode place) ∧ Keeps (Leaves P) (rest place)) :
    Leaves P world (outcome (onDisk
      (openFile system.refuses mode system.cwd path) >>= rest) world).2 := by
  have hopen : Leaves P world (outcome (onDisk
      (openFile system.refuses mode system.cwd path)) world).2 :=
    leaves_onDisk (grows_openFile fun place hfile => (hplace place hfile).1)
  rw [outcome_bind]
  rcases hrun : outcome (onDisk
    (openFile system.refuses mode system.cwd path)) world with
      ⟨error | place, middle⟩
  · rwa [hrun] at hopen
  · rw [hrun] at hopen
    apply Leaves.trans _ _ _ hopen
    rcases onDisk_eq_iff.mp hrun with ⟨disk, hdisk, _⟩
    exact (hplace place (openFile_eq_ok_iff.mp hdisk).1).2 middle

theorem leaves_writeFile {P : Effect → Prop} {path : Str} {bytes : Bytes}
    (hplace : ∀ place, world.disk.filePlace system.cwd path = some place →
      P (.truncate place) ∧ ∀ part, P (.write place part)) :
    Leaves P world (outcome (writeFile system path bytes) world).2 := by
  rw [writeFile_eq]
  apply leaves_opened
  intro place hfile
  rcases hplace place hfile with ⟨hopen, hwrite⟩
  exact ⟨hopen, fun _ => leaves_onDisk (grows_writeBytes hwrite _ _)⟩

/-- With the file open and emptied only the write is left. -/
theorem outcome_writeFile {path : Str} {place : List Str}
    (hplace : world.disk.filePlace system.cwd path = some place)
    (hallowed : system.refuses world.disk (.truncate place) = none)
    (bytes : Bytes) :
    outcome (writeFile system path bytes) world =
      outcome (onDisk (writeBytes system.refuses system.accepts
          (.write place) bytes))
        { world with disk := world.disk.after (.truncate place) } := by
  have hopened : outcome
      (onDisk (openFile system.refuses .truncate system.cwd path)) world =
        (.ok place,
          { world with disk := world.disk.after (.truncate place) }) :=
    onDisk_eq_iff.mpr ⟨_, openFile_eq_ok_iff.mpr ⟨hplace, hallowed, rfl⟩, rfl⟩
  rw [writeFile_eq, outcome_bind_of_ok hopened]

/-- A file is not opened, or it has a part of the bytes, or all of them. -/
theorem writeFile_cases (system : System F) (path : Str) (bytes : Bytes)
    (world : World F) :
    (∃ error, outcome (writeFile system path bytes) world =
        (.error error, world) ∧
        ∀ place, world.disk.filePlace system.cwd path = some place →
          system.refuses world.disk (.truncate place) ≠ none) ∨
      ∃ opened, world.disk.filePlace system.cwd path = some opened ∧
        system.refuses world.disk (.truncate opened) = none ∧
        ((∃ error part, system.refuses (world.disk.after (.truncate opened))
              (.write opened bytes) = some error ∧
            outcome (writeFile system path bytes) world = (.error error,
              { world with
                disk := (world.disk.after (.truncate opened)).afterPart
                  (.write opened) part })) ∨
          system.refuses (world.disk.after (.truncate opened))
              (.write opened bytes) = none ∧
            outcome (writeFile system path bytes) world = (.ok ⟨⟩,
              { world with
                disk := (world.disk.after (.truncate opened)).after
                  (.write opened bytes) })) := by
  by_cases hopen : ∃ place, world.disk.filePlace system.cwd path = some place ∧
      system.refuses world.disk (.truncate place) = none
  · right
    rcases hopen with ⟨opened, hplace, hallowed⟩
    refine ⟨opened, hplace, hallowed, ?_⟩
    rw [outcome_writeFile hplace hallowed]
    cases hwrite : system.refuses (world.disk.after (.truncate opened))
        (.write opened bytes) with
    | none =>
        right
        exact ⟨rfl, onDisk_eq_iff.mpr ⟨_, outcome_writeBytes_of_none hwrite, rfl⟩⟩
    | some error =>
        left
        exact ⟨error, _, rfl,
          onDisk_eq_iff.mpr ⟨_, outcome_writeBytes_of_some hwrite, rfl⟩⟩
  · left
    rcases hrun : outcome
      (onDisk (openFile system.refuses .truncate system.cwd path)) world with
        ⟨error | opened, middle⟩
    · refine ⟨error, ?_, fun place hplace hallowed =>
        hopen ⟨place, hplace, hallowed⟩⟩
      rcases onDisk_eq_iff.mp hrun with ⟨disk, hfile, hmiddle⟩
      rw [openFile_eq_error hfile] at hmiddle
      rw [writeFile_eq, outcome_bind_of_error hrun, hmiddle]
    · rcases onDisk_eq_iff.mp hrun with ⟨disk, hfile, _⟩
      rcases openFile_eq_ok_iff.mp hfile with ⟨hplace, hallowed, _⟩
      exact absurd ⟨opened, hplace, hallowed⟩ hopen

theorem writeFile_eq_ok {path : Str} {bytes : Bytes} {result : PUnit}
    (hrun : outcome (writeFile system path bytes) world =
      (.ok result, final)) :
    ∃ place, world.disk.filePlace system.cwd path = some place ∧
      final = { world with
        disk := (world.disk.after (.truncate place)).after
          (.write place bytes) } := by
  rcases writeFile_cases system path bytes world with
    ⟨error, hfail, _⟩ | ⟨opened, hplace, _, ⟨error, part, _, hfail⟩ | ⟨_, hok⟩⟩
  · rw [hrun] at hfail
    cases hfail
  · rw [hrun] at hfail
    cases hfail
  · rw [hrun, Prod.mk.injEq] at hok
    exact ⟨opened, hplace, hok.2⟩

theorem leaves_appendLine {P : Effect → Prop} {path : Str}
    {line : Except Error Str}
    (hplace : ∀ place, world.disk.filePlace system.cwd path = some place →
      P (.openAppend place) ∧ ∀ bytes, P (.append place bytes)) :
    Leaves P world (outcome (appendLine system path line) world).2 := by
  rw [appendLine]
  apply leaves_opened
  intro place hfile
  rcases hplace place hfile with ⟨hopen, hbytes⟩
  refine ⟨hopen, ?_⟩
  apply Keeps.bind Leaves.trans (Keeps.lift Leaves.refl line)
  intro text
  apply Keeps.bind Leaves.trans (Keeps.lift Leaves.refl _)
  intro bytes world
  exact leaves_onDisk (grows_writeBytes hbytes bytes _)

/-- The file can be opened, and the line can be made and encoded. -/
structure Opens (system : System F) (disk : Disk) (path : Str)
    (line : Except Error Str) (place : List Str) (bytes : Bytes) : Prop where
  found : disk.filePlace system.cwd path = some place
  allowed : system.refuses disk (.openAppend place) = none
  encoded : ∃ text, line = .ok text ∧ encodeText text = .ok bytes

/-- The operating system takes the whole line. -/
def Takes (system : System F) (disk : Disk) (place : List Str)
    (bytes : Bytes) : Prop :=
  system.refuses (disk.after (.openAppend place)) (.append place bytes) = none

/-- What is written of a line that the operating system refuses. -/
def partTaken (system : System F) (disk : Disk) (place : List Str)
    (bytes : Bytes) : Bytes :=
  bytes.take (system.accepts (disk.after (.openAppend place))
    (.append place bytes))

/-- The line can be made, encoded and written to the file. -/
def Appends (system : System F) (disk : Disk) (path : Str)
    (line : Except Error Str) : Prop :=
  ∃ place bytes, Opens system disk path line place bytes ∧
    Takes system disk place bytes

/-- Neither a file is overwritten nor are bytes added to one. -/
def Effect.Harmless : Effect → Prop
  | .mkdir _ | .openAppend _ => True
  | _ => False

theorem leaves_makeMissing_harmless (path : Str) :
    Leaves Effect.Harmless world (outcome (makeMissing system path) world).2 :=
  leaves_makeMissing fun _ _ => Or.inr trivial

/-- With the file open and the line encoded only the write is left. -/
theorem outcome_appendLine {path : Str} {line : Except Error Str}
    {place : List Str} {bytes : Bytes}
    (hopens : Opens system world.disk path line place bytes) :
    outcome (appendLine system path line) world =
      outcome (onDisk (writeBytes system.refuses system.accepts
          (.append place) bytes))
        { world with disk := world.disk.after (.openAppend place) } := by
  rcases hopens with ⟨hplace, hallowed, text, hline, hencode⟩
  have hopened : outcome
      (onDisk (openFile system.refuses .openAppend system.cwd path)) world =
        (.ok place,
          { world with disk := world.disk.after (.openAppend place) }) :=
    onDisk_eq_iff.mpr
      ⟨_, openFile_eq_ok_iff.mpr ⟨hplace, hallowed, rfl⟩, rfl⟩
  rw [appendLine, outcome_bind_of_ok hopened, outcome_lift_bind_of_ok hline,
    outcome_lift_bind_of_ok hencode]

theorem outcome_appendLine_of_takes {path : Str} {line : Except Error Str}
    {place : List Str} {bytes : Bytes}
    (hopens : Opens system world.disk path line place bytes)
    (htakes : Takes system world.disk place bytes) :
    outcome (appendLine system path line) world =
      (.ok ⟨⟩, { world with
        disk := (world.disk.after (.openAppend place)).after
          (.append place bytes) }) := by
  rw [outcome_appendLine hopens, onDisk_eq_iff]
  exact ⟨_, outcome_writeBytes_of_none htakes, rfl⟩

theorem outcome_appendLine_of_not_takes {path : Str}
    {line : Except Error Str} {place : List Str} {bytes : Bytes}
    (hopens : Opens system world.disk path line place bytes)
    (htakes : ¬Takes system world.disk place bytes) :
    ∃ error, outcome (appendLine system path line) world =
      (.error error, { world with
        disk := (world.disk.after (.openAppend place)).afterPart
          (.append place) (partTaken system world.disk place bytes) }) := by
  rcases Option.ne_none_iff_exists'.mp htakes with ⟨error, hrefused⟩
  refine ⟨error, ?_⟩
  rw [outcome_appendLine hopens, onDisk_eq_iff]
  exact ⟨_, outcome_writeBytes_of_some hrefused, rfl⟩

theorem Opens.unique {disk : Disk} {path : Str} {line : Except Error Str}
    {place place' : List Str} {bytes bytes' : Bytes}
    (hopens : Opens system disk path line place bytes)
    (hopens' : Opens system disk path line place' bytes') :
    place = place' ∧ bytes = bytes' := by
  rcases hopens with ⟨hplace, _, text, hline, hencode⟩
  rcases hopens' with ⟨hplace', _, text', hline', hencode'⟩
  rw [hplace, Option.some.injEq] at hplace'
  rw [hline, Except.ok.injEq] at hline'
  rw [← hline', hencode, Except.ok.injEq] at hencode'
  exact ⟨hplace', hencode'⟩

/-- The file is not opened or at most created, or only the write is left. -/
theorem appendLine_cases (system : System F) (path : Str)
    (line : Except Error Str) (world : World F) :
    (∃ error final, outcome (appendLine system path line) world =
        (.error error, final) ∧
      (final = world ∨
        ∃ place, world.disk.filePlace system.cwd path = some place ∧
          final = { world with
            disk := world.disk.after (.openAppend place) }) ∧
      ∀ place bytes, ¬Opens system world.disk path line place bytes) ∨
      ∃ place bytes, Opens system world.disk path line place bytes := by
  by_cases hopens : ∃ place bytes,
      Opens system world.disk path line place bytes
  · exact Or.inr hopens
  left
  simp only [not_exists] at hopens
  rcases hopen : outcome
    (onDisk (openFile system.refuses .openAppend system.cwd path)) world with
      ⟨error | place, middle⟩
  · rcases onDisk_eq_iff.mp hopen with ⟨disk, hfile, hmiddle⟩
    rw [openFile_eq_error hfile] at hmiddle
    exact ⟨error, middle, by rw [appendLine, outcome_bind_of_error hopen],
      Or.inl hmiddle, hopens⟩
  rcases onDisk_eq_iff.mp hopen with ⟨disk, hfile, hmiddle⟩
  rcases openFile_eq_ok_iff.mp hfile with ⟨hplace, hallowed, hdisk⟩
  rw [hdisk] at hmiddle
  rw [appendLine, outcome_bind_of_ok hopen]
  cases hline : line with
  | error error =>
      exact ⟨error, middle, rfl, Or.inr ⟨place, hplace, hmiddle⟩, hline ▸ hopens⟩
  | ok text =>
      cases hencode : encodeText text with
      | error error =>
          refine ⟨error, middle, ?_, Or.inr ⟨place, hplace, hmiddle⟩,
            hline ▸ hopens⟩
          rw [outcome_lift_bind_of_ok rfl, hencode]
          rfl
      | ok bytes =>
          exact absurd ⟨hplace, hallowed, text, hline, hencode⟩
            (hopens place bytes)

theorem harmless_openAppend (world : World F) (place : List Str) :
    Leaves Effect.Harmless world
      { world with disk := world.disk.after (.openAppend place) } :=
  ⟨rfl, Grows.after (show Effect.Harmless (.openAppend place) from trivial) _⟩

/-- Without a line that can be written at most an empty file is new. -/
theorem appendLine_of_not_opens {path : Str} {line : Except Error Str}
    (hopens : ∀ place bytes, ¬Opens system world.disk path line place bytes) :
    ∃ error final, outcome (appendLine system path line) world =
      (.error error, final) ∧ Leaves Effect.Harmless world final := by
  rcases appendLine_cases system path line world with
    ⟨error, final, hrun, hfinal, _⟩ | ⟨place, bytes, hopen⟩
  · refine ⟨error, final, hrun, ?_⟩
    rcases hfinal with hfinal | ⟨place, _, hfinal⟩
    · rw [hfinal]
      exact Leaves.refl world
    · rw [hfinal]
      exact harmless_openAppend world place
  · exact absurd hopen (hopens place bytes)

theorem appendLine_eq_ok {path : Str} {line : Except Error Str}
    {result : PUnit}
    (hrun : outcome (appendLine system path line) world =
      (.ok result, final)) :
    ∃ place bytes, Opens system world.disk path line place bytes ∧
      Takes system world.disk place bytes ∧
      final = { world with
        disk := (world.disk.after (.openAppend place)).after
          (.append place bytes) } := by
  rcases appendLine_cases system path line world with
    ⟨error, other, hfail, _⟩ | ⟨place, bytes, hopens⟩
  · rw [hrun] at hfail
    cases hfail
  · by_cases htakes : Takes system world.disk place bytes
    · rw [outcome_appendLine_of_takes hopens htakes, Prod.mk.injEq] at hrun
      exact ⟨place, bytes, hopens, htakes, hrun.2.symm⟩
    · rcases outcome_appendLine_of_not_takes hopens htakes with
        ⟨error, hfail⟩
      rw [hrun] at hfail
      cases hfail

theorem not_appends_of_error {path : Str} {line : Except Error Str}
    {error : Error}
    (hrun : outcome (appendLine system path line) world =
      (.error error, final)) : ¬Appends system world.disk path line := by
  rintro ⟨place, bytes, hopens, htakes⟩
  rw [outcome_appendLine_of_takes hopens htakes] at hrun
  cases hrun

/-- A line that can be made is written and answered, or nothing of it is
written: in all other cases something is left behind. -/
theorem appendLine_settled {start : World F} {path : Str}
    {line : Except Error Str} {answered : Prop}
    (hstart : Leaves Effect.Harmless start world) :
    ((outcome (appendLine system path line) world).1 = .ok ⟨⟩ ∧ answered ∨
      Leaves Effect.Harmless start
        (outcome (appendLine system path line) world).2) ↔
      ∀ place bytes, Opens system world.disk path line place bytes →
        Takes system world.disk place bytes ∧ answered ∨
          ¬Takes system world.disk place bytes ∧
            partTaken system world.disk place bytes = [] := by
  by_cases hopen : ∃ place bytes,
      Opens system world.disk path line place bytes
  · rcases hopen with ⟨place, bytes, hopens⟩
    have hopened := Leaves.trans _ _ _ hstart (harmless_openAppend world place)
    have honly : (∀ place' bytes',
        Opens system world.disk path line place' bytes' →
          Takes system world.disk place' bytes' ∧ answered ∨
            ¬Takes system world.disk place' bytes' ∧
              partTaken system world.disk place' bytes' = []) ↔
        Takes system world.disk place bytes ∧ answered ∨
          ¬Takes system world.disk place bytes ∧
            partTaken system world.disk place bytes = [] := by
      constructor
      · intro hall
        exact hall place bytes hopens
      · intro htakes place' bytes' hopens'
        rcases hopens.unique hopens' with ⟨hplace, hbytes⟩
        rwa [← hplace, ← hbytes]
    have hchanged (part : Bytes) : ¬Leaves Effect.Harmless start
        { world with
          disk := (world.disk.after (.openAppend place)).after
            (.append place part) } := by
      intro hleaves
      exact @effect_between _ _ (fun _ => True) _ _ _ (.append place part)
        hleaves.2.effects hopened.2 (Grows.refl _)
    rw [honly]
    by_cases htakes : Takes system world.disk place bytes
    · rw [outcome_appendLine_of_takes hopens htakes]
      simp [htakes, hchanged bytes]
    · rcases outcome_appendLine_of_not_takes hopens htakes with ⟨error, hfail⟩
      rw [hfail]
      by_cases hpart : partTaken system world.disk place bytes = []
      · rw [Disk.afterPart, if_pos hpart]
        simp [htakes, hpart, hopened]
      · rw [Disk.afterPart, if_neg hpart]
        simp [htakes, hpart, hchanged]
  · simp only [not_exists] at hopen
    rcases appendLine_of_not_opens hopen with ⟨error, final, hfail, hleaves⟩
    have hboth := Leaves.trans _ _ _ hstart hleaves
    rw [hfail]
    simp only [hboth, or_true, true_iff]
    intro place bytes hopens
    exact absurd hopens (hopen place bytes)

theorem keeps_print {P : Effect → Prop} (text : Str) :
    Keeps (Leaves P) (print system text) := by
  intro world
  rw [print]
  split_ifs
  · exact ⟨rfl, Grows.refl world.disk⟩
  · exact Leaves.refl world

theorem leaves_true_makeMissing (path : Str) (world : World F) :
    Leaves (fun _ => True) world (outcome (makeMissing system path) world).2 :=
  leaves_makeMissing fun _ _ => Or.inr trivial

theorem keeps_true_appendLine (path : Str) (line : Except Error Str) :
    Keeps (Leaves fun _ => True) (appendLine system path line) :=
  fun _ => leaves_appendLine fun _ _ => ⟨trivial, fun _ => trivial⟩

theorem keeps_true_writeFile (path : Str) (bytes : Bytes) :
    Keeps (Leaves fun _ => True) (writeFile system path bytes) :=
  fun _ => leaves_writeFile fun _ _ => ⟨trivial, fun _ => trivial⟩

end Miscellaneous.BoxServer
