import Miscellaneous.BoxFailures
import Mathlib.Tactic

/-!
# The pictures of the alarms

The picture of an alarm is stored under the device, the name and the time stamp
of the alarm, and its line is appended to the file of the device.  A later alarm
that has the same path overwrites the picture, and the line stays.  All pictures
are kept exactly if alarms with one path have one picture.
-/

namespace Miscellaneous.BoxServer

open Disks FailingActions PosixPaths PythonBytes PythonJson PythonStrings

variable {F : Type}

section Files

variable {system : System F} {world final : World F} {place : List Str}

/-- The file at the place has the same bytes in both worlds. -/
def LeavesFileAt (place : List Str) (world final : World F) : Prop :=
  LeavesFile place world.disk final.disk

theorem LeavesFileAt.refl (world : World F) : LeavesFileAt place world world :=
  LeavesFile.refl world.disk

theorem LeavesFileAt.trans (first middle last : World F)
    (hfirst : LeavesFileAt place first middle)
    (hsecond : LeavesFileAt place middle last) :
    LeavesFileAt place first last :=
  LeavesFile.trans _ _ _ hfirst hsecond

theorem leavesFileAt_onDisk {α : Type} {action : Action Disk Error α}
    (haction : Keeps (LeavesFile place) action) :
    Keeps (LeavesFileAt place) (onDisk action : Handler F α) :=
  fun world => haction world.disk

theorem leavesFileAt_print (text : Str) :
    Keeps (LeavesFileAt place) (print system text) := by
  intro world
  rw [print]
  split_ifs
  · exact LeavesFile.refl world.disk
  · exact LeavesFileAt.refl world

theorem leavesFileAt_makeMissing (path : Str) :
    Keeps (LeavesFileAt place) (makeMissing system path) := by
  intro world
  rw [makeMissing, outcome_bind_of_ok (outcome_get world)]
  split_ifs
  · exact LeavesFileAt.refl world
  · exact leavesFileAt_onDisk (leavesFile_makedirs _ _) world

theorem leavesFileAt_appendLine {path : Str} (line : Except Error Str)
    (hpath : location system.cwd path ≠ place) :
    Keeps (LeavesFileAt place) (appendLine system path line) := by
  intro world
  apply relates_bind LeavesFileAt.trans
  · exact leavesFileAt_onDisk
      (@leavesFile_openFile _ place .openAppend _ _ hpath) world
  intro opened middle hopen
  have hopened : opened = location system.cwd path := by
    rcases onDisk_eq_iff.mp hopen with ⟨disk, hfile, _⟩
    exact filePlace_eq_some (openFile_eq_ok_iff.mp hfile).1
  apply relates_lift_bind LeavesFileAt.refl
  intro text _
  apply relates_lift_bind LeavesFileAt.refl
  intro bytes _
  apply leavesFileAt_onDisk (leavesFile_writeBytes _ bytes)
  intro part
  rwa [hopened]

/-- A file is left alone by writing the bytes that it has. -/
theorem leavesFileAt_writeFile {path : Str} {bytes : Bytes}
    (hsame : location system.cwd path = place →
      world.disk.content place = some bytes ∧
        ((∀ disk : Disk, system.refuses (disk.after (.truncate place))
            (.write place bytes) = none) ∨
          ∃ final, outcome (writeFile system path bytes) world =
            (.ok ⟨⟩, final))) :
    LeavesFileAt place world (outcome (writeFile system path bytes) world).2 := by
  rcases writeFile_cases system path bytes world with
    ⟨error, hrun, _⟩ | ⟨opened, hplace, _, hopened⟩
  · rw [hrun]
    exact LeavesFileAt.refl world
  rw [filePlace_eq_some hplace] at hopened
  by_cases hother : location system.cwd path = place
  · rcases hsame hother with ⟨hcontent, htaken⟩
    rw [hother] at hopened
    rcases hopened with ⟨error, part, hrefused, hrun⟩ | ⟨_, hrun⟩
    · rcases htaken with htaken | ⟨final, hok⟩
      · rw [htaken] at hrefused
        cases hrefused
      · rw [hrun] at hok
        cases hok
    · rw [hrun]
      refine ⟨?_, fun _ hdirectory => hdirectory⟩
      rw [hcontent]
      exact Function.update_self _ _ _
  · have htruncate := @leavesFile_after place
      (.truncate (location system.cwd path)) (Or.inr hother) world.disk
    rcases hopened with ⟨error, part, _, hrun⟩ | ⟨_, hrun⟩
    · rw [hrun]
      exact LeavesFile.trans _ _ _ htruncate (@leavesFile_afterPart place
        (.write (location system.cwd path)) (fun _ => hother) part _)
    · rw [hrun]
      exact LeavesFile.trans _ _ _ htruncate
        (@leavesFile_after place (.write (location system.cwd path) bytes)
          (Or.inr hother) _)

theorem writeFile_read {path : Str} {bytes : Bytes} {result : PUnit}
    (hrun : outcome (writeFile system path bytes) world =
      (.ok result, final)) :
    final.disk.read system.cwd path = some bytes := by
  rcases writeFile_eq_ok hrun with ⟨opened, hplace, hfinal⟩
  rw [hfinal]
  refine Option.bind_eq_some_iff.mpr ⟨opened, ?_, ?_⟩
  · have hfind := (Option.filter_eq_some_iff.mp hplace).1
    exact @Disk.find_of_isDir opened world.disk
      ((world.disk.after (.truncate opened)).after (.write opened bytes))
      (fun _ hdirectory => hdirectory) _ _ hfind
  · exact Function.update_self _ _ _

theorem appendLine_effects {path : Str} {line : Except Error Str}
    {result : PUnit}
    (hrun : outcome (appendLine system path line) world =
      (.ok result, final)) :
    ∃ place bytes, final.disk.effects =
      world.disk.effects ++ [.openAppend place, .append place bytes] := by
  rcases appendLine_eq_ok hrun with ⟨place, bytes, _, _, hfinal⟩
  refine ⟨place, bytes, ?_⟩
  rw [hfinal]
  simp

end Files

variable [PyRuntime F]

/-! ## Alarms with pictures -/

/-- An alarm with a picture. -/
structure Alarm (F : Type) where
  header : AlarmHeader F
  ts : Value F
  img : Bytes

def Alarm.path (alarm : Alarm F) : Str := alarm.header.imgPath alarm.ts

def Alarm.place (system : System F) (alarm : Alarm F) : List Str :=
  location system.cwd alarm.path

/-- The operating system takes the bytes of the picture when its file is open. -/
def Alarm.Taken (system : System F) (alarm : Alarm F) : Prop :=
  ∀ disk : Disk, system.refuses (disk.after (.truncate (alarm.place system)))
    (.write (alarm.place system) alarm.img) = none

/-- The message is an alarm with this picture. -/
structure Carries (jsonObj : Value F) (alarm : Alarm F) : Prop where
  header : alarmHeader jsonObj = .ok alarm.header
  contains : alarm.header.dataObj.contains (str "alarmResult") = .ok true
  picture : alarmPicture alarm.header.dataObj = .ok (alarm.ts, alarm.img)

section Alarms

variable {system : System F} {world final : World F} {jsonObj : Value F}
  {alarm : Alarm F}

theorem Carries.hasPicture (hcarries : Carries jsonObj alarm) :
    HasPicture jsonObj alarm.header (alarm.ts, alarm.img) :=
  ⟨hcarries.header, hcarries.contains, hcarries.picture⟩

theorem Carries.unique {other : Alarm F} (hcarries : Carries jsonObj alarm)
    (hother : Carries jsonObj other) : alarm = other := by
  rcases hcarries.hasPicture.unique hother.hasPicture with ⟨hheader, hpicture⟩
  rw [Prod.mk.injEq] at hpicture
  rcases alarm with ⟨header, ts, img⟩
  rcases other with ⟨header', ts', img'⟩
  rw [Alarm.mk.injEq]
  exact ⟨hheader, hpicture⟩

theorem Carries.storeAlarmInfoNew_eq (hcarries : Carries jsonObj alarm) :
    outcome (storeAlarmInfoNew system jsonObj) world =
      outcome (storeAlarmResult system alarm.header (alarm.ts, alarm.img))
        world :=
  hcarries.hasPicture.outcome_eq

theorem storeAlarmResult_eq (alarm : Alarm F) :
    storeAlarmResult system alarm.header (alarm.ts, alarm.img) =
      makeMissing system alarm.header.rootDir >>= fun _ =>
        makeMissing system alarm.header.imgDir >>= fun _ =>
          writeFile system alarm.path alarm.img >>= fun _ =>
            appendLine system alarm.header.metaData
              (alarm.header.line system alarm.ts []) := rfl

/-- No line is appended to a picture. -/
theorem metaData_ne_place (system : System F) (header : AlarmHeader F)
    (alarm : Alarm F) :
    location system.cwd header.metaData ≠ alarm.place system := by
  have hmeta : str "meta_data.txt" <:+ header.metaData :=
    isSuffix_pathJoin header.rootDir _
  have hpicture : str ".jpg" <:+ alarm.path :=
    (List.suffix_append alarm.ts.toStr _).trans
      (isSuffix_pathJoin alarm.header.imgDir _)
  exact location_ne_of_isSuffix system.cwd hmeta hpicture (by decide)
    (by decide) (by decide) (by decide) (by decide)

/-- An alarm leaves the picture of an alarm alone, unless its own picture has
the same place and is another one or cannot be written. -/
theorem leavesFileAt_storeAlarmResult (kept : Alarm F)
    (hsame : alarm.place system = kept.place system →
      world.disk.content (kept.place system) = some alarm.img ∧
        (alarm.Taken system ∨ ∃ final,
          outcome (storeAlarmResult system alarm.header (alarm.ts, alarm.img))
            world = (.ok ⟨⟩, final))) :
    LeavesFileAt (kept.place system) world
      (outcome (storeAlarmResult system alarm.header (alarm.ts, alarm.img))
        world).2 := by
  have hfirst := @leavesFileAt_makeMissing F system (kept.place system)
    alarm.header.rootDir world
  apply relates_bind LeavesFileAt.trans hfirst
  intro _ first hroot
  rw [hroot] at hfirst
  have hsecond := @leavesFileAt_makeMissing F system (kept.place system)
    alarm.header.imgDir first
  apply relates_bind LeavesFileAt.trans hsecond
  intro _ second himg
  rw [himg] at hsecond
  have hboth := LeavesFileAt.trans _ _ _ hfirst hsecond
  have hwrite : LeavesFileAt (kept.place system) second
      (outcome (writeFile system alarm.path alarm.img) second).2 := by
    apply leavesFileAt_writeFile
    intro hplace
    have hkept : alarm.place system = kept.place system := hplace
    rcases hsame hkept with ⟨hcontent, hwritten⟩
    refine ⟨hboth.content.trans hcontent, ?_⟩
    rcases hwritten with htaken | ⟨final, hok⟩
    · left
      unfold Alarm.Taken at htaken
      rwa [hkept] at htaken
    · right
      rw [storeAlarmResult_eq, outcome_bind_of_ok hroot,
        outcome_bind_of_ok himg, outcome_bind_eq_ok_iff] at hok
      rcases hok with ⟨_, third, hthird, _⟩
      exact ⟨third, hthird⟩
  apply relates_bind LeavesFileAt.trans hwrite
  intro _ third _
  exact leavesFileAt_appendLine _ (metaData_ne_place system alarm.header kept) third

theorem storeAlarmResult_appends {result : PUnit}
    (hrun : outcome
      (storeAlarmResult system alarm.header (alarm.ts, alarm.img)) world =
        (.ok result, final)) :
    ∃ new place line, final.disk.effects = world.disk.effects ++ new ∧
      Effect.append place line ∈ new := by
  rcases storeAlarmResult_eq_ok hrun with
    ⟨first, second, third, hfirst, hsecond, hthird, happend⟩
  have hroot := @leaves_true_makeMissing F system alarm.header.rootDir world
  have hdir := @leaves_true_makeMissing F system alarm.header.imgDir first
  have hwrite := @keeps_true_writeFile F system
    (alarm.header.imgPath alarm.ts) alarm.img second
  rw [hfirst] at hroot
  rw [hsecond] at hdir
  rw [hthird] at hwrite
  rcases (Leaves.trans _ _ _ hroot (Leaves.trans _ _ _ hdir hwrite)).2.effects
    with ⟨before, hbefore, _⟩
  rcases appendLine_effects happend with ⟨place, line, hline⟩
  refine ⟨before ++ [.openAppend place, .append place line], place, line, ?_,
    by simp⟩
  rw [hline, hbefore, List.append_assoc]

/-- No bytes are added to a file before the picture is stored. -/
theorem storeAlarmResult_read (alarm : Alarm F) (world : World F) :
    Leaves (fun effect => ∀ place line, effect ≠ .append place line) world
        (outcome (storeAlarmResult system alarm.header (alarm.ts, alarm.img))
          world).2 ∨
      (outcome (storeAlarmResult system alarm.header (alarm.ts, alarm.img))
        world).2.disk.read system.cwd alarm.path = some alarm.img := by
  have hmake (path : Str) (world : World F) :
      Leaves (fun effect => ∀ place line, effect ≠ .append place line) world
        (outcome (makeMissing system path) world).2 :=
    leaves_makeMissing fun _ _ => Or.inr fun _ _ => by simp
  have hroot := hmake alarm.header.rootDir world
  rw [storeAlarmResult_eq]
  rcases hfirst : outcome (makeMissing system alarm.header.rootDir) world with
    ⟨error | value, first⟩
  · rw [hfirst] at hroot
    rw [outcome_bind_of_error hfirst]
    exact Or.inl hroot
  rw [hfirst] at hroot
  rw [outcome_bind_of_ok hfirst]
  have hdir := hmake alarm.header.imgDir first
  rcases hsecond : outcome (makeMissing system alarm.header.imgDir) first with
    ⟨error | value, second⟩
  · rw [hsecond] at hdir
    rw [outcome_bind_of_error hsecond]
    exact Or.inl (Leaves.trans _ _ _ hroot hdir)
  rw [hsecond] at hdir
  rw [outcome_bind_of_ok hsecond]
  have hwrite : Leaves (fun effect => ∀ place line, effect ≠ .append place line)
      second (outcome (writeFile system alarm.path alarm.img) second).2 :=
    leaves_writeFile fun _ _ => ⟨fun _ _ => by simp, fun _ _ _ => by simp⟩
  rcases hthird : outcome (writeFile system alarm.path alarm.img) second with
    ⟨error | value, third⟩
  · rw [hthird] at hwrite
    rw [outcome_bind_of_error hthird]
    exact Or.inl (Leaves.trans _ _ _ (Leaves.trans _ _ _ hroot hdir) hwrite)
  rw [outcome_bind_of_ok hthird]
  right
  exact (leavesFileAt_appendLine (alarm.header.line system alarm.ts [])
    (metaData_ne_place system alarm.header alarm) third).read
      (writeFile_read hthird)

/-- What is true of the alarms is true of all messages, the others leave every
picture alone. -/
theorem leavesFileAt_storeAlarmInfoNew (kept : Alarm F)
    (hsame : ∀ alarm, Carries jsonObj alarm →
      alarm.place system = kept.place system →
        world.disk.content (kept.place system) = some alarm.img ∧
          (alarm.Taken system ∨ ∃ final,
            outcome (storeAlarmInfoNew system jsonObj) world =
              (.ok ⟨⟩, final))) :
    LeavesFileAt (kept.place system) world
      (outcome (storeAlarmInfoNew system jsonObj) world).2 := by
  rw [storeAlarmInfoNew_eq]
  apply relates_lift_bind LeavesFileAt.refl
  intro header hheader
  apply relates_lift_bind LeavesFileAt.refl
  intro isAlarm hcontains
  split_ifs with halarm
  · subst halarm
    apply relates_lift_bind LeavesFileAt.refl
    rintro ⟨ts, img⟩ hpicture
    have hcarries : Carries jsonObj ⟨header, ts, img⟩ :=
      ⟨hheader, hcontains, hpicture⟩
    have hstore := @leavesFileAt_storeAlarmResult F _ system world
      ⟨header, ts, img⟩ kept
    have hrun := @Carries.storeAlarmInfoNew_eq F _ system world jsonObj _
      hcarries
    rw [← hrun] at hstore ⊢
    exact hstore (hsame _ hcarries)
  · apply relates_lift_bind LeavesFileAt.refl
    intro isStat _
    split_ifs
    · apply relates_lift_bind LeavesFileAt.refl
      intro stat _
      exact Keeps.bind LeavesFileAt.trans (leavesFileAt_makeMissing _)
        (fun _ => leavesFileAt_appendLine _
          (metaData_ne_place system header kept)) world
    · exact leavesFileAt_print _ world

end Alarms

/-! ## Sequences of messages -/

section Sequences

variable (system : System F) (world : World F)

/-- The server after these alarm messages. -/
def afterAlarms (messages : List (Value F)) : World F :=
  serve system world (messages.map fun jsonObj => (alarmPath, jsonObj))

/-- The message is answered at its turn. -/
def Answered (before : List (Value F)) (jsonObj : Value F) : Prop :=
  ∃ final, outcome (doPost system alarmPath jsonObj)
    (afterAlarms system world before) = (.ok ⟨⟩, final)

/-- A line is appended for the message at its turn. -/
def LineAppended (before : List (Value F)) (jsonObj : Value F) : Prop :=
  ∃ new place line, (afterAlarms system world (before ++ [jsonObj])).disk.effects =
      (afterAlarms system world before).disk.effects ++ new ∧
    Effect.append place line ∈ new

/-- The path of every alarm that has a line leads to its picture. -/
def PicturesKept (messages : List (Value F)) : Prop :=
  ∀ before jsonObj after alarm, messages = before ++ jsonObj :: after →
    Carries jsonObj alarm → LineAppended system world before jsonObj →
      (afterAlarms system world messages).disk.read system.cwd alarm.path =
        some alarm.img

/-- An alarm whose picture would overwrite the one of an alarm that has a line
carries the same picture. -/
def SamePictures (messages : List (Value F)) : Prop :=
  ∀ before first between second after alarm other,
    messages = before ++ first :: (between ++ second :: after) →
    Carries first alarm → Carries second other →
    LineAppended system world before first →
    other.place system = alarm.place system → other.img = alarm.img

variable {system world}

theorem afterAlarms_append_singleton (messages : List (Value F))
    (jsonObj : Value F) :
    afterAlarms system world (messages ++ [jsonObj]) =
      (outcome (storeAlarmInfoNew system jsonObj)
        (afterAlarms system world messages)).2 := by
  rw [← handlePost_alarmPath, ← outcome_doPost_world]
  simp [afterAlarms, serve]

theorem Answered.storeAlarmInfoNew_eq_ok {before : List (Value F)}
    {jsonObj : Value F} (hanswered : Answered system world before jsonObj) :
    ∃ final, outcome (storeAlarmInfoNew system jsonObj)
      (afterAlarms system world before) = (.ok ⟨⟩, final) := by
  rcases hanswered with ⟨final, hrun⟩
  rw [doPost_eq_ok_iff, handlePost_alarmPath] at hrun
  exact ⟨final, hrun.1⟩

theorem Answered.lineAppended {before : List (Value F)} {jsonObj : Value F}
    {alarm : Alarm F} (hcarries : Carries jsonObj alarm)
    (hanswered : Answered system world before jsonObj) :
    LineAppended system world before jsonObj := by
  rcases hanswered.storeAlarmInfoNew_eq_ok with ⟨final, hrun⟩
  unfold LineAppended
  rw [afterAlarms_append_singleton, hrun]
  rw [hcarries.storeAlarmInfoNew_eq] at hrun
  exact storeAlarmResult_appends hrun

/-- When a line is appended, or a part of it, the picture is stored. -/
theorem LineAppended.read {before : List (Value F)} {jsonObj : Value F}
    {alarm : Alarm F} (hcarries : Carries jsonObj alarm)
    (hline : LineAppended system world before jsonObj) :
    (afterAlarms system world (before ++ [jsonObj])).disk.read system.cwd
      alarm.path = some alarm.img := by
  rcases hline with ⟨new, place, line, heffects, hline⟩
  rw [afterAlarms_append_singleton, hcarries.storeAlarmInfoNew_eq] at heffects ⊢
  rcases @storeAlarmResult_read F _ system alarm
    (afterAlarms system world before) with hleaves | hread
  · rcases hleaves.2.effects with ⟨other, hother, hnone⟩
    rw [heffects, List.append_cancel_left_eq] at hother
    exact absurd rfl (hnone _ (hother ▸ hline) place line)
  · exact hread

/-- A picture stays as long as no message overwrites it with another one. -/
theorem read_afterAlarms {kept : Alarm F} {before after : List (Value F)}
    (hread : (afterAlarms system world before).disk.read system.cwd kept.path =
      some kept.img)
    (hsame : ∀ between jsonObj rest other, after = between ++ jsonObj :: rest →
      Carries jsonObj other → other.place system = kept.place system →
        other.img = kept.img ∧
          (other.Taken system ∨
            Answered system world (before ++ between) jsonObj)) :
    (afterAlarms system world (before ++ after)).disk.read system.cwd
      kept.path = some kept.img := by
  induction after using List.reverseRecOn with
  | nil => rwa [List.append_nil]
  | append_singleton after jsonObj ih =>
      have hmiddle := ih fun between second rest other hsplit =>
        hsame between second (rest ++ [jsonObj]) other (by simp [hsplit])
      rw [← List.append_assoc, afterAlarms_append_singleton]
      have hleaves := @leavesFileAt_storeAlarmInfoNew F _ system
        (afterAlarms system world (before ++ after)) jsonObj kept ?_
      · exact hleaves.read hmiddle
      · intro other hcarries hplace
        rcases hsame after jsonObj [] other rfl hcarries hplace with
          ⟨himg, hwritten⟩
        rw [himg]
        exact ⟨Disk.content_of_read hmiddle,
          hwritten.imp_right Answered.storeAlarmInfoNew_eq_ok⟩

/-- If the bytes of every open picture can be written, or all messages are
answered, alarms whose pictures have one place must have one picture. -/
theorem picturesKept_iff (system : System F) (world : World F)
    (messages : List (Value F)) :
    (SamePictures system world messages →
        (∀ jsonObj ∈ messages, ∀ alarm, Carries jsonObj alarm →
          alarm.Taken system) →
        PicturesKept system world messages) ∧
      ((∀ before jsonObj after, messages = before ++ jsonObj :: after →
          Answered system world before jsonObj) →
        (PicturesKept system world messages ↔
          SamePictures system world messages)) := by
  have hkept (hsame : SamePictures system world messages)
      (hwritten : ∀ before jsonObj after alarm,
        messages = before ++ jsonObj :: after → Carries jsonObj alarm →
          alarm.Taken system ∨ Answered system world before jsonObj) :
      PicturesKept system world messages := by
    intro before jsonObj after alarm hsplit hcarries hline
    have hstay := @read_afterAlarms F _ system world alarm
      (before ++ [jsonObj]) after (hline.read hcarries) ?_
    · rw [hsplit]
      rwa [List.append_assoc, List.singleton_append] at hstay
    · intro between second rest other hafter hother hplace
      rw [hafter] at hsplit
      constructor
      · exact hsame before jsonObj between second rest alarm other hsplit
          hcarries hother hline hplace
      · exact hwritten (before ++ [jsonObj] ++ between) second rest other
          (by simp [hsplit]) hother
  constructor
  · intro hsame htaken
    apply hkept hsame
    intro before jsonObj after alarm hsplit hcarries
    exact Or.inl (htaken jsonObj (by simp [hsplit]) alarm hcarries)
  · intro hall
    constructor
    · intro hpictures before first between second after alarm other hsplit
        hfirst hsecond hline hplace
      have hread := hpictures before first _ alarm hsplit hfirst hline
      have hsplit' : messages =
          (before ++ first :: between) ++ second :: after := by
        simp [hsplit]
      have hread' := hpictures _ second after other hsplit' hsecond
        ((hall _ second after hsplit').lineAppended hsecond)
      -- the place has one content in the end
      have hcontent : _ = some alarm.img := Disk.content_of_read hread
      have hcontent' : _ = some other.img := Disk.content_of_read hread'
      rw [← Alarm.place] at hcontent hcontent'
      rw [hplace, hcontent, Option.some.injEq] at hcontent'
      exact hcontent'.symm
    · intro hsame
      exact hkept hsame fun before jsonObj after _ hsplit _ =>
        Or.inr (hall before jsonObj after hsplit)

end Sequences

/-! ## Two alarms of one device -/

def pictureData (img : String) : Value Empty :=
  .dict [
    (str "device", .dict [(str "deviceId", .str (str "cam")),
      (str "deviceMac", .str []), (str "deviceIp", .str [])]),
    (str "alarmResult", .dict [(str "timestamp", .int 1600000000000),
      (str "img", .str (str img))])]

def pictureAlarm (seqId : ℤ) (img : String) : Value Empty :=
  .dict [(str "name", .str (str "intrusion")), (str "seqId", .int seqId),
    (str "data", pictureData img)]

def carriedAlarm (img : String) (bytes : Bytes) : Alarm Empty where
  header :=
    { msgName := str "intrusion", dataObj := pictureData img, devId := str "cam",
      devMac := .str (str "default"), devIp := .str (str "default") }
  ts := .int 1600000000000
  img := bytes

theorem carries_pictureAlarm (seqId : ℤ) {img : String} {bytes : Bytes}
    (hbytes : b64decode (.str (str img) : Value Empty) = .ok bytes) :
    Carries (pictureAlarm seqId img) (carriedAlarm img bytes) := by
  refine ⟨rfl, rfl, ?_⟩
  change (do
    let img ← b64decode (.str (str img) : Value Empty)
    return ((.int 1600000000000 : Value Empty), img)) = _
  rw [hbytes]
  rfl

theorem picturesKept_iff_equal :
    PicturesKept plainSystem (initial [] plainDisk)
      [pictureAlarm 1 "aGk=", pictureAlarm 2 "aGk="] := by
  have himg {jsonObj : Value Empty} {alarm : Alarm Empty}
      (hmem : jsonObj ∈ [pictureAlarm 1 "aGk=", pictureAlarm 2 "aGk="])
      (hcarries : Carries jsonObj alarm) :
      alarm = carriedAlarm "aGk=" [104, 105] := by
    rcases List.mem_pair.mp hmem with hsame | hsame
    · exact (hsame ▸ hcarries).unique (carries_pictureAlarm 1 rfl)
    · exact (hsame ▸ hcarries).unique (carries_pictureAlarm 2 rfl)
  apply (picturesKept_iff plainSystem (initial [] plainDisk) _).1
  · intro before first between second after alarm other hsplit hfirst hsecond
      _ _
    rw [himg (by simp [hsplit]) hfirst, himg (by simp [hsplit]) hsecond]
  · intro _ _ _ _ _
    rfl

/-- The second alarm has a number and a picture of its own. -/
theorem picturesKept_fails :
    ¬∀ (system : System Empty) (tasks : List Str) (disk : Disk)
        (messages : List (Value Empty)),
      (∀ jsonObj ∈ messages, ∃ alarm, Carries jsonObj alarm ∧
        slash ∉ alarm.header.devId ∧ alarm.header.devId ≠ dot ∧
        alarm.header.devId ≠ dotDot) →
      PicturesKept system (initial tasks disk) messages := by
  intro hall
  have hfirst := @carries_pictureAlarm 1 "aGk=" [104, 105] rfl
  have hsecond := @carries_pictureAlarm 2 "aG8=" [104, 111] rfl
  have hkept := hall plainSystem [] plainDisk
    [pictureAlarm 1 "aGk=", pictureAlarm 2 "aG8="] ?_
  · have hread := hkept [] _ _ _ rfl hfirst
      (Answered.lineAppended hfirst ⟨_, rfl⟩)
    have hread' := hkept [pictureAlarm 1 "aGk="] _ [] _ rfl hsecond
      (Answered.lineAppended hsecond ⟨_, rfl⟩)
    have hpath : (carriedAlarm "aGk=" [104, 105]).path =
        (carriedAlarm "aG8=" [104, 111]).path := rfl
    rw [hpath, hread'] at hread
    exact absurd hread (by decide)
  · intro jsonObj hmem
    rcases List.mem_pair.mp hmem with rfl | rfl
    · exact ⟨_, hfirst, by decide, by decide, by decide⟩
    · exact ⟨_, hsecond, by decide, by decide, by decide⟩

end Miscellaneous.BoxServer
