import Miscellaneous.BoxConfinement
import Miscellaneous.BoxPictures
import Mathlib.Tactic

/-!
# The lines in the files of the devices

Only pictures are overwritten, and their names end in ".jpg".  Whatever is
posted, in whatever order: what has been added to any other file is exactly the
lines of the alarms whose handlers have come to their end, and beginnings of
lines whose handlers have failed, in the order of their requests.
-/

namespace Miscellaneous.BoxServer

open Disks FailingActions PosixPaths PythonBytes PythonJson PythonStrings

variable {F : Type}

/-- The bytes of a file, if there is one. -/
def logAt (place : List Str) (world : World F) : Bytes :=
  (world.disk.content place).getD []

def jpg : Str := str ".jpg"

/-- The name of the place is not one of a picture. -/
def NotPicture (place : List Str) : Prop :=
  ∀ piece, place.getLast? = some piece → ¬jpg <:+ piece

def KeepsLog (place : List Str) (world final : World F) : Prop :=
  logAt place final = logAt place world

section Files

variable {system : System F} {world final : World F} {place : List Str}

theorem KeepsLog.refl (world : World F) : KeepsLog place world world := rfl

theorem KeepsLog.trans (first middle last : World F)
    (hfirst : KeepsLog place first middle)
    (hsecond : KeepsLog place middle last) : KeepsLog place first last :=
  Eq.trans hsecond hfirst

theorem LeavesFileAt.keepsLog (hleaves : LeavesFileAt place world final) :
    KeepsLog place world final := by
  rw [KeepsLog, logAt, hleaves.content, logAt]

theorem keepsLog_print (system : System F) (text : Str) :
    Keeps (KeepsLog place) (print system text) :=
  fun world => (leavesFileAt_print text world).keepsLog

theorem keepsLog_makeMissing (system : System F) (path : Str) :
    Keeps (KeepsLog place) (makeMissing system path) :=
  fun world => (leavesFileAt_makeMissing path world).keepsLog

/-- A picture is somewhere else. -/
theorem keepsLog_writeFile (system : System F) (hplace : NotPicture place)
    {path : Str} (hpath : jpg <:+ path) (bytes : Bytes) :
    Keeps (KeepsLog place) (writeFile system path bytes) := by
  intro world
  have hne : location system.cwd path ≠ place := by
    obtain ⟨directory, piece, hlocation, hpiece⟩ :=
      location_of_isSuffix system.cwd hpath (by decide) (by decide)
    rintro rfl
    exact hplace piece (by rw [hlocation, List.getLast?_concat]) hpiece
  exact (leavesFileAt_writeFile fun hsame => absurd hsame hne).keepsLog

theorem logAt_after_openAppend (disk : Disk) (opened : List Str) :
    ((disk.after (.openAppend opened)).content place).getD [] =
      (disk.content place).getD [] := by
  by_cases hsame : place = opened
  · subst hsame
    simp [Disk.after]
  · simp [Disk.after, hsame]

theorem logAt_after_append (disk : Disk) (opened : List Str) (bytes : Bytes) :
    ((disk.after (.append opened bytes)).content place).getD [] =
      (disk.content place).getD [] ++ if opened = place then bytes else [] := by
  by_cases hsame : opened = place
  · subst hsame
    simp [Disk.after]
  · simp [Disk.after, hsame, Ne.symm hsame]

/-- What a line adds to the file at the place. -/
def lineBytesAt (system : System F) (place : List Str) (path : Str)
    (line : Except Error Str) : Bytes :=
  match line >>= encodeText with
  | .ok bytes => if location system.cwd path = place then bytes else []
  | .error _ => []

theorem Opens.lineBytesAt_eq {path : Str} {line : Except Error Str}
    {opened : List Str} {bytes : Bytes} {disk : Disk}
    (hopens : Opens system disk path line opened bytes) :
    lineBytesAt system place path line = if opened = place then bytes else [] := by
  rcases hopens with ⟨hfound, _, text, hline, hencode⟩
  rw [lineBytesAt, hline, filePlace_eq_some hfound]
  simp only [bind, Except.bind, hencode]

theorem logAt_afterPart (disk : Disk) (opened : List Str) (part : Bytes) :
    ((disk.afterPart (.append opened) part).content place).getD [] =
      (disk.content place).getD [] ++ if opened = place then part else [] := by
  rw [Disk.afterPart]
  split_ifs with hpart hsame hsame
  · rw [hpart, List.append_nil]
  · rw [List.append_nil]
  · rw [logAt_after_append, if_pos hsame]
  · rw [logAt_after_append, if_neg hsame]

/-- The file has what it had and then the line, or the beginning of it if the
call fails. -/
theorem logAt_appendLine (system : System F) (place : List Str) (path : Str)
    (line : Except Error Str) (world : World F) :
    ∃ piece, logAt place (outcome (appendLine system path line) world).2 =
        logAt place world ++ piece ∧
      piece <+: lineBytesAt system place path line ∧
      ((outcome (appendLine system path line) world).1 = .ok ⟨⟩ →
        piece = lineBytesAt system place path line) := by
  rcases appendLine_cases system path line world with
    ⟨error, final, hrun, hfinal, _⟩ | ⟨opened, bytes, hopens⟩
  · refine ⟨[], ?_, List.nil_prefix, ?_⟩
    · rw [hrun, List.append_nil]
      rcases hfinal with hfinal | ⟨opened, _, hfinal⟩
      · rw [hfinal]
      · rw [hfinal]
        exact logAt_after_openAppend world.disk opened
    · rw [hrun]
      intro hok
      cases hok
  rw [hopens.lineBytesAt_eq]
  by_cases htakes : Takes system world.disk opened bytes
  · refine ⟨_, ?_, List.prefix_refl _, fun _ => rfl⟩
    rw [outcome_appendLine_of_takes hopens htakes]
    simp only [logAt, logAt_after_append, logAt_after_openAppend]
  · rcases outcome_appendLine_of_not_takes hopens htakes with ⟨error, hrun⟩
    refine ⟨if opened = place then
      partTaken system world.disk opened bytes else [], ?_, ?_, ?_⟩
    · rw [hrun]
      simp only [logAt, logAt_afterPart, logAt_after_openAppend]
    · split_ifs
      · exact List.take_prefix _ bytes
      · exact List.prefix_refl _
    · rw [hrun]
      intro hok
      cases hok

/-- A line after something that keeps the log. -/
theorem logAt_bind_appendLine {before : Handler F PUnit}
    (hbefore : Keeps (KeepsLog place) before) (path : Str)
    (line : Except Error Str) (world : World F) :
    ∃ piece, logAt place
        (outcome (before >>= fun _ => appendLine system path line) world).2 =
          logAt place world ++ piece ∧
      piece <+: lineBytesAt system place path line ∧
      ((outcome (before >>= fun _ => appendLine system path line) world).1 =
          .ok ⟨⟩ → piece = lineBytesAt system place path line) := by
  have hkeeps := hbefore world
  rcases hrun : outcome before world with ⟨error | value, middle⟩
  · rw [hrun] at hkeeps
    rw [outcome_bind_of_error hrun]
    refine ⟨[], ?_, List.nil_prefix, fun hok => by cases hok⟩
    rw [List.append_nil]
    exact hkeeps
  · rw [hrun] at hkeeps
    rw [outcome_bind_of_ok hrun, ← hkeeps]
    exact logAt_appendLine system place path line middle

end Files

variable [PyRuntime F]

/-! ## The line of an alarm -/

/-- The file that an alarm is logged in, and the bytes of its line. -/
def alarmLine (system : System F) (jsonObj : Value F) :
    Except Error (Option (Str × Bytes)) := do
  let header ← alarmHeader jsonObj
  if ← header.dataObj.contains (str "alarmResult") then
    let (ts, _) ← alarmPicture header.dataObj
    let text ← header.line system ts []
    return some (header.metaData, ← encodeText text)
  else if ← header.dataObj.contains (str "personStatResult") then
    let (ts, more) ← personStat header.dataObj
    let text ← header.line system ts more
    return some (header.metaData, ← encodeText text)
  else return none

/-- What of it is appended to the file at the place. -/
def alarmLineAt (system : System F) (place : List Str) (jsonObj : Value F) :
    Bytes :=
  match alarmLine system jsonObj with
  | .ok (some (path, bytes)) =>
      if location system.cwd path = place then bytes else []
  | _ => []

section Alarms

variable {system : System F} {world final : World F} {place : List Str}

theorem jpg_isSuffix_imgPath (header : AlarmHeader F) (ts : Value F) :
    jpg <:+ header.imgPath ts :=
  (List.suffix_append _ _).trans (isSuffix_pathJoin _ _)

theorem keepsLog_storePicture (system : System F) (hplace : NotPicture place)
    (header : AlarmHeader F) (picture : Value F × Bytes) :
    Keeps (KeepsLog place)
      (makeMissing system header.rootDir >>= fun _ =>
        makeMissing system header.imgDir >>= fun _ =>
          writeFile system (header.imgPath picture.1) picture.2) :=
  Keeps.bind KeepsLog.trans (keepsLog_makeMissing system _) fun _ =>
    Keeps.bind KeepsLog.trans (keepsLog_makeMissing system _) fun _ =>
      keepsLog_writeFile system hplace (jpg_isSuffix_imgPath header _) _

theorem storeAlarmResult_eq_append (header : AlarmHeader F)
    (picture : Value F × Bytes) :
    storeAlarmResult system header picture =
      (makeMissing system header.rootDir >>= fun _ =>
        makeMissing system header.imgDir >>= fun _ =>
          writeFile system (header.imgPath picture.1) picture.2) >>= fun _ =>
        appendLine system header.metaData
          (header.line system picture.1 []) := by
  simp only [bind_assoc]
  rfl

theorem HasPicture.alarmLineAt_eq {jsonObj : Value F}
    {header : AlarmHeader F} {picture : Value F × Bytes}
    (hhas : HasPicture jsonObj header picture) :
    alarmLineAt system place jsonObj = lineBytesAt system place header.metaData
      (header.line system picture.1 []) := by
  rcases hhas with ⟨hhead, hisAlarm, hread⟩
  simp only [alarmLineAt, alarmLine, lineBytesAt, hhead, hisAlarm, hread, bind,
    Except.bind, pure, Except.pure, if_true]
  cases header.line system picture.1 [] with
  | error error => rfl
  | ok text =>
      dsimp only
      cases encodeText text with
      | error error => rfl
      | ok bytes => rfl

theorem HasStat.alarmLineAt_eq {jsonObj : Value F} {header : AlarmHeader F}
    {stat : Value F × List (Value F)} (hhas : HasStat jsonObj header stat) :
    alarmLineAt system place jsonObj = lineBytesAt system place header.metaData
      (header.line system stat.1 stat.2) := by
  rcases hhas with ⟨hhead, hnotAlarm, hisStat, hread⟩
  simp only [alarmLineAt, alarmLine, lineBytesAt, hhead, hnotAlarm, hisStat,
    hread, bind, Except.bind, pure, Except.pure, if_true, Bool.false_eq_true,
    if_false]
  cases header.line system stat.1 stat.2 with
  | error error => rfl
  | ok text =>
      dsimp only
      cases encodeText text with
      | error error => rfl
      | ok bytes => rfl

theorem alarmLineAt_eq_nil {jsonObj : Value F}
    (hpicture : ∀ header picture, ¬HasPicture jsonObj header picture)
    (hstat : ∀ header stat, ¬HasStat jsonObj header stat) :
    alarmLineAt system place jsonObj = [] := by
  rw [alarmLineAt]
  split
  · rename_i path bytes hline
    exfalso
    rcases bind_eq_ok_iff.mp hline with ⟨header, hhead, hline⟩
    rcases bind_eq_ok_iff.mp hline with ⟨isAlarm, hisAlarm, hline⟩
    split_ifs at hline with halarm
    · subst halarm
      rcases bind_eq_ok_iff.mp hline with ⟨picture, hread, _⟩
      exact hpicture header picture ⟨hhead, hisAlarm, hread⟩
    · rw [Bool.not_eq_true] at halarm
      subst halarm
      rcases bind_eq_ok_iff.mp hline with ⟨isStat, hisStat, hline⟩
      split_ifs at hline with hone
      · subst hone
        rcases bind_eq_ok_iff.mp hline with ⟨stat, hread, _⟩
        exact hstat header stat ⟨hhead, hisAlarm, hisStat, hread⟩
      · cases hline
  · rfl

/-- An alarm adds its line, or the beginning of it if its handler fails. -/
theorem logAt_storeAlarmInfoNew (hplace : NotPicture place)
    (jsonObj : Value F) (world : World F) :
    ∃ piece, logAt place
        (outcome (storeAlarmInfoNew system jsonObj) world).2 =
          logAt place world ++ piece ∧
      piece <+: alarmLineAt system place jsonObj ∧
      ((outcome (storeAlarmInfoNew system jsonObj) world).1 = .ok ⟨⟩ →
        piece = alarmLineAt system place jsonObj) := by
  by_cases hpicture : ∃ header picture, HasPicture jsonObj header picture
  · rcases hpicture with ⟨header, picture, hhas⟩
    rw [hhas.outcome_eq, hhas.alarmLineAt_eq, storeAlarmResult_eq_append]
    exact logAt_bind_appendLine
      (keepsLog_storePicture system hplace header picture) _ _ world
  simp only [not_exists] at hpicture
  by_cases hstat : ∃ header stat, HasStat jsonObj header stat
  · rcases hstat with ⟨header, stat, hhas⟩
    rw [hhas.outcome_eq, hhas.alarmLineAt_eq]
    exact logAt_bind_appendLine (keepsLog_makeMissing system header.rootDir)
      _ _ world
  simp only [not_exists] at hstat
  rw [alarmLineAt_eq_nil hpicture hstat]
  refine ⟨[], ?_, List.prefix_refl _, fun _ => rfl⟩
  rw [List.append_nil]
  exact keeps_storeAlarmInfoNew KeepsLog.refl (keepsLog_print system _)
    hpicture hstat world

/-! ## The other requests -/

theorem jpg_isSuffix_of_facePictures {curOutputDir : Str}
    {det trackId attr : Value F} {small background : Str × Bytes}
    (hpictures : facePictures curOutputDir det trackId attr =
      .ok (small, background)) :
    jpg <:+ small.1 ∧ jpg <:+ background.1 := by
  have hsuffix (name ending : Str) (hending : jpg <:+ ending) :
      jpg <:+ pathJoin curOutputDir (name ++ ending) :=
    (hending.trans (List.suffix_append name ending)).trans
      (isSuffix_pathJoin _ _)
  unfold facePictures at hpictures
  repeat (rcases bind_eq_ok_iff.mp hpictures with ⟨_, -, hpictures⟩)
  cases hpictures
  exact ⟨hsuffix _ _ (by decide), hsuffix _ _ (by decide)⟩

theorem keepsLog_storeFace (hplace : NotPicture place) (curOutputDir : Str)
    (det trackId attr : Value F) :
    Keeps (KeepsLog place) (storeFace system curOutputDir det trackId attr) := by
  rw [storeFace_eq]
  apply Keeps.lift_bind KeepsLog.refl
  intro classId _
  split_ifs
  · apply Keeps.lift_bind KeepsLog.refl
    rintro ⟨small, background⟩ hpictures
    rcases jpg_isSuffix_of_facePictures hpictures with ⟨hsmall, hbackground⟩
    apply Keeps.bind KeepsLog.trans (keepsLog_writeFile system hplace hsmall _)
    intro _
    apply Keeps.bind KeepsLog.trans (keepsLog_print system _)
    intro _
    apply Keeps.bind KeepsLog.trans
      (keepsLog_writeFile system hplace hbackground _)
    intro _
    exact keepsLog_print system _
  · exact Keeps.pure KeepsLog.refl _

theorem keepsLog_storeFaceVideoStreamResult (hplace : NotPicture place)
    (jsonObj : Value F) :
    Keeps (KeepsLog place) (storeFaceVideoStreamResult system jsonObj) := by
  rw [storeFaceVideoStreamResult_eq]
  apply Keeps.lift_bind KeepsLog.refl
  intro dataObj _
  apply Keeps.lift_bind KeepsLog.refl
  intro item _
  apply Keeps.lift_bind KeepsLog.refl
  intro taskId _
  apply Keeps.bind KeepsLog.trans (keepsLog_makeMissing system _)
  intro _
  apply Keeps.lift_bind KeepsLog.refl
  intro items _
  apply Keeps.lift_bind KeepsLog.refl
  intro detections _
  apply Keeps.forM KeepsLog.refl KeepsLog.trans
  intro det _
  rw [storeDetection_eq]
  apply Keeps.lift_bind KeepsLog.refl
  intro trackId _
  apply Keeps.lift_bind KeepsLog.refl
  intro attrsItem _
  apply Keeps.lift_bind KeepsLog.refl
  intro attrs _
  apply Keeps.forM KeepsLog.refl KeepsLog.trans
  intro attr _
  exact keepsLog_storeFace hplace _ det trackId attr

def KeepsDisk (world final : World F) : Prop := final.disk = world.disk

omit [PyRuntime F] in
theorem KeepsDisk.refl (world : World F) : KeepsDisk world world := rfl

omit [PyRuntime F] in
theorem KeepsDisk.trans (first middle last : World F)
    (hfirst : KeepsDisk first middle) (hsecond : KeepsDisk middle last) :
    KeepsDisk first last :=
  Eq.trans hsecond hfirst

omit [PyRuntime F] in
theorem keepsDisk_print (text : Str) :
    Keeps KeepsDisk (print system text) := by
  intro world
  rw [print]
  split_ifs
  · rfl
  · rfl

theorem keepsDisk_updateTask (entry : Value F × Value F) :
    Keeps KeepsDisk (updateTask system entry) := by
  intro world
  by_cases hhandles : Handles system world.taskUpdateInfo entry
  · rcases updateTask_of_handles hhandles with ⟨final, hrun, -, hdisk⟩
    rw [hrun]
    exact hdisk
  · rcases updateTask_of_not_handles hhandles with ⟨error, hrun⟩
    rw [hrun]
    exact KeepsDisk.refl world

theorem keepsDisk_checkHeartbeat (jsonObj : Value F) :
    Keeps KeepsDisk (checkHeartbeat system jsonObj) := by
  rw [checkHeartbeat_eq]
  apply Keeps.lift_bind KeepsDisk.refl
  intro entries _ world
  rw [outcome_bind_of_ok (outcome_get world)]
  apply Keeps.bind KeepsDisk.trans
  · apply Keeps.forM KeepsDisk.refl KeepsDisk.trans
    intro task _
    rw [reportMissing]
    split_ifs
    · exact Keeps.pure KeepsDisk.refl _
    · exact keepsDisk_print _
  · intro _
    exact Keeps.forM KeepsDisk.refl KeepsDisk.trans fun entry _ =>
      keepsDisk_updateTask entry

/-! ## All requests -/

/-- What a request adds to the file at the place: the line of an alarm, or a
beginning of it if its handler fails. -/
structure Adds (system : System F) (place : List Str) (world : World F)
    (request : Str × Value F) (piece : Bytes) : Prop where
  other : request.1 ≠ alarmPath → piece = []
  begins : piece <+: alarmLineAt system place request.2
  whole : request.1 = alarmPath →
    (outcome (handlePost system request.1 request.2) world).1 = .ok ⟨⟩ →
      piece = alarmLineAt system place request.2

/-- What the requests add in their order. -/
inductive Logged (system : System F) (place : List Str) :
    World F → List (Str × Value F) → Bytes → Prop
  | nil (world : World F) : Logged system place world [] []
  | cons {world : World F} {request : Str × Value F}
      {requests : List (Str × Value F)} {piece rest : Bytes}
      (hpiece : Adds system place world request piece)
      (hrest : Logged system place
        (outcome (doPost system request.1 request.2) world).2 requests rest) :
      Logged system place world (request :: requests) (piece ++ rest)

/-- The paths that have a handler. -/
theorem handlePost_cases (system : System F) (path : Str) (jsonObj : Value F) :
    (path = alarmPath ∧
        handlePost system path jsonObj = storeAlarmInfoNew system jsonObj) ∨
      path ≠ alarmPath ∧
        (handlePost system path jsonObj =
            print system (system.bodyText jsonObj) ∨
          handlePost system path jsonObj = checkHeartbeat system jsonObj ∨
          handlePost system path jsonObj =
            storeFaceVideoStreamResult system jsonObj ∨
          handlePost system path jsonObj = pure ⟨⟩) := by
  by_cases halarm : path = alarmPath
  · left
    rw [halarm]
    exact ⟨rfl, handlePost_alarmPath system jsonObj⟩
  · refine Or.inr ⟨halarm, ?_⟩
    unfold handlePost
    rw [if_neg (show ¬path = str "/api/alarmInfo" from halarm)]
    split_ifs
    · exact Or.inl rfl
    · exact Or.inr (Or.inl rfl)
    · exact Or.inr (Or.inr (Or.inl rfl))
    · exact Or.inr (Or.inr (Or.inr rfl))

theorem logAt_doPost (hplace : NotPicture place) (world : World F)
    (request : Str × Value F) :
    ∃ piece, Adds system place world request piece ∧
      logAt place (outcome (doPost system request.1 request.2) world).2 =
        logAt place world ++ piece := by
  rw [outcome_doPost_world]
  rcases handlePost_cases system request.1 request.2 with
    ⟨hpath, hpost⟩ | ⟨hpath, hpost⟩
  · rcases logAt_storeAlarmInfoNew hplace request.2 world with
      ⟨piece, hlog, hbegins, hwhole⟩
    rw [← hpost] at hlog hwhole
    exact ⟨piece, ⟨fun hother => absurd hpath hother, hbegins, fun _ => hwhole⟩,
      hlog⟩
  · have hkeeps : KeepsLog place world
        (outcome (handlePost system request.1 request.2) world).2 := by
      rcases hpost with hpost | hpost | hpost | hpost
      · rw [hpost]
        exact keepsLog_print system _ world
      · rw [hpost, KeepsLog, logAt, keepsDisk_checkHeartbeat request.2 world,
          logAt]
      · rw [hpost]
        exact keepsLog_storeFaceVideoStreamResult hplace request.2 world
      · rw [hpost]
        exact KeepsLog.refl world
    refine ⟨[], ⟨fun _ => rfl, List.nil_prefix,
      fun halarm => absurd halarm hpath⟩, ?_⟩
    rw [List.append_nil]
    exact hkeeps

/-- Whatever is posted, in whatever order: a file which is not a picture has
what it had and then the lines of the alarms for it, each once and in order, as
far as their handlers have come. -/
theorem logAt_serve (hplace : NotPicture place) (world : World F)
    (requests : List (Str × Value F)) :
    ∃ bytes, Logged system place world requests bytes ∧
      logAt place (serve system world requests) =
        logAt place world ++ bytes := by
  induction requests generalizing world with
  | nil => exact ⟨[], .nil world, (List.append_nil _).symm⟩
  | cons request requests ih =>
      rcases @logAt_doPost F _ system place hplace world request with
        ⟨piece, hpiece, hlog⟩
      rcases ih (outcome (doPost system request.1 request.2) world).2 with
        ⟨rest, hrest, hserve⟩
      rw [hlog, List.append_assoc] at hserve
      exact ⟨piece ++ rest, .cons hpiece hrest, hserve⟩

end Alarms

/-- Two alarms of one device, and a heartbeat for a task that nobody has
registered in between. -/
theorem logAt_serve_two :
    let place := [str "srv", str "alarmData", str "cam", str "meta_data.txt"]
    let requests := [(alarmPath, pictureAlarm 1 "aGk="),
      (heartbeatPath, heartbeatMessage [(str "Face_0", .str (str "noon"))]),
      (alarmPath, pictureAlarm 2 "aG8=")]
    ∃ bytes, Logged plainSystem place (initial [] plainDisk) requests bytes ∧
      logAt place (serve plainSystem (initial [] plainDisk) requests) =
        logAt place (initial [] plainDisk : World Empty) ++ bytes := by
  intro place requests
  have hplace : NotPicture place := by
    intro piece hpiece
    have hname : piece = str "meta_data.txt" := (Option.some.inj hpiece).symm
    rw [hname]
    decide
  exact logAt_serve hplace _ requests

end Miscellaneous.BoxServer
