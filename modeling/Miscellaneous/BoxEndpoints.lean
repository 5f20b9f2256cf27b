import Miscellaneous.BoxLogs
import Miscellaneous.Unwinding
import Mathlib.Tactic

/-!
# Heartbeats and files

Heartbeats see the registered tasks and their times, and nothing on the disk;
alarms and box results see the disk and no task.  In every sequence of requests
each kind gets the replies it would have got alone, failures included, and
leaves what it would have left.
-/

namespace Miscellaneous.BoxServer

open Disks FailingActions PosixPaths PythonBytes PythonJson PythonStrings

variable {F : Type} {system : System F}

/-- The worlds do not differ in what is stored for the tasks. -/
def SameTasks (first second : World F) : Prop :=
  first.taskList = second.taskList ∧
    first.taskUpdateInfo = second.taskUpdateInfo

def SameDisk (first second : World F) : Prop := first.disk = second.disk

/-! ## What the calls see -/

theorem agrees_print {R : World F → World F → Prop}
    (hprinted : ∀ first second text, R first second →
      R { first with printed := first.printed ++ [text] }
        { second with printed := second.printed ++ [text] }) (text : Str) :
    Agrees R (print system text) := by
  intro first second hrelated
  rw [print]
  split_ifs
  · exact ⟨rfl, hprinted first second text hrelated⟩
  · exact ⟨rfl, hrelated⟩

theorem sameDisk_print (text : Str) :
    Agrees SameDisk (print system text) :=
  agrees_print (fun _ _ _ hrelated => hrelated) text

theorem sameTasks_print (text : Str) :
    Agrees SameTasks (print system text) :=
  agrees_print (fun _ _ _ hrelated => hrelated) text

theorem agrees_sendReply {R : World F → World F → Prop} (path : Str)
    (jsonObj : Value F) : Agrees R (sendReply system path jsonObj) := by
  rw [sendReply]
  split
  · exact Agrees.throw _
  · exact Agrees.pure _

theorem sameDisk_onDisk {α : Type} (action : Action Disk Error α) :
    Agrees SameDisk (onDisk action : Handler F α) := by
  intro first second hrelated
  rw [onDisk, outcome_zoom, outcome_zoom]
  rw [SameDisk] at hrelated
  exact ⟨by rw [hrelated], by rw [SameDisk, hrelated]⟩

theorem sameDisk_makeMissing (path : Str) :
    Agrees SameDisk (makeMissing system path : Handler F PUnit) := by
  apply Agrees.get_bind
  intro first second hrelated
  rw [show first.disk = second.disk from hrelated]
  split_ifs
  · exact ⟨rfl, hrelated⟩
  · exact sameDisk_onDisk _ first second hrelated

theorem sameDisk_writeFile (path : Str) (bytes : Bytes) :
    Agrees SameDisk (writeFile system path bytes : Handler F PUnit) := by
  rw [writeFile_eq]
  exact (sameDisk_onDisk _).bind fun _ => sameDisk_onDisk _

theorem sameDisk_appendLine (path : Str) (line : Except Error Str) :
    Agrees SameDisk (appendLine system path line : Handler F PUnit) := by
  rw [appendLine]
  apply Agrees.bind (sameDisk_onDisk _)
  intro place
  apply Agrees.lift_bind
  intro text
  apply Agrees.lift_bind
  intro bytes
  exact sameDisk_onDisk _

/-- The tasks and their times stay. -/
def KeepsTasks (world final : World F) : Prop := SameTasks final world

theorem KeepsTasks.refl (world : World F) : KeepsTasks world world :=
  ⟨rfl, rfl⟩

theorem KeepsTasks.trans (first middle last : World F)
    (hfirst : KeepsTasks first middle) (hsecond : KeepsTasks middle last) :
    KeepsTasks first last :=
  ⟨hsecond.1.trans hfirst.1, hsecond.2.trans hfirst.2⟩

theorem keepsTasks_print (text : Str) :
    Keeps KeepsTasks (print system text : Handler F PUnit) := by
  intro world
  rw [print]
  split_ifs
  · exact ⟨rfl, rfl⟩
  · exact KeepsTasks.refl world

theorem keepsTasks_makeMissing (path : Str) :
    Keeps KeepsTasks (makeMissing system path : Handler F PUnit) := by
  intro world
  rw [makeMissing, outcome_bind_of_ok (outcome_get world)]
  split_ifs
  · exact KeepsTasks.refl world
  · exact ⟨rfl, rfl⟩

theorem keepsTasks_writeFile (path : Str) (bytes : Bytes) :
    Keeps KeepsTasks (writeFile system path bytes : Handler F PUnit) := by
  rw [writeFile_eq]
  exact Keeps.bind KeepsTasks.trans (fun _ => ⟨rfl, rfl⟩)
    fun _ _ => ⟨rfl, rfl⟩

theorem keepsTasks_appendLine (path : Str) (line : Except Error Str) :
    Keeps KeepsTasks (appendLine system path line : Handler F PUnit) := by
  rw [appendLine]
  apply Keeps.bind KeepsTasks.trans (fun _ => ⟨rfl, rfl⟩)
  intro place
  apply Keeps.lift_bind KeepsTasks.refl
  intro text _
  apply Keeps.lift_bind KeepsTasks.refl
  intro bytes _ _
  exact ⟨rfl, rfl⟩

variable [PyRuntime F]

/-! ## Heartbeats -/

theorem sameTasks_updateTask (entry : Value F × Value F) :
    Agrees SameTasks (updateTask system entry) := by
  apply Agrees.get_bind
  intro first second hrelated
  obtain ⟨hlist, hinfo⟩ := hrelated
  cases entry.1 with
  | str task =>
      simp only [hinfo]
      cases hstored : second.taskUpdateInfo task with
      | none => exact Agrees.throw _ first second ⟨hlist, hinfo⟩
      | some stored =>
          have hmodify : Agrees SameTasks (modify fun world : World F =>
              { world with
                taskUpdateInfo :=
                  Function.update world.taskUpdateInfo task (some entry.2) } :
              Handler F PUnit) :=
            fun _ _ hsame => ⟨rfl, hsame.1, by simp [hsame.2]⟩
          simp only
          split_ifs
          · exact (sameTasks_print _).bind (fun _ => hmodify) first second
              ⟨hlist, hinfo⟩
          · exact hmodify first second ⟨hlist, hinfo⟩
  | none | bool | int | float | list | dict =>
      exact Agrees.throw _ first second ⟨hlist, hinfo⟩

theorem sameTasks_checkHeartbeat (jsonObj : Value F) :
    Agrees SameTasks (checkHeartbeat system jsonObj) := by
  rw [checkHeartbeat_eq]
  apply Agrees.lift_bind
  intro entries
  apply Agrees.get_bind
  intro first second hrelated
  rw [hrelated.1]
  refine Agrees.bind (Agrees.forM ?_) (fun _ => Agrees.forM ?_) first second
    hrelated
  · intro task
    rw [reportMissing]
    split_ifs
    · exact Agrees.pure _
    · exact sameTasks_print _
  · exact sameTasks_updateTask

/-! ## Alarms and box results -/

theorem sameDisk_storeAlarmInfoNew (jsonObj : Value F) :
    Agrees SameDisk (storeAlarmInfoNew system jsonObj) := by
  rw [storeAlarmInfoNew_eq]
  apply Agrees.lift_bind
  intro header
  apply Agrees.lift_bind
  intro isAlarm
  split_ifs
  · apply Agrees.lift_bind
    intro picture
    rw [storeAlarmResult_eq_append]
    exact ((sameDisk_makeMissing _).bind fun _ =>
      (sameDisk_makeMissing _).bind fun _ => sameDisk_writeFile _ _).bind
        fun _ => sameDisk_appendLine _ _
  · apply Agrees.lift_bind
    intro isStat
    split_ifs
    · apply Agrees.lift_bind
      intro stat
      exact (sameDisk_makeMissing _).bind fun _ => sameDisk_appendLine _ _
    · exact sameDisk_print _

theorem keepsTasks_storeAlarmInfoNew (jsonObj : Value F) :
    Keeps KeepsTasks (storeAlarmInfoNew system jsonObj) := by
  rw [storeAlarmInfoNew_eq]
  apply Keeps.lift_bind KeepsTasks.refl
  intro header _
  apply Keeps.lift_bind KeepsTasks.refl
  intro isAlarm _
  split_ifs
  · apply Keeps.lift_bind KeepsTasks.refl
    intro picture _
    rw [storeAlarmResult_eq_append]
    apply Keeps.bind KeepsTasks.trans _ fun _ => keepsTasks_appendLine _ _
    exact Keeps.bind KeepsTasks.trans (keepsTasks_makeMissing _) fun _ =>
      Keeps.bind KeepsTasks.trans (keepsTasks_makeMissing _) fun _ =>
        keepsTasks_writeFile _ _
  · apply Keeps.lift_bind KeepsTasks.refl
    intro isStat _
    split_ifs
    · apply Keeps.lift_bind KeepsTasks.refl
      intro stat _
      exact Keeps.bind KeepsTasks.trans (keepsTasks_makeMissing _) fun _ =>
        keepsTasks_appendLine _ _
    · exact keepsTasks_print _

theorem sameDisk_storeFaceVideoStreamResult (jsonObj : Value F) :
    Agrees SameDisk (storeFaceVideoStreamResult system jsonObj) := by
  rw [storeFaceVideoStreamResult_eq]
  apply Agrees.lift_bind
  intro dataObj
  apply Agrees.lift_bind
  intro item
  apply Agrees.lift_bind
  intro taskId
  apply Agrees.bind (sameDisk_makeMissing _)
  intro _
  apply Agrees.lift_bind
  intro items
  apply Agrees.lift_bind
  intro detections
  apply Agrees.forM
  intro det
  rw [storeDetection_eq]
  apply Agrees.lift_bind
  intro trackId
  apply Agrees.lift_bind
  intro attrsItem
  apply Agrees.lift_bind
  intro attrs
  apply Agrees.forM
  intro attr
  rw [storeFace_eq]
  apply Agrees.lift_bind
  intro classId
  split_ifs
  · apply Agrees.lift_bind
    intro pictures
    exact (sameDisk_writeFile _ _).bind fun _ => (sameDisk_print _).bind
      fun _ => (sameDisk_writeFile _ _).bind fun _ => sameDisk_print _
  · exact Agrees.pure _

theorem keepsTasks_storeFaceVideoStreamResult (jsonObj : Value F) :
    Keeps KeepsTasks (storeFaceVideoStreamResult system jsonObj) := by
  rw [storeFaceVideoStreamResult_eq]
  apply Keeps.lift_bind KeepsTasks.refl
  intro dataObj _
  apply Keeps.lift_bind KeepsTasks.refl
  intro item _
  apply Keeps.lift_bind KeepsTasks.refl
  intro taskId _
  apply Keeps.bind KeepsTasks.trans (keepsTasks_makeMissing _)
  intro _
  apply Keeps.lift_bind KeepsTasks.refl
  intro items _
  apply Keeps.lift_bind KeepsTasks.refl
  intro detections _
  apply Keeps.forM KeepsTasks.refl KeepsTasks.trans
  intro det _
  rw [storeDetection_eq]
  apply Keeps.lift_bind KeepsTasks.refl
  intro trackId _
  apply Keeps.lift_bind KeepsTasks.refl
  intro attrsItem _
  apply Keeps.lift_bind KeepsTasks.refl
  intro attrs _
  apply Keeps.forM KeepsTasks.refl KeepsTasks.trans
  intro attr _
  rw [storeFace_eq]
  apply Keeps.lift_bind KeepsTasks.refl
  intro classId _
  split_ifs
  · apply Keeps.lift_bind KeepsTasks.refl
    intro pictures _
    exact Keeps.bind KeepsTasks.trans (keepsTasks_writeFile _ _) fun _ =>
      Keeps.bind KeepsTasks.trans (keepsTasks_print _) fun _ =>
        Keeps.bind KeepsTasks.trans (keepsTasks_writeFile _ _) fun _ =>
          keepsTasks_print _
  · exact Keeps.pure KeepsTasks.refl _

/-! ## The two kinds of requests -/

def isHeartbeat (request : Str × Value F) : Bool :=
  request.1 = heartbeatPath

def post (system : System F) (request : Str × Value F) : Handler F PUnit :=
  doPost system request.1 request.2

theorem post_cases (system : System F) (request : Str × Value F) :
    (isHeartbeat request = true ∧
        handlePost system request.1 request.2 =
          checkHeartbeat system request.2) ∨
      isHeartbeat request = false ∧
        (handlePost system request.1 request.2 =
            storeAlarmInfoNew system request.2 ∨
          handlePost system request.1 request.2 =
            storeFaceVideoStreamResult system request.2 ∨
          handlePost system request.1 request.2 =
            print system (system.bodyText request.2) ∨
          handlePost system request.1 request.2 = pure ⟨⟩) := by
  rcases request with ⟨path, jsonObj⟩
  simp only [isHeartbeat, decide_eq_true_eq, decide_eq_false_iff_not]
  by_cases hpath : path = heartbeatPath
  · subst hpath
    exact Or.inl ⟨rfl, handlePost_heartbeatPath system jsonObj⟩
  · refine Or.inr ⟨hpath, ?_⟩
    rw [handlePost]
    split_ifs with hprint halarm hheartbeat hbox
    · exact Or.inr (Or.inr (Or.inl rfl))
    · exact Or.inl rfl
    · exact absurd hheartbeat hpath
    · exact Or.inr (Or.inl rfl)
    · exact Or.inr (Or.inr (Or.inr rfl))

theorem post_eq (request : Str × Value F) :
    post system request = handlePost system request.1 request.2 >>= fun _ =>
      sendReply system request.1 request.2 := rfl

theorem keeps_post_iff {R : World F → World F → Prop}
    (request : Str × Value F) :
    Keeps R (post system request) ↔
      Keeps R (handlePost system request.1 request.2) := by
  simp only [Keeps, post, outcome_doPost_world]

theorem sameTasks_post {request : Str × Value F}
    (hrequest : isHeartbeat request = true) :
    Agrees SameTasks (post system request) := by
  rw [post_eq]
  apply Agrees.bind _ fun _ => agrees_sendReply _ _
  rcases post_cases system request with
    ⟨-, hpost⟩ | ⟨hother, -⟩
  · rw [hpost]
    exact sameTasks_checkHeartbeat request.2
  · rw [hrequest] at hother
    cases hother

theorem keepsTasks_post {request : Str × Value F}
    (hrequest : isHeartbeat request = false) :
    Keeps KeepsTasks (post system request) := by
  rw [keeps_post_iff]
  rcases post_cases system request with
    ⟨hheartbeat, -⟩ | ⟨-, hpost | hpost | hpost | hpost⟩
  · rw [hrequest] at hheartbeat
    cases hheartbeat
  · rw [hpost]
    exact keepsTasks_storeAlarmInfoNew request.2
  · rw [hpost]
    exact keepsTasks_storeFaceVideoStreamResult request.2
  · rw [hpost]
    exact keepsTasks_print _
  · rw [hpost]
    exact Keeps.pure KeepsTasks.refl _

theorem sameDisk_post {request : Str × Value F}
    (hrequest : isHeartbeat request = false) :
    Agrees SameDisk (post system request) := by
  rw [post_eq]
  apply Agrees.bind _ fun _ => agrees_sendReply _ _
  rcases post_cases system request with
    ⟨hheartbeat, -⟩ | ⟨-, hpost | hpost | hpost | hpost⟩
  · rw [hrequest] at hheartbeat
    cases hheartbeat
  · rw [hpost]
    exact sameDisk_storeAlarmInfoNew request.2
  · rw [hpost]
    exact sameDisk_storeFaceVideoStreamResult request.2
  · rw [hpost]
    exact sameDisk_print _
  · rw [hpost]
    exact Agrees.pure _

theorem keepsDisk_post {request : Str × Value F}
    (hrequest : isHeartbeat request = true) :
    Keeps KeepsDisk (post system request) := by
  rw [keeps_post_iff]
  rcases post_cases system request with
    ⟨-, hpost⟩ | ⟨hother, -⟩
  · rw [hpost]
    exact keepsDisk_checkHeartbeat request.2
  · rw [hrequest] at hother
    cases hother

/-- In every sequence of requests, with any bodies and any failures: the
heartbeats get the replies and leave the tasks as if they had come alone, and so
do the other requests with the disk. -/
theorem requests_separate (system : System F) (world : World F)
    (requests : List (Str × Value F)) :
    SameTasks (serve system world requests)
        (serve system world (requests.filter isHeartbeat)) ∧
      SameDisk (serve system world requests)
        (serve system world (requests.filter fun request =>
          !isHeartbeat request)) ∧
      (replies (post system) world requests).filter
          (fun reply => isHeartbeat reply.1) =
        replies (post system) world (requests.filter isHeartbeat) ∧
      (replies (post system) world requests).filter
          (fun reply => !isHeartbeat reply.1) =
        replies (post system) world
          (requests.filter fun request => !isHeartbeat request) := by
  have htasks := @unwinding _ _ _ (post system) SameTasks isHeartbeat
    (fun _ hmine => sameTasks_post hmine)
    (fun _ hmine first _ hsame =>
      ⟨(keepsTasks_post hmine first).1.trans hsame.1,
        (keepsTasks_post hmine first).2.trans hsame.2⟩)
    world world ⟨rfl, rfl⟩ requests
  have hdisk := @unwinding _ _ _ (post system) SameDisk
    (fun request => !isHeartbeat request)
    (fun _ hmine => sameDisk_post (by simpa using hmine))
    (fun _ hmine first _ hsame =>
      Eq.trans (keepsDisk_post (by simpa using hmine) first) hsame)
    world world rfl requests
  exact ⟨htasks.1, hdisk.1, htasks.2, hdisk.2⟩

end Miscellaneous.BoxServer
