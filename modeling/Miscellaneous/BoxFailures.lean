import Miscellaneous.BoxFiles
import Miscellaneous.BoxHeartbeats
import Mathlib.Tactic

/-!
# Failed requests

A heartbeat fails at the first entry that cannot be handled, and the entries
before it have been stored by then.  An alarm writes its picture before the line
for it is made, so it leaves nothing behind exactly if nothing can fail once the
picture file is open.  Whatever a request has stored stays if its reply cannot
be sent.
-/

namespace Miscellaneous.BoxServer

open Disks FailingActions PosixPaths PythonBytes PythonJson PythonStrings

variable {F : Type} [PyRuntime F]

/-- If the request fails, the stored times are the same, no file has been
created or overwritten with a picture, and no bytes have been appended. -/
def FailsUnchanged (handler : Handler F PUnit) (world : World F) : Prop :=
  ∀ error final, outcome handler world = (.error error, final) →
    Leaves Effect.Harmless world final

/-! ## Heartbeats -/

/-- The task is registered, and its time can be printed if it is the one
before. -/
def Handles (system : System F) (info : Str → Option (Value F))
    (entry : Value F × Value F) : Prop :=
  ∃ task stored, entry.1 = .str task ∧ info task = some stored ∧
    (entry.2.eq stored = true →
      system.printable (timeNotChange task entry.2) = true)

/-- The stored times after entries of registered tasks. -/
def storedAfter (info : Str → Option (Value F))
    (entries : List (Value F × Value F)) : Str → Option (Value F) :=
  entries.foldl
    (fun info entry =>
      match entry.1 with
      | .str task => Function.update info task (some entry.2)
      | _ => info)
    info

def AllHandled (system : System F) :
    (Str → Option (Value F)) → List (Value F × Value F) → Prop
  | _, [] => True
  | info, entry :: entries =>
      Handles system info entry ∧
        AllHandled system (storedAfter info [entry]) entries

/-- Where an entry cannot be handled, the entries before it repeat what is
stored. -/
def RepeatsStored (system : System F) (world : World F) (jsonObj : Value F) :
    Prop :=
  ∀ entries, received jsonObj = .ok entries →
    (∀ task ∈ world.taskList,
      (entries.any fun entry => entry.1.eq (.str task)) = false →
        system.printable (doesNotContain task) = true) →
    ∀ before entry after, entries = before ++ entry :: after →
      AllHandled system world.taskUpdateInfo before →
      ¬Handles system (storedAfter world.taskUpdateInfo before) entry →
        storedAfter world.taskUpdateInfo before = world.taskUpdateInfo

/-- A message whose entries can all be handled repeats what is stored. -/
def RepeatsAll (system : System F) (world : World F) (jsonObj : Value F) :
    Prop :=
  ∀ entries, received jsonObj = .ok entries →
    (∀ task ∈ world.taskList,
      (entries.any fun entry => entry.1.eq (.str task)) = false →
        system.printable (doesNotContain task) = true) →
    AllHandled system world.taskUpdateInfo entries →
      storedAfter world.taskUpdateInfo entries = world.taskUpdateInfo

section Heartbeats

variable {system : System F} {world final : World F}

theorem updateTask_of_handles {entry : Value F × Value F}
    (hhandles : Handles system world.taskUpdateInfo entry) :
    ∃ final, outcome (updateTask system entry) world = (.ok ⟨⟩, final) ∧
      final.taskUpdateInfo = storedAfter world.taskUpdateInfo [entry] ∧
      final.disk = world.disk := by
  rcases hhandles with ⟨task, stored, htask, hstored, hprintable⟩
  rcases entry with ⟨key, time⟩
  subst htask
  exact ⟨_, @outcome_updateTask F _ system world (task, time) stored hstored
    hprintable, rfl, rfl⟩

theorem updateTask_of_not_handles {entry : Value F × Value F}
    (hhandles : ¬Handles system world.taskUpdateInfo entry) :
    ∃ error, outcome (updateTask system entry) world = (.error error, world) := by
  rw [updateTask, outcome_bind_of_ok (outcome_get world)]
  cases hkey : entry.1 with
  | str task =>
      cases hstored : world.taskUpdateInfo task with
      | none =>
          simp only [hstored]
          exact ⟨.nameError, rfl⟩
      | some stored =>
          have hrefused : entry.2.eq stored = true ∧
              ¬system.printable (timeNotChange task entry.2) = true := by
            by_contra hnot
            rw [not_and_not_right] at hnot
            exact hhandles ⟨task, stored, hkey, hstored, hnot⟩
          have hprint : outcome (print system (timeNotChange task entry.2))
              world = (.error .unicodeError, world) := by
            rw [print, if_neg hrefused.2]
            rfl
          refine ⟨.unicodeError, ?_⟩
          simp only [hstored, if_pos hrefused.1]
          exact outcome_bind_of_error hprint
  | none | bool | int | float | list | dict => exact ⟨_, rfl⟩

theorem updateTasks_eq_ok {entries : List (Value F × Value F)}
    (hrun : outcome (entries.forM (updateTask system)) world =
      (.ok ⟨⟩, final)) :
    AllHandled system world.taskUpdateInfo entries ∧
      final.taskUpdateInfo = storedAfter world.taskUpdateInfo entries ∧
      final.disk = world.disk := by
  induction entries generalizing world with
  | nil =>
      cases hrun
      exact ⟨trivial, rfl, rfl⟩
  | cons entry entries ih =>
      rw [forM_cons, outcome_bind_eq_ok_iff] at hrun
      rcases hrun with ⟨_, middle, hfirst, hmore⟩
      have hhandles : Handles system world.taskUpdateInfo entry := by
        by_contra hnot
        rcases updateTask_of_not_handles hnot with ⟨error, hfail⟩
        rw [hfail] at hfirst
        cases hfirst
      rcases updateTask_of_handles hhandles with ⟨next, hnext, hinfo, hdisk⟩
      rw [hfirst, Prod.mk.injEq] at hnext
      rw [hnext.2] at hmore
      rcases ih hmore with ⟨hall, hfinal, hsame⟩
      rw [hinfo] at hall hfinal
      exact ⟨⟨hhandles, hall⟩, hfinal, hsame.trans hdisk⟩

theorem updateTasks_of_allHandled {entries : List (Value F × Value F)}
    (hall : AllHandled system world.taskUpdateInfo entries) :
    ∃ final, outcome (entries.forM (updateTask system)) world =
      (.ok ⟨⟩, final) := by
  induction entries generalizing world with
  | nil => exact ⟨world, rfl⟩
  | cons entry entries ih =>
      rcases hall with ⟨hhandles, hmore⟩
      rcases updateTask_of_handles hhandles with ⟨middle, hfirst, hinfo, _⟩
      rw [← hinfo] at hmore
      rcases ih hmore with ⟨final, hrest⟩
      refine ⟨final, ?_⟩
      rw [forM_cons, outcome_bind_of_ok hfirst]
      exact hrest

theorem reportMissing_ok_iff {entries : List (Value F × Value F)}
    {task : Str} :
    (∃ final, outcome (reportMissing system entries task) world =
        (.ok ⟨⟩, final)) ↔
      ((entries.any fun entry => entry.1.eq (.str task)) = false →
        system.printable (doesNotContain task) = true) := by
  rw [reportMissing]
  by_cases hany : (entries.any fun entry => entry.1.eq (.str task)) = true
  · rw [if_pos hany]
    simp only [hany, Bool.true_eq_false, false_implies, iff_true]
    exact ⟨world, rfl⟩
  · rw [if_neg hany, print]
    simp only [Bool.not_eq_true] at hany
    simp only [hany, forall_const]
    constructor
    · rintro ⟨final, hrun⟩
      by_contra hprintable
      rw [if_neg hprintable] at hrun
      cases hrun
    · intro hprintable
      rw [if_pos hprintable]
      exact ⟨_, rfl⟩

theorem reportMissings_ok_iff (tasks : List Str)
    {entries : List (Value F × Value F)} :
    (∃ final, outcome (tasks.forM (reportMissing system entries)) world =
        (.ok ⟨⟩, final)) ↔
      ∀ task ∈ tasks,
        (entries.any fun entry => entry.1.eq (.str task)) = false →
          system.printable (doesNotContain task) = true :=
  exists_forM_eq_ok_iff fun _ _ => reportMissing_ok_iff

theorem keeps_reportMissing (tasks : List Str)
    (entries : List (Value F × Value F)) :
    Keeps (Leaves Effect.Harmless)
      (tasks.forM (reportMissing system entries)) := by
  apply Keeps.forM Leaves.refl Leaves.trans
  intro task _
  rw [reportMissing]
  split_ifs
  · exact Keeps.pure Leaves.refl _
  · exact keeps_print _

theorem checkHeartbeat_eq (jsonObj : Value F) :
    checkHeartbeat system jsonObj =
      liftM (received jsonObj) >>= fun entries => get >>= fun world =>
        world.taskList.forM (reportMissing system entries) >>= fun _ =>
          entries.forM (updateTask system) := rfl

/-- A heartbeat that fails changes nothing exactly if the entries before the
failing one repeat what is stored. -/
theorem checkHeartbeat_failsUnchanged_iff (jsonObj : Value F) :
    FailsUnchanged (checkHeartbeat system jsonObj) world ↔
      RepeatsStored system world jsonObj := by
  constructor
  · intro hunchanged entries hreceived hmissing before entry after hsplit hall
      hhandles
    rcases (reportMissings_ok_iff world.taskList).mpr hmissing with
      ⟨middle, hreport⟩
    have hkeeps := @keeps_reportMissing F _ system world.taskList entries world
    rw [hreport] at hkeeps
    rw [← hkeeps.1] at hall hhandles ⊢
    rcases updateTasks_of_allHandled hall with ⟨next, hbefore⟩
    have hnext := updateTasks_eq_ok hbefore
    rw [← hnext.2.1] at hhandles ⊢
    rcases updateTask_of_not_handles hhandles with ⟨error, hfail⟩
    have hrun : outcome (checkHeartbeat system jsonObj) world =
        (.error error, next) := by
      rw [checkHeartbeat_eq, outcome_lift_bind_of_ok hreceived,
        outcome_bind_of_ok (outcome_get world), outcome_bind_of_ok hreport,
        forM_eq_error_iff]
      exact ⟨before, entry, after, next, hsplit, hbefore, hfail⟩
    rw [(hunchanged error next hrun).1, hkeeps.1]
  · intro hrepeats error final hrun
    rw [checkHeartbeat_eq] at hrun
    rcases outcome_lift_bind_eq_error_iff.mp hrun with
      ⟨_, hfinal⟩ | ⟨entries, hreceived, hrest⟩
    · exact hfinal ▸ Leaves.refl world
    rw [outcome_bind_of_ok (outcome_get world)] at hrest
    have hkeeps := @keeps_reportMissing F _ system world.taskList entries world
    rcases outcome_bind_eq_error_iff.mp hrest with
      hreport | ⟨_, middle, hreport, hrest⟩
    · rwa [hreport] at hkeeps
    rw [hreport] at hkeeps
    rcases forM_eq_error_iff.mp hrest with
      ⟨before, entry, after, next, hsplit, hbefore, hfail⟩
    rcases updateTasks_eq_ok hbefore with ⟨hall, hinfo, hdisk⟩
    have hhandles : ¬Handles system next.taskUpdateInfo entry := by
      intro hhandles
      rcases updateTask_of_handles hhandles with ⟨other, hother, _⟩
      rw [hfail] at hother
      cases hother
    rcases updateTask_of_not_handles hhandles with ⟨other, hother⟩
    rw [hfail, Prod.mk.injEq] at hother
    have hmissing := (reportMissings_ok_iff world.taskList).mp ⟨middle, hreport⟩
    rw [hinfo, hkeeps.1] at hhandles
    rw [hkeeps.1] at hall
    have hstored := hrepeats entries hreceived hmissing before entry after
      hsplit hall hhandles
    rw [hother.2]
    constructor
    · rw [hinfo, hkeeps.1, hstored]
    · rw [hdisk]
      exact hkeeps.2

/-- A heartbeat that is handled changes nothing exactly if it repeats what is
stored. -/
theorem checkHeartbeat_leaves_iff (jsonObj : Value F) :
    (∀ final, outcome (checkHeartbeat system jsonObj) world =
        (.ok ⟨⟩, final) → Leaves Effect.Harmless world final) ↔
      RepeatsAll system world jsonObj := by
  constructor
  · intro hunchanged entries hreceived hmissing hall
    rcases (reportMissings_ok_iff world.taskList).mpr hmissing with
      ⟨middle, hreport⟩
    have hkeeps := @keeps_reportMissing F _ system world.taskList entries world
    rw [hreport] at hkeeps
    rw [← hkeeps.1] at hall ⊢
    rcases updateTasks_of_allHandled hall with ⟨next, hupdates⟩
    have hrun : outcome (checkHeartbeat system jsonObj) world =
        (.ok ⟨⟩, next) := by
      rw [checkHeartbeat_eq, outcome_lift_bind_of_ok hreceived,
        outcome_bind_of_ok (outcome_get world), outcome_bind_of_ok hreport,
        hupdates]
    rw [← (updateTasks_eq_ok hupdates).2.1, (hunchanged next hrun).1, hkeeps.1]
  · intro hrepeats final hrun
    rw [checkHeartbeat_eq] at hrun
    rcases outcome_lift_bind_eq_ok_iff.mp hrun with ⟨entries, hreceived, hrest⟩
    rw [outcome_bind_of_ok (outcome_get world)] at hrest
    rcases outcome_bind_eq_ok_iff.mp hrest with ⟨_, middle, hreport, hupdates⟩
    have hkeeps := @keeps_reportMissing F _ system world.taskList entries world
    rw [hreport] at hkeeps
    have hmissing := (reportMissings_ok_iff world.taskList).mp ⟨middle, hreport⟩
    rcases updateTasks_eq_ok hupdates with ⟨hall, hinfo, hdisk⟩
    rw [hkeeps.1] at hall hinfo
    constructor
    · rw [hinfo, hrepeats entries hreceived hmissing hall]
    · rw [hdisk]
      exact hkeeps.2

end Heartbeats

/-! ## Replies -/

theorem failsUnchanged_doPost_iff {system : System F} {world : World F}
    {path : Str} {jsonObj : Value F} :
    FailsUnchanged (doPost system path jsonObj) world ↔
      FailsUnchanged (handlePost system path jsonObj) world ∧
        (system.replyFails path jsonObj ≠ none →
          ∀ final, outcome (handlePost system path jsonObj) world =
            (.ok ⟨⟩, final) → Leaves Effect.Harmless world final) := by
  constructor
  · intro hunchanged
    constructor
    · intro error final hrun
      exact hunchanged error final (doPost_eq_error_iff.mpr (Or.inl hrun))
    · intro hreply final hrun
      rcases Option.ne_none_iff_exists'.mp hreply with ⟨error, herror⟩
      exact hunchanged error final
        (doPost_eq_error_iff.mpr (Or.inr ⟨hrun, herror⟩))
  · rintro ⟨hhandler, hreply⟩ error final hrun
    rcases doPost_eq_error_iff.mp hrun with hfail | ⟨hok, herror⟩
    · exact hhandler error final hfail
    · exact hreply (by simp [herror]) final hok

/-! ## Alarms -/

def alarmPath : Str := str "/api/alarmInfo"

/-- With the picture file open, the picture and the line can be written. -/
def Logs (system : System F) (header : AlarmHeader F) (ts : Value F)
    (img : Bytes) (place : List Str) (disk : Disk) : Prop :=
  system.refuses disk (.write place img) = none ∧
    Appends system (disk.after (.write place img)) header.metaData
      (header.line system ts [])

/-- The message is an alarm with this picture. -/
structure HasPicture (jsonObj : Value F) (header : AlarmHeader F)
    (picture : Value F × Bytes) : Prop where
  head : alarmHeader jsonObj = .ok header
  isAlarm : header.dataObj.contains (str "alarmResult") = .ok true
  read : alarmPicture header.dataObj = .ok picture

/-- The message is an alarm with this statistic. -/
structure HasStat (jsonObj : Value F) (header : AlarmHeader F)
    (stat : Value F × List (Value F)) : Prop where
  head : alarmHeader jsonObj = .ok header
  notAlarm : header.dataObj.contains (str "alarmResult") = .ok false
  isStat : header.dataObj.contains (str "personStatResult") = .ok true
  read : personStat header.dataObj = .ok stat

/-- An alarm whose picture file can be opened can be written to the end and
answered.  The line of a statistic is written and answered, or nothing of it is
written. -/
structure LogsWhatItStores (system : System F) (world : World F)
    (jsonObj : Value F) : Prop where
  picture : ∀ header picture, HasPicture jsonObj header picture →
    ∀ first second place,
      outcome (makeMissing system header.rootDir) world = (.ok ⟨⟩, first) →
      outcome (makeMissing system header.imgDir) first = (.ok ⟨⟩, second) →
      second.disk.filePlace system.cwd (header.imgPath picture.1) = some place →
      system.refuses second.disk (.truncate place) = none →
        Logs system header picture.1 picture.2 place
            (second.disk.after (.truncate place)) ∧
          system.replyFails alarmPath jsonObj = none
  stat : ∀ header stat, HasStat jsonObj header stat →
    ∀ first place bytes,
      outcome (makeMissing system header.rootDir) world = (.ok ⟨⟩, first) →
      Opens system first.disk header.metaData
          (header.line system stat.1 stat.2) place bytes →
        Takes system first.disk place bytes ∧
            system.replyFails alarmPath jsonObj = none ∨
          ¬Takes system first.disk place bytes ∧
            partTaken system first.disk place bytes = []

section Alarms

variable {system : System F} {world final : World F}

def storeAlarmResult (system : System F) (header : AlarmHeader F)
    (picture : Value F × Bytes) : Handler F PUnit := do
  makeMissing system header.rootDir
  makeMissing system header.imgDir
  writeFile system (header.imgPath picture.1) picture.2
  appendLine system header.metaData (header.line system picture.1 [])

def storePersonStat (system : System F) (header : AlarmHeader F)
    (stat : Value F × List (Value F)) : Handler F PUnit := do
  makeMissing system header.rootDir
  appendLine system header.metaData (header.line system stat.1 stat.2)

theorem storeAlarmInfoNew_eq (jsonObj : Value F) :
    storeAlarmInfoNew system jsonObj =
      liftM (alarmHeader jsonObj) >>= fun header =>
        liftM (header.dataObj.contains (str "alarmResult")) >>= fun isAlarm =>
          if isAlarm = true then
            liftM (alarmPicture header.dataObj) >>=
              storeAlarmResult system header
          else
            liftM (header.dataObj.contains (str "personStatResult")) >>=
              fun isStat =>
                if isStat = true then
                  liftM (personStat header.dataObj) >>=
                    storePersonStat system header
                else print system (system.dumps jsonObj) := rfl

theorem HasPicture.outcome_eq {jsonObj : Value F} {header : AlarmHeader F}
    {picture : Value F × Bytes} (hhas : HasPicture jsonObj header picture) :
    outcome (storeAlarmInfoNew system jsonObj) world =
      outcome (storeAlarmResult system header picture) world := by
  rw [storeAlarmInfoNew_eq, outcome_lift_bind_of_ok hhas.head,
    outcome_lift_bind_of_ok hhas.isAlarm, if_pos rfl,
    outcome_lift_bind_of_ok hhas.read]

theorem HasStat.outcome_eq {jsonObj : Value F} {header : AlarmHeader F}
    {stat : Value F × List (Value F)} (hhas : HasStat jsonObj header stat) :
    outcome (storeAlarmInfoNew system jsonObj) world =
      outcome (storePersonStat system header stat) world := by
  rw [storeAlarmInfoNew_eq, outcome_lift_bind_of_ok hhas.head,
    outcome_lift_bind_of_ok hhas.notAlarm, if_neg Bool.false_ne_true,
    outcome_lift_bind_of_ok hhas.isStat, if_pos rfl,
    outcome_lift_bind_of_ok hhas.read]

theorem HasPicture.unique {jsonObj : Value F} {header header' : AlarmHeader F}
    {picture picture' : Value F × Bytes}
    (hhas : HasPicture jsonObj header picture)
    (hhas' : HasPicture jsonObj header' picture') :
    header = header' ∧ picture = picture' := by
  have hheader := hhas.head.symm.trans hhas'.head
  rw [Except.ok.injEq] at hheader
  subst hheader
  have hread := hhas.read.symm.trans hhas'.read
  rw [Except.ok.injEq] at hread
  exact ⟨rfl, hread⟩

theorem HasStat.unique {jsonObj : Value F} {header header' : AlarmHeader F}
    {stat stat' : Value F × List (Value F)}
    (hhas : HasStat jsonObj header stat)
    (hhas' : HasStat jsonObj header' stat') :
    header = header' ∧ stat = stat' := by
  have hheader := hhas.head.symm.trans hhas'.head
  rw [Except.ok.injEq] at hheader
  subst hheader
  have hread := hhas.read.symm.trans hhas'.read
  rw [Except.ok.injEq] at hread
  exact ⟨rfl, hread⟩

theorem HasPicture.not_hasStat {jsonObj : Value F}
    {header header' : AlarmHeader F} {picture : Value F × Bytes}
    {stat : Value F × List (Value F)}
    (hhas : HasPicture jsonObj header picture) :
    ¬HasStat jsonObj header' stat := by
  intro hstat
  have hheader := hhas.head.symm.trans hstat.head
  rw [Except.ok.injEq] at hheader
  subst hheader
  have hboth := hhas.isAlarm.symm.trans hstat.notAlarm
  cases hboth

/-- A message without a picture or a statistic that can be read is printed or
refused. -/
theorem keeps_storeAlarmInfoNew {R : World F → World F → Prop}
    (hrefl : ∀ world, R world world) {jsonObj : Value F}
    (hprint : Keeps R (print system (system.dumps jsonObj)))
    (hpicture : ∀ header picture, ¬HasPicture jsonObj header picture)
    (hstat : ∀ header stat, ¬HasStat jsonObj header stat) :
    Keeps R (storeAlarmInfoNew system jsonObj) := by
  rw [storeAlarmInfoNew_eq]
  apply Keeps.lift_bind hrefl
  intro header hheader
  apply Keeps.lift_bind hrefl
  intro isAlarm hcontains
  split_ifs with halarm
  · subst halarm
    apply Keeps.lift_bind hrefl
    intro picture hread
    exact absurd ⟨hheader, hcontains, hread⟩ (hpicture header picture)
  · rw [Bool.not_eq_true] at halarm
    subst halarm
    apply Keeps.lift_bind hrefl
    intro isStat hisStat
    split_ifs with hone
    · subst hone
      apply Keeps.lift_bind hrefl
      intro stat hread
      exact absurd ⟨hheader, hcontains, hisStat, hread⟩ (hstat header stat)
    · exact hprint

theorem storeAlarmResult_eq_ok {header : AlarmHeader F} {ts : Value F}
    {img : Bytes} {result : PUnit}
    (hrun : outcome (storeAlarmResult system header (ts, img)) world =
      (.ok result, final)) :
    ∃ first second third,
      outcome (makeMissing system header.rootDir) world = (.ok ⟨⟩, first) ∧
        outcome (makeMissing system header.imgDir) first = (.ok ⟨⟩, second) ∧
        outcome (writeFile system (header.imgPath ts) img) second =
          (.ok ⟨⟩, third) ∧
        outcome (appendLine system header.metaData (header.line system ts []))
          third = (.ok ⟨⟩, final) := by
  rcases outcome_bind_eq_ok_iff.mp hrun with ⟨_, first, hfirst, hrun⟩
  rcases outcome_bind_eq_ok_iff.mp hrun with ⟨_, second, hsecond, hrun⟩
  rcases outcome_bind_eq_ok_iff.mp hrun with ⟨_, third, hthird, hrun⟩
  exact ⟨first, second, third, hfirst, hsecond, hthird, hrun⟩

/-- An alarm that can open its picture file overwrites it, and it comes to its
end exactly if the picture is logged. -/
theorem writeFile_appendLine_opened {header : AlarmHeader F} {ts : Value F}
    {img : Bytes} {place : List Str}
    (hplace : world.disk.filePlace system.cwd (header.imgPath ts) = some place)
    (hallowed : system.refuses world.disk (.truncate place) = none) :
    ∃ result final,
      outcome (writeFile system (header.imgPath ts) img >>= fun _ =>
          appendLine system header.metaData (header.line system ts [])) world =
        (result, final) ∧
      Grows (fun _ => True) (world.disk.after (.truncate place)) final.disk ∧
      (result = .ok ⟨⟩ ↔ Logs system header ts img place
        (world.disk.after (.truncate place))) := by
  rcases writeFile_cases system (header.imgPath ts) img world with
    ⟨error, _, hclosed⟩ | ⟨opened, hopened, _, hwrite⟩
  · exact absurd hallowed (hclosed place hplace)
  rw [hplace, Option.some.injEq] at hopened
  subst hopened
  rcases hwrite with ⟨error, part, hrefused, hrun⟩ | ⟨htaken, hrun⟩
  · refine ⟨_, _, outcome_bind_of_error hrun,
      Grows.afterPart (fun _ => trivial) _ _, ?_⟩
    constructor
    · intro hok
      cases hok
    · intro hlogs
      rw [hlogs.1] at hrefused
      cases hrefused
  · rw [outcome_bind_of_ok hrun]
    have hwritten := @Grows.after (fun _ => True) (.write place img) trivial
      (world.disk.after (.truncate place))
    generalize hmiddle : (world.disk.after (.truncate place)).after
      (.write place img) = middle at hwritten ⊢
    have hgrows := (@keeps_true_appendLine F system header.metaData
      (header.line system ts []) { world with disk := middle }).2
    rw [Logs, hmiddle]
    rcases happend : outcome (appendLine system header.metaData
        (header.line system ts [])) { world with disk := middle } with
      ⟨error | value, last⟩
    · rw [happend] at hgrows
      refine ⟨_, _, rfl, hwritten.trans hgrows, ?_⟩
      simp only [reduceCtorEq, false_iff]
      exact fun hlogs => not_appends_of_error happend hlogs.2
    · rw [happend] at hgrows
      refine ⟨_, _, rfl, hwritten.trans hgrows, ?_⟩
      simp only [true_iff]
      rcases appendLine_eq_ok happend with ⟨other, bytes, hopens, htakes, _⟩
      exact ⟨htaken, other, bytes, hopens, htakes⟩

/-- The picture of an alarm is not opened, or it is logged and the alarm is
answered: in all other cases something is left behind. -/
theorem storeAlarmResult_settled {header : AlarmHeader F}
    {picture : Value F × Bytes} {answered : Prop} :
    ((outcome (storeAlarmResult system header picture) world).1 = .ok ⟨⟩ ∧
        answered ∨
      Leaves Effect.Harmless world
        (outcome (storeAlarmResult system header picture) world).2) ↔
      ∀ first second place,
        outcome (makeMissing system header.rootDir) world = (.ok ⟨⟩, first) →
        outcome (makeMissing system header.imgDir) first = (.ok ⟨⟩, second) →
        second.disk.filePlace system.cwd (header.imgPath picture.1) =
          some place →
        system.refuses second.disk (.truncate place) = none →
          Logs system header picture.1 picture.2 place
            (second.disk.after (.truncate place)) ∧ answered := by
  have hroot := @leaves_makeMissing_harmless F system world header.rootDir
  rcases hfirst : outcome (makeMissing system header.rootDir) world with
    ⟨error | value, first⟩
  · rw [hfirst] at hroot
    rw [storeAlarmResult, outcome_bind_of_error hfirst]
    simp [hroot]
  rw [hfirst] at hroot
  have hdir := @leaves_makeMissing_harmless F system first header.imgDir
  rcases hsecond : outcome (makeMissing system header.imgDir) first with
    ⟨error | value, second⟩
  · rw [hsecond] at hdir
    rw [storeAlarmResult, outcome_bind_of_ok hfirst,
      outcome_bind_of_error hsecond]
    simp only [reduceCtorEq, false_and, false_or]
    constructor
    · intro _ first' second' place hfirst' hsecond'
      cases hfirst'
      rw [hsecond] at hsecond'
      cases hsecond'
    · intro _
      exact Leaves.trans _ _ _ hroot hdir
  rw [hsecond] at hdir
  have hboth := Leaves.trans _ _ _ hroot hdir
  rw [storeAlarmResult, outcome_bind_of_ok hfirst, outcome_bind_of_ok hsecond]
  by_cases hopen : ∃ place,
      second.disk.filePlace system.cwd (header.imgPath picture.1) = some place ∧
        system.refuses second.disk (.truncate place) = none
  · rcases hopen with ⟨place, hplace, hallowed⟩
    rcases @writeFile_appendLine_opened F _ system second header picture.1
      picture.2 place hplace hallowed with ⟨result, final, hrun, hafter, hlogs⟩
    have hchanged : ¬Leaves Effect.Harmless world final := by
      intro hleaves
      exact effect_between hleaves.2.effects hboth.2 hafter
    rw [hrun]
    simp only [hchanged, or_false, hlogs]
    constructor
    · intro hlogged first' second' place' hfirst' hsecond' hplace' _
      cases hfirst'
      rw [hsecond] at hsecond'
      cases hsecond'
      rw [hplace, Option.some.injEq] at hplace'
      exact hplace' ▸ hlogged
    · intro hall
      exact hall first second place rfl hsecond hplace hallowed
  · rcases writeFile_cases system (header.imgPath picture.1) picture.2 second
      with ⟨error, hfail, _⟩ | ⟨opened, hplace, hallowed, _⟩
    · rw [outcome_bind_of_error hfail]
      simp only [hboth, or_true, true_iff]
      intro first' second' place' hfirst' hsecond' hplace' hallowed'
      cases hfirst'
      rw [hsecond] at hsecond'
      cases hsecond'
      exact absurd ⟨place', hplace', hallowed'⟩ hopen
    · exact absurd ⟨opened, hplace, hallowed⟩ hopen

/-- The line of a statistic is written and answered, or nothing of it is
written. -/
theorem storePersonStat_settled {header : AlarmHeader F}
    {stat : Value F × List (Value F)} {answered : Prop} :
    ((outcome (storePersonStat system header stat) world).1 = .ok ⟨⟩ ∧
        answered ∨
      Leaves Effect.Harmless world
        (outcome (storePersonStat system header stat) world).2) ↔
      ∀ first place bytes,
        outcome (makeMissing system header.rootDir) world = (.ok ⟨⟩, first) →
        Opens system first.disk header.metaData
            (header.line system stat.1 stat.2) place bytes →
          Takes system first.disk place bytes ∧ answered ∨
            ¬Takes system first.disk place bytes ∧
              partTaken system first.disk place bytes = [] := by
  have hroot := @leaves_makeMissing_harmless F system world header.rootDir
  rcases hfirst : outcome (makeMissing system header.rootDir) world with
    ⟨error | value, first⟩
  · rw [hfirst] at hroot
    rw [storePersonStat, outcome_bind_of_error hfirst]
    simp [hroot]
  rw [hfirst] at hroot
  rw [storePersonStat, outcome_bind_of_ok hfirst]
  rw [appendLine_settled hroot]
  constructor
  · intro hall first' place bytes hfirst'
    cases hfirst'
    exact hall place bytes
  · intro hall place bytes
    exact hall first place bytes rfl

theorem failsUnchanged_iff_settled {path : Str} {jsonObj : Value F} :
    FailsUnchanged (doPost system path jsonObj) world ↔
      (outcome (handlePost system path jsonObj) world).1 = .ok ⟨⟩ ∧
          system.replyFails path jsonObj = none ∨
        Leaves Effect.Harmless world
          (outcome (handlePost system path jsonObj) world).2 := by
  rw [failsUnchanged_doPost_iff, FailsUnchanged]
  rcases outcome (handlePost system path jsonObj) world with
    ⟨error | value, final⟩
  · simp
  · cases system.replyFails path jsonObj with
    | none => simp
    | some error => simp

theorem handlePost_alarmPath (system : System F) (jsonObj : Value F) :
    handlePost system alarmPath jsonObj = storeAlarmInfoNew system jsonObj := by
  rw [handlePost, if_neg (by decide),
    if_pos (show alarmPath = str "/api/alarmInfo" from rfl)]

/-- An alarm that fails changes nothing exactly if nothing can fail once its
picture file is open, or once its line is written. -/
theorem alarm_failsUnchanged_iff (jsonObj : Value F) :
    FailsUnchanged (doPost system alarmPath jsonObj) world ↔
      LogsWhatItStores system world jsonObj := by
  rw [failsUnchanged_iff_settled, handlePost_alarmPath]
  by_cases hpicture : ∃ header picture, HasPicture jsonObj header picture
  · rcases hpicture with ⟨header, picture, hhas⟩
    rw [hhas.outcome_eq, storeAlarmResult_settled]
    constructor
    · intro hall
      constructor
      · intro header' picture' hhas'
        rcases hhas.unique hhas' with ⟨hheader, hsame⟩
        subst hheader hsame
        exact hall
      · intro header' stat hstat
        exact absurd hstat hhas.not_hasStat
    · intro hlogs
      exact hlogs.picture header picture hhas
  · simp only [not_exists] at hpicture
    by_cases hstat : ∃ header stat, HasStat jsonObj header stat
    · rcases hstat with ⟨header, stat, hhas⟩
      rw [hhas.outcome_eq, storePersonStat_settled]
      constructor
      · intro hall
        constructor
        · intro header' picture' hhas'
          exact absurd hhas' (hpicture header' picture')
        · intro header' stat' hhas'
          rcases hhas.unique hhas' with ⟨hheader, hsame⟩
          subst hheader hsame
          exact hall
      · intro hlogs
        exact hlogs.stat header stat hhas
    · simp only [not_exists] at hstat
      have hleaves := @keeps_storeAlarmInfoNew F _ system
        (Leaves Effect.Harmless) Leaves.refl jsonObj (keeps_print _) hpicture
        hstat world
      simp only [hleaves, or_true, true_iff]
      exact ⟨fun header picture hhas => absurd hhas (hpicture header picture),
        fun header stat hhas => absurd hhas (hstat header stat)⟩

end Alarms

/-! ## Both kinds of requests -/

/-- When a request that fails leaves the server as it was. -/
theorem doPost_failsUnchanged_iff (system : System F) (world : World F)
    (jsonObj : Value F) :
    (FailsUnchanged (doPost system heartbeatPath jsonObj) world ↔
        RepeatsStored system world jsonObj ∧
          (system.replyFails heartbeatPath jsonObj ≠ none →
            RepeatsAll system world jsonObj)) ∧
      (FailsUnchanged (doPost system alarmPath jsonObj) world ↔
        LogsWhatItStores system world jsonObj) := by
  constructor
  · rw [failsUnchanged_doPost_iff, handlePost_heartbeatPath,
      checkHeartbeat_failsUnchanged_iff, checkHeartbeat_leaves_iff]
  · exact alarm_failsUnchanged_iff jsonObj

/-- An alarm whose time stamp is missing. -/
def nullAlarm : Value Empty :=
  .dict [(str "name", .str (str "intrusion")), (str "seqId", .int 1),
    (str "data", .dict [
      (str "device", .dict [(str "deviceId", .str (str "cam")),
        (str "deviceMac", .str []), (str "deviceIp", .str [])]),
      (str "alarmResult", .dict [(str "timestamp", .none),
        (str "img", .str (str "aGk="))])])]

/-- A task before an unknown one has a new time, and an alarm without a time
stamp has a picture and no line. -/
theorem doPost_failsUnchanged_fails :
    (¬∀ (system : System Empty) (tasks : List Str) (disk : Disk)
        (requests : List (Str × Value Empty)) (jsonObj : Value Empty),
      FailsUnchanged (doPost system heartbeatPath jsonObj)
        (serve system (initial tasks disk) requests)) ∧
    ¬∀ (system : System Empty) (tasks : List Str) (disk : Disk)
        (requests : List (Str × Value Empty)) (jsonObj : Value Empty),
      FailsUnchanged (doPost system alarmPath jsonObj)
        (serve system (initial tasks disk) requests) := by
  constructor
  · intro hall
    have hinfo := (hall plainSystem [str "Face_0"] plainDisk []
      (heartbeatMessage [(str "Face_0", .int 7), (str "Face_50", .int 7)])
      .nameError _ rfl).1
    have hstored := congrFun hinfo (str "Face_0")
    have hnew : some (Value.int 7) = some (Value.str ([] : Str) : Value Empty) :=
      hstored
    simp at hnew
  · intro hall
    have hgrows := (hall plainSystem [] plainDisk [] nullAlarm
      .typeError _ rfl).2
    rcases hgrows.effects with ⟨new, hnew, hharmless⟩
    have hwritten : Effect.truncate [str "srv", str "alarmData", str "cam",
        str "intrusion", str "None.jpg"] ∈ new := by
      have hsame : _ = [] ++ new := hnew
      rw [List.nil_append] at hsame
      rw [← hsame]
      decide +kernel
    exact hharmless _ hwritten

end Miscellaneous.BoxServer
