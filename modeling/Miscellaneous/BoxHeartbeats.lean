import Miscellaneous.BoxServer
import Mathlib.Tactic

/-!
# Heartbeats

After messages that mention registered tasks only, the stored time of a task is
the one of its latest entry, and the reports are those that compare every
message with the entries before it.  An entry of an unknown task ends the
message: the entries before it are stored and those after it are lost.
-/

namespace Miscellaneous.BoxServer

open Disks FailingActions PythonJson PythonStrings

variable {F : Type}

/-! ## The latest time -/

/-- The time of the latest entry of a task, empty if there is none. -/
def latestTime (history : List (Str × Value F)) (task : Str) : Value F :=
  (history.reverse.lookup task).getD (.str [])

/-- The stored times are those of the latest entries. -/
structure Tracks (tasks : List Str) (history : List (Str × Value F))
    (world : World F) : Prop where
  taskList : world.taskList = tasks
  stored : ∀ task ∈ tasks,
    world.taskUpdateInfo task = some (latestTime history task)
  unknown : ∀ task, task ∉ tasks → world.taskUpdateInfo task = none

theorem latestTime_append (history : List (Str × Value F))
    (entry : Str × Value F) (task : Str) :
    latestTime (history ++ [entry]) task =
      if task = entry.1 then entry.2 else latestTime history task := by
  rw [latestTime, List.reverse_append, List.reverse_singleton,
    List.singleton_append, List.lookup_cons]
  by_cases htask : task = entry.1
  · simp [htask]
  · rw [beq_eq_false_iff_ne.mpr htask, if_neg htask]
    rfl

theorem Tracks.append {tasks : List Str} {history : List (Str × Value F)}
    {world : World F} (htracks : Tracks tasks history world)
    {entry : Str × Value F} (hentry : entry.1 ∈ tasks) (printed : List Str) :
    Tracks tasks (history ++ [entry])
      { world with
        taskUpdateInfo :=
          Function.update world.taskUpdateInfo entry.1 (some entry.2)
        printed := printed } := by
  constructor
  · exact htracks.taskList
  · intro task htask
    rw [latestTime_append]
    by_cases hsame : task = entry.1
    · simp [hsame]
    · simp [hsame, htracks.stored task htask]
  · intro task htask
    have hne : task ≠ entry.1 := fun hsame => htask (hsame ▸ hentry)
    simp [hne, htracks.unknown task htask]

theorem initial_tracks (tasks : List Str) (disk : Disk) :
    Tracks tasks [] (initial tasks disk : World F) := by
  constructor
  · rfl
  · intro task htask
    exact if_pos (List.contains_iff_mem.mpr htask)
  · intro task htask
    exact if_neg (mt List.contains_iff_mem.mp htask)

theorem outcome_print {system : System F} {text : Str}
    (htext : system.printable text = true)
    (world : World F) :
    outcome (print system text) world =
      (.ok ⟨⟩, { world with printed := world.printed ++ [text] }) := by
  rw [print, if_pos htext]
  rfl

/-! ## Messages -/

/-- The parsed message has these entries. -/
def WellFormed (jsonObj : Value F) (message : List (Str × Value F)) : Prop :=
  received jsonObj =
    .ok (message.map fun entry => (.str entry.1, entry.2))

/-- An entry of `taskInfo`. -/
def heartbeatInfo (entry : Str × Value F) : Value F :=
  .dict [(str "taskId", .str entry.1), (str "lastUpdateTime", entry.2)]

def heartbeatMessage (entries : List (Str × Value F)) : Value F :=
  .dict [(str "data", .dict [
    (str "serverId", .str (str "box")), (str "timestamp", .int 0),
    (str "taskInfo", .list (entries.map heartbeatInfo))])]

theorem heartbeatMessage_wellFormed (entries : List (Str × Value F)) :
    WellFormed (heartbeatMessage entries) entries := by
  have hentries : (entries.map heartbeatInfo).mapM
      (fun info => do
        return (← info.getItem (str "taskId"),
          ← info.getItem (str "lastUpdateTime"))) =
        (.ok (entries.map fun entry => (.str entry.1, entry.2)) :
          Except Error (List (Value F × Value F))) := by
    rw [mapM_eq_ok_iff, List.forall₂_map_left_iff, List.forall₂_map_right_iff,
      List.forall₂_same]
    intro entry _
    rfl
  exact hentries

/-! ## The reports -/

def missingReports (tasks : List Str) (message : List (Str × Value F)) :
    List Str :=
  (tasks.filter fun task => !(message.map Prod.fst).contains task).map
    doesNotContain

variable [PyRuntime F]

/-- The reports about the entries whose time is the one before. -/
def repeatedReports (history : List (Str × Value F)) :
    List (Str × Value F) → List Str
  | [] => []
  | entry :: message =>
      (if entry.2.eq (latestTime history entry.1) then
        [timeNotChange entry.1 entry.2] else []) ++
      repeatedReports (history ++ [entry]) message

def reports (tasks : List Str) (history message : List (Str × Value F)) :
    List Str :=
  missingReports tasks message ++ repeatedReports history message

def allReports (tasks : List Str) (history : List (Str × Value F)) :
    List (List (Str × Value F)) → List Str
  | [] => []
  | message :: messages =>
      reports tasks history message ++
        allReports tasks (history ++ message) messages

/-! ## One message -/

section Message

variable {system : System F}

/-- The loop over the registered tasks. -/
def reportMissing (system : System F) (entries : List (Value F × Value F))
    (task : Str) : Handler F PUnit := do
  unless entries.any fun entry => entry.1.eq (.str task) do
    print system (doesNotContain task)

theorem any_eq_iff {message : List (Str × Value F)} {task : Str} :
    ((message.map fun entry => ((Value.str entry.1 : Value F), entry.2)).any
        fun entry => entry.1.eq (.str task)) = true ↔
      task ∈ message.map Prod.fst := by
  simp only [List.any_map, List.any_eq_true, Function.comp_apply,
    Value.eq_str_iff, Value.str.injEq, List.mem_map]

theorem outcome_reportMissing {tasks : List Str}
    {message : List (Str × Value F)}
    (hprintable : ∀ text ∈ missingReports tasks message,
      system.printable text = true) (world : World F) :
    outcome (tasks.forM (reportMissing system
        (message.map fun entry => (.str entry.1, entry.2)))) world =
      (.ok ⟨⟩, { world with
        printed := world.printed ++ missingReports tasks message }) := by
  induction tasks generalizing world with
  | nil =>
      simp only [missingReports, List.filter_nil, List.map_nil, List.append_nil]
      rfl
  | cons task tasks ih =>
      rw [forM_cons]
      by_cases htask : task ∈ message.map Prod.fst
      · have hmissing : missingReports (task :: tasks) message =
            missingReports tasks message := by
          rw [missingReports, List.filter_cons_of_neg (by simp [htask])]
          rfl
        rw [hmissing] at hprintable ⊢
        have hfirst : outcome (reportMissing system
            (message.map fun entry => (.str entry.1, entry.2)) task) world =
              (.ok ⟨⟩, world) := by
          rw [reportMissing, if_pos (any_eq_iff.mpr htask)]
          rfl
        rw [outcome_bind_of_ok hfirst]
        exact ih hprintable world
      · have hmissing : missingReports (task :: tasks) message =
            doesNotContain task :: missingReports tasks message := by
          rw [missingReports, List.filter_cons_of_pos (by simp [htask])]
          rfl
        rw [hmissing] at hprintable ⊢
        have hfirst : outcome (reportMissing system
            (message.map fun entry => (.str entry.1, entry.2)) task) world =
              (.ok ⟨⟩, { world with
                printed := world.printed ++ [doesNotContain task] }) := by
          rw [reportMissing, if_neg (mt any_eq_iff.mp htask)]
          exact outcome_print (hprintable _ List.mem_cons_self) world
        rw [outcome_bind_of_ok hfirst,
          ih (fun text htext => hprintable text (List.mem_cons_of_mem _ htext))]
        simp

/-- The world after an entry of a registered task. -/
def World.updated (world : World F) (stored : Value F)
    (entry : Str × Value F) : World F :=
  { world with
    taskUpdateInfo := Function.update world.taskUpdateInfo entry.1 (some entry.2)
    printed := world.printed ++
      (if entry.2.eq stored then [timeNotChange entry.1 entry.2] else []) }

theorem outcome_updateTask {world : World F} {entry : Str × Value F}
    {stored : Value F} (hstored : world.taskUpdateInfo entry.1 = some stored)
    (hprintable : entry.2.eq stored = true →
      system.printable (timeNotChange entry.1 entry.2) = true) :
    outcome (updateTask system (.str entry.1, entry.2)) world =
      (.ok ⟨⟩, world.updated stored entry) := by
  rw [updateTask, outcome_bind_of_ok (outcome_get world)]
  simp only [hstored]
  by_cases hsame : entry.2.eq stored = true
  · rw [if_pos hsame, outcome_bind_of_ok (outcome_print (hprintable hsame) world)]
    simp [World.updated, hsame]
  · rw [if_neg hsame, outcome_modify]
    simp [World.updated, hsame]

theorem outcome_updateTasks {tasks : List Str}
    {history message : List (Str × Value F)} {world : World F}
    (htracks : Tracks tasks history world)
    (hregistered : ∀ entry ∈ message, entry.1 ∈ tasks)
    (hprintable : ∀ text ∈ repeatedReports history message,
      system.printable text = true) :
    ∃ final, outcome ((message.map fun entry => (.str entry.1, entry.2)).forM
        (updateTask system)) world = (.ok ⟨⟩, final) ∧
      Tracks tasks (history ++ message) final ∧
      final.printed = world.printed ++ repeatedReports history message := by
  induction message generalizing history world with
  | nil =>
      refine ⟨world, rfl, ?_, by simp [repeatedReports]⟩
      rwa [List.append_nil]
  | cons entry message ih =>
      have hentry : entry.1 ∈ tasks := hregistered entry List.mem_cons_self
      rw [repeatedReports] at hprintable ⊢
      have hfirst := @outcome_updateTask F _ system world entry _
        (htracks.stored entry.1 hentry) (fun hsame => hprintable _ (by
          rw [if_pos hsame]
          exact List.mem_cons_self))
      rcases @ih (history ++ [entry])
          (world.updated (latestTime history entry.1) entry)
          (htracks.append hentry _)
          (fun other hother => hregistered other (List.mem_cons_of_mem _ hother))
          (fun text htext => hprintable text (List.mem_append_right _ htext)) with
        ⟨final, hrun, htracks', hprinted⟩
      refine ⟨final, ?_, ?_, ?_⟩
      · rw [List.map_cons, forM_cons, outcome_bind_of_ok hfirst]
        exact hrun
      · rwa [← List.append_cons] at htracks'
      · rw [hprinted, World.updated, List.append_assoc]

theorem outcome_checkHeartbeat {tasks : List Str}
    {history message : List (Str × Value F)} {world : World F} {json : Value F}
    (htracks : Tracks tasks history world) (hwell : WellFormed json message)
    (hregistered : ∀ entry ∈ message, entry.1 ∈ tasks)
    (hprintable : ∀ text ∈ reports tasks history message,
      system.printable text = true) :
    ∃ final, outcome (checkHeartbeat system json) world = (.ok ⟨⟩, final) ∧
      Tracks tasks (history ++ message) final ∧
      final.printed = world.printed ++ reports tasks history message := by
  have htaskList := htracks.taskList
  subst htaskList
  have hmissing := @outcome_reportMissing F _ system world.taskList message
    (fun text htext => hprintable text (List.mem_append_left _ htext)) world
  have htracks' : Tracks world.taskList history
      { world with
        printed := world.printed ++ missingReports world.taskList message } :=
    ⟨rfl, htracks.stored, htracks.unknown⟩
  rcases @outcome_updateTasks F _ system world.taskList history message _ htracks'
      hregistered
      (fun text htext => hprintable text (List.mem_append_right _ htext)) with
    ⟨final, hrun, hfinal, hprinted⟩
  refine ⟨final, ?_, hfinal, ?_⟩
  · rw [checkHeartbeat, hwell, outcome_bind_of_ok (outcome_lift _ world),
      outcome_bind_of_ok (outcome_get world)]
    exact (outcome_bind_of_ok hmissing).trans hrun
  · rw [hprinted, reports, List.append_assoc]

end Message

/-! ## Histories of messages -/

def heartbeatPath : Str := str "/openapi/task/HeartBeat"

theorem handlePost_heartbeatPath (system : System F) (jsonObj : Value F) :
    handlePost system heartbeatPath jsonObj = checkHeartbeat system jsonObj := by
  rw [handlePost, if_neg (by decide), if_neg (by decide),
    if_pos (show heartbeatPath = str "/openapi/task/HeartBeat" from rfl)]

/-- The requests with the messages as their bodies. -/
def heartbeats (messages : List (Value F × List (Str × Value F))) :
    List (Str × Value F) :=
  messages.map fun message => (heartbeatPath, message.1)

/-- While all entries are of registered tasks and what is to be printed can be
printed, the stored times and the reports are the expected ones. -/
theorem serve_heartbeats {system : System F} {tasks : List Str}
    {messages : List (Value F × List (Str × Value F))}
    {history : List (Str × Value F)} {world : World F}
    (htracks : Tracks tasks history world)
    (hwell : ∀ message ∈ messages, WellFormed message.1 message.2)
    (hregistered : ∀ message ∈ messages, ∀ entry ∈ message.2, entry.1 ∈ tasks)
    (hprintable : ∀ text ∈ allReports tasks history (messages.map Prod.snd),
      system.printable text = true) :
    Tracks tasks (history ++ messages.flatMap Prod.snd)
        (serve system world (heartbeats messages)) ∧
      (serve system world (heartbeats messages)).printed =
        world.printed ++ allReports tasks history (messages.map Prod.snd) := by
  induction messages generalizing history world with
  | nil => simpa [heartbeats, serve, allReports] using htracks
  | cons message messages ih =>
      rw [List.map_cons, allReports] at hprintable ⊢
      rcases @outcome_checkHeartbeat F _ system tasks history message.2 world
          message.1 htracks (hwell message List.mem_cons_self)
          (hregistered message List.mem_cons_self)
          (fun text htext => hprintable text (List.mem_append_left _ htext)) with
        ⟨final, hrun, hfinal, hprinted⟩
      have hpost : (outcome (doPost system heartbeatPath message.1) world).2 =
          final := by
        rw [outcome_doPost_world, handlePost_heartbeatPath, hrun]
      have hserve : serve system world (heartbeats (message :: messages)) =
          serve system final (heartbeats messages) := by
        rw [serve, heartbeats, List.map_cons, List.foldl_cons, hpost]
        rfl
      have hrest := ih hfinal
        (fun other hother => hwell other (List.mem_cons_of_mem _ hother))
        (fun other hother => hregistered other (List.mem_cons_of_mem _ hother))
        (fun text htext => hprintable text (List.mem_append_right _ htext))
      rw [hserve, List.flatMap_cons, ← List.append_assoc]
      refine ⟨hrest.1, ?_⟩
      rw [hrest.2, hprinted, List.append_assoc]

/-- After heartbeats with registered tasks only, the stored times are the latest
ones, no task has been added, and the reports are those of the messages. -/
theorem heartbeats_expected {system : System F} {tasks : List Str}
    (disk : Disk) {messages : List (Value F × List (Str × Value F))}
    (hwell : ∀ message ∈ messages, WellFormed message.1 message.2)
    (hregistered : ∀ message ∈ messages, ∀ entry ∈ message.2, entry.1 ∈ tasks)
    (hprintable : ∀ text ∈ allReports tasks [] (messages.map Prod.snd),
      system.printable text = true) :
    (∀ task ∈ tasks,
        (serve system (initial tasks disk) (heartbeats messages)).taskUpdateInfo
            task =
          some (latestTime (messages.flatMap Prod.snd) task)) ∧
      (∀ task, task ∉ tasks →
        (serve system (initial tasks disk) (heartbeats messages)).taskUpdateInfo
            task = none) ∧
      (serve system (initial tasks disk) (heartbeats messages)).printed =
        allReports tasks [] (messages.map Prod.snd) := by
  rcases @serve_heartbeats F _ system tasks messages [] _
    (initial_tracks tasks disk) hwell hregistered hprintable with
    ⟨htracks, hprinted⟩
  refine ⟨htracks.stored, htracks.unknown, ?_⟩
  rw [hprinted]
  rfl

theorem heartbeats_expected_twice :
    let first : List (Str × Value Empty) :=
      [(str "Face_0", .int 7), (str "Face_1", .int 7)]
    let second : List (Str × Value Empty) := [(str "Face_1", .int 7)]
    let world := serve plainSystem (initial [str "Face_0", str "Face_1"] plainDisk)
      (heartbeats [(heartbeatMessage first, first),
        (heartbeatMessage second, second)])
    world.taskUpdateInfo (str "Face_1") = some (.int 7) ∧
      world.printed = [str "ERROR: heartbeat does not contain Face_0",
        str "ERROR: Face_1 last update time not change: 7"] := by
  intro first second world
  have hwell : ∀ message ∈ [(heartbeatMessage first, first),
      (heartbeatMessage second, second)], WellFormed message.1 message.2 := by
    intro message hmessage
    simp only [List.mem_cons, List.not_mem_nil, or_false] at hmessage
    rcases hmessage with hmessage | hmessage
    · rw [hmessage]
      exact heartbeatMessage_wellFormed first
    · rw [hmessage]
      exact heartbeatMessage_wellFormed second
  have hregistered : ∀ message ∈ [(heartbeatMessage first, first),
      (heartbeatMessage second, second)], ∀ entry ∈ message.2,
        entry.1 ∈ [str "Face_0", str "Face_1"] := by
    intro message hmessage entry hentry
    simp only [List.mem_cons, List.not_mem_nil, or_false] at hmessage ⊢
    rcases hmessage with hmessage | hmessage
    · simp only [hmessage, first, List.mem_cons, List.not_mem_nil,
        or_false] at hentry
      rcases hentry with hentry | hentry <;> simp [hentry]
    · simp only [hmessage, second, List.mem_singleton] at hentry
      simp [hentry]
  have hexpected := @heartbeats_expected Empty _ plainSystem _ plainDisk _ hwell
    hregistered (fun _ _ => rfl)
  constructor
  · exact hexpected.1 (str "Face_1") (by simp)
  · exact hexpected.2.2

/-- An entry of an unknown task before one of a registered task. -/
theorem heartbeats_expected_fails :
    ¬∀ (system : System Empty) (tasks : List Str) (disk : Disk)
        (messages : List (Value Empty × List (Str × Value Empty))),
      (∀ text, system.printable text = true) →
      (∀ message ∈ messages, WellFormed message.1 message.2) →
        ∀ task ∈ tasks,
          (serve system (initial tasks disk) (heartbeats messages)).taskUpdateInfo
              task =
            some (latestTime (messages.flatMap Prod.snd) task) := by
  intro hall
  have hlatest := hall plainSystem [str "Face_0"] plainDisk
    [(heartbeatMessage [(str "Face_50", .int 7), (str "Face_0", .int 7)],
      [(str "Face_50", .int 7), (str "Face_0", .int 7)])]
    (fun _ => rfl)
    (fun message hmessage => by
      rw [List.mem_singleton.mp hmessage]
      exact heartbeatMessage_wellFormed _)
    (str "Face_0") (List.mem_singleton_self _)
  have hstored : (serve plainSystem (initial [str "Face_0"] plainDisk)
      (heartbeats [(heartbeatMessage [(str "Face_50", (.int 7 : Value Empty)),
          (str "Face_0", .int 7)],
        [(str "Face_50", .int 7), (str "Face_0", .int 7)])])).taskUpdateInfo
          (str "Face_0") = some (.str []) := rfl
  rw [hstored] at hlatest
  exact absurd hlatest (by simp [latestTime])

end Miscellaneous.BoxServer
