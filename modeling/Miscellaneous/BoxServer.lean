import Miscellaneous.Disks
import Mathlib.Tactic

/-!
# The box callback server

The POST handlers of `simple_web_server_boxcallback.py`.  A handler gets the
parsed JSON body; an exception ends the request without a complete reply, and
what has been done before it stays done.
-/

namespace Miscellaneous.BoxServer

open Disks FailingActions PosixPaths PythonBytes PythonJson PythonStrings

/-- What the server does not decide: its working directory, the refusals of the
operating system, the strings that the standard output takes, `json.dumps`, the
text of a body, the text that `strftime` makes of the local time of a time
stamp, and what goes wrong when the client is sent the reply to a request. -/
structure System (F : Type) where
  cwd : List Str
  refuses : Refusal
  accepts : Acceptance
  printable : Str → Bool
  dumps : Value F → Str
  bodyText : Value F → Str
  timeStr : ℤ → Except Error Str
  replyFails : Str → Value F → Option Error

structure World (F : Type) where
  taskList : List Str
  taskUpdateInfo : Str → Option (Value F)
  printed : List Str
  disk : Disk

abbrev Handler (F : Type) := Action (World F) Error

variable {F : Type} [PyRuntime F] (system : System F)

def print (text : Str) : Handler F PUnit := do
  if system.printable text then
    modify fun world => { world with printed := world.printed ++ [text] }
  else throw .unicodeError

def onDisk {α : Type} (action : Action Disk Error α) : Handler F α :=
  zoom World.disk (fun disk world => { world with disk }) action

/-- `if not os.path.exists(path): os.makedirs(path)`. -/
def makeMissing (path : Str) : Handler F PUnit := do
  let world ← get
  unless world.disk.pathExists system.cwd path do
    onDisk (makedirs system.refuses system.cwd path)

/-- `with open(path, 'wb') as f: f.write(bytes)`. -/
def writeFile (path : Str) (bytes : Bytes) : Handler F PUnit := do
  let place ← onDisk (openFile system.refuses .truncate system.cwd path)
  onDisk (writeBytes system.refuses system.accepts (.write place) bytes)

/-- `with open(path, 'a') as f:`, where the line is made after the opening and
its bytes are written when the file is closed. -/
def appendLine (path : Str) (line : Except Error Str) : Handler F PUnit := do
  let place ← onDisk (openFile system.refuses .openAppend system.cwd path)
  let text ← line
  let bytes ← encodeText text
  onDisk (writeBytes system.refuses system.accepts (.append place) bytes)

/-! ## Heartbeats -/

def doesNotContain (task : Str) : Str :=
  str "ERROR: heartbeat does not contain " ++ task

def timeNotChange (task : Str) (time : Value F) : Str :=
  str "ERROR: " ++ task ++ str " last update time not change: " ++ time.toStr

/-- The entries of a message: `recvTaskList` and `recvUpdateTime`. -/
def received (jsonObj : Value F) : Except Error (List (Value F × Value F)) := do
  let dataObj ← jsonObj.getItem (str "data")
  let _serverId ← dataObj.getItem (str "serverId")
  let _timestamp ← dataObj.getItem (str "timestamp")
  let taskInfo ← (← dataObj.getItem (str "taskInfo")).iterate
  taskInfo.mapM fun info => do
    return (← info.getItem (str "taskId"), ← info.getItem (str "lastUpdateTime"))

/-- The warning names a variable that does not exist. -/
def updateTask (entry : Value F × Value F) : Handler F PUnit := do
  let world ← get
  match entry.1 with
  | .str task =>
      match world.taskUpdateInfo task with
      | none => throw .nameError
      | some stored =>
          if entry.2.eq stored then
            print system (timeNotChange task entry.2)
          modify fun world => { world with
            taskUpdateInfo :=
              Function.update world.taskUpdateInfo task (some entry.2) }
  | task => throw (if task.hashable then .nameError else .typeError)

def checkHeartbeat (jsonObj : Value F) : Handler F PUnit := do
  let entries ← received jsonObj
  let world ← get
  world.taskList.forM fun task => do
    unless entries.any fun entry => entry.1.eq (.str task) do
      print system (doesNotContain task)
  entries.forM (updateTask system)

/-! ## Alarms -/

def alarmDir : Str := str "./alarmData"

/-- What every alarm has; empty identifiers are `default`. -/
structure AlarmHeader (F : Type) where
  msgName : Str
  dataObj : Value F
  devId : Str
  devMac : Value F
  devIp : Value F

def orDefault (value : Value F) : Except Error (Value F) := do
  return if (← value.len) = 0 then .str (str "default") else value

def alarmHeader (jsonObj : Value F) : Except Error (AlarmHeader F) := do
  let msgName ← jsonObj.getItem (str "name")
  let _seqId ← jsonObj.getItem (str "seqId")
  let dataObj ← jsonObj.getItem (str "data")
  let devId ← (← dataObj.getItem (str "device")).getItem (str "deviceId")
  let devMac ← (← dataObj.getItem (str "device")).getItem (str "deviceMac")
  let devIp ← (← dataObj.getItem (str "device")).getItem (str "deviceIp")
  let devId ← orDefault devId
  let devMac ← orDefault devMac
  let devIp ← orDefault devIp
  let devId ← devId.asStr .typeError
  let msgName ← msgName.asStr .typeError
  return { msgName, dataObj, devId, devMac, devIp }

def AlarmHeader.rootDir (header : AlarmHeader F) : Str :=
  pathJoin alarmDir header.devId

def AlarmHeader.imgDir (header : AlarmHeader F) : Str :=
  pathJoin header.rootDir header.msgName

def AlarmHeader.metaData (header : AlarmHeader F) : Str :=
  pathJoin header.rootDir (str "meta_data.txt")

def AlarmHeader.imgPath (header : AlarmHeader F) (ts : Value F) : Str :=
  pathJoin header.imgDir (ts.toStr ++ str ".jpg")

/-- The line of an alarm; `more` is what a person statistic adds. -/
def AlarmHeader.line (header : AlarmHeader F) (ts : Value F)
    (more : List (Value F)) : Except Error Str := do
  let timeStr ← system.timeStr (← ts.toInt)
  let fields ← ([.str header.devId, header.devIp, header.devMac,
    .str header.msgName, .str ts.toStr, .str timeStr] ++ more).mapM
      fun field => field.asStr .typeError
  return join (str ",") fields ++ [newline]

/-- Time stamp and picture of an `alarmResult`. -/
def alarmPicture (dataObj : Value F) : Except Error (Value F × Bytes) := do
  let alarmResult ← dataObj.getItem (str "alarmResult")
  let ts ← alarmResult.getItem (str "timestamp")
  let img ← b64decode (← alarmResult.getItem (str "img"))
  return (ts, img)

/-- Time stamp of a `personStatResult` and the fields it adds to the line. -/
def personStat (dataObj : Value F) :
    Except Error (Value F × List (Value F)) := do
  let personStatResult ← dataObj.getItem (str "personStatResult")
  let ts ← personStatResult.getItem (str "timestamp")
  let startDate ← personStatResult.getItem (str "startDate")
  let endDate ← personStatResult.getItem (str "endDate")
  let incoming ← personStatResult.getItem (str "incoming")
  let outgoing ← personStatResult.getItem (str "outgoing")
  return (ts, [startDate, endDate, .str incoming.toStr, .str outgoing.toStr])

def storeAlarmInfoNew (jsonObj : Value F) : Handler F PUnit := do
  let header ← alarmHeader jsonObj
  if ← header.dataObj.contains (str "alarmResult") then
    let (ts, img) ← alarmPicture header.dataObj
    makeMissing system header.rootDir
    makeMissing system header.imgDir
    writeFile system (header.imgPath ts) img
    appendLine system header.metaData (header.line system ts [])
  else if ← header.dataObj.contains (str "personStatResult") then
    let (ts, more) ← personStat header.dataObj
    makeMissing system header.rootDir
    appendLine system header.metaData (header.line system ts more)
  else print system (system.dumps jsonObj)

/-! ## Box results -/

def outputBaseDir : Str := str "./output_dir"

/-- What is stored for a face: two paths and two pictures. -/
def facePictures (curOutputDir : Str) (det trackId attr : Value F) :
    Except Error ((Str × Bytes) × (Str × Bytes)) := do
  let smallImage ← b64decode (← det.getItem (str "smallImage"))
  let backgroundImage ← b64decode (← det.getItem (str "backGroundImage"))
  let faceAttrs ← attr.getItem (str "faceAttrs")
  let downType ← faceAttrs.getItem (str "downType")
  let _timestamp ← faceAttrs.getItem (str "timestamp")
  let trackId ← trackId.asStr .typeError
  let name := trackId ++ str "_" ++ downType.toStr
  return ((pathJoin curOutputDir (name ++ str "_small.jpg"), smallImage),
    (pathJoin curOutputDir (name ++ str "_back.jpg"), backgroundImage))

def storeFace (curOutputDir : Str) (det trackId attr : Value F) :
    Handler F PUnit := do
  let classId ← attr.getItem (str "classId")
  if classId.eq (.int 1) then
    let (small, background) ← facePictures curOutputDir det trackId attr
    writeFile system small.1 small.2
    print system (str "store small image " ++ small.1)
    writeFile system background.1 background.2
    print system (str "store background image " ++ background.1)

def storeDetection (curOutputDir : Str) (det : Value F) : Handler F PUnit := do
  let trackId ← det.getItem (str "trackId")
  let attrs ← (← det.getItem (str "attrs")).iterate
  attrs.forM (storeFace system curOutputDir det trackId)

def storeFaceVideoStreamResult (jsonObj : Value F) : Handler F PUnit := do
  let dataObj ← jsonObj.getItem (str "data")
  let taskId ← (← dataObj.getItem (str "taskId")).asStr .typeError
  let curOutputDir := pathJoin outputBaseDir taskId
  makeMissing system curOutputDir
  let detections ← (← dataObj.getItem (str "detections")).iterate
  detections.forM (storeDetection system curOutputDir)

/-! ## Requests -/

def handlePost (path : Str) (jsonObj : Value F) : Handler F PUnit :=
  if path = str "/api/heartbeat" then print system (system.bodyText jsonObj)
  else if path = str "/api/alarmInfo" then storeAlarmInfoNew system jsonObj
  else if path = str "/openapi/task/HeartBeat" then checkHeartbeat system jsonObj
  else if path = str "/BoxCallBack" then storeFaceVideoStreamResult system jsonObj
  else pure ⟨⟩

def sendReply (path : Str) (jsonObj : Value F) : Handler F PUnit :=
  match system.replyFails path jsonObj with
  | some error => throw error
  | none => pure ⟨⟩

def doPost (path : Str) (jsonObj : Value F) : Handler F PUnit := do
  handlePost system path jsonObj
  sendReply system path jsonObj

/-- The server goes on after a request that failed. -/
def serve (world : World F) (requests : List (Str × Value F)) : World F :=
  requests.foldl
    (fun world request => (outcome (doPost system request.1 request.2) world).2)
    world

/-- The tasks are registered with an empty time. -/
def initial (tasks : List Str) (disk : Disk) : World F where
  taskList := tasks
  taskUpdateInfo task := if tasks.contains task then some (.str []) else none
  printed := []
  disk := disk

section Replies

variable {system} {path : Str} {jsonObj : Value F} {world final : World F}

/-- Sending a reply changes nothing. -/
theorem outcome_doPost_world (system : System F) (path : Str)
    (jsonObj : Value F) (world : World F) :
    (outcome (doPost system path jsonObj) world).2 =
      (outcome (handlePost system path jsonObj) world).2 := by
  rw [doPost, outcome_bind]
  rcases outcome (handlePost system path jsonObj) world with
    ⟨error | value, middle⟩
  · rfl
  · unfold sendReply
    cases system.replyFails path jsonObj with
    | none => rfl
    | some error => rfl

theorem doPost_eq_ok_iff {result : PUnit} :
    outcome (doPost system path jsonObj) world = (.ok result, final) ↔
      outcome (handlePost system path jsonObj) world = (.ok result, final) ∧
        system.replyFails path jsonObj = none := by
  rw [doPost, outcome_bind]
  rcases outcome (handlePost system path jsonObj) world with
    ⟨error | value, middle⟩
  · simp
  · unfold sendReply
    cases system.replyFails path jsonObj with
    | none => simp
    | some error => simp

theorem doPost_eq_error_iff {error : Error} :
    outcome (doPost system path jsonObj) world = (.error error, final) ↔
      outcome (handlePost system path jsonObj) world = (.error error, final) ∨
        outcome (handlePost system path jsonObj) world = (.ok ⟨⟩, final) ∧
          system.replyFails path jsonObj = some error := by
  rw [doPost, outcome_bind]
  rcases outcome (handlePost system path jsonObj) world with
    ⟨error | value, middle⟩
  · simp
  · unfold sendReply
    cases system.replyFails path jsonObj with
    | none => simp
    | some error => simp [and_comm]

end Replies

/-! ## A small installation -/

/-- Nothing is refused, everything can be printed, and every reply is sent. -/
def plainSystem : System Empty where
  cwd := [str "srv"]
  refuses _ _ := none
  accepts _ _ := 0
  printable _ := true
  dumps _ := []
  bodyText _ := []
  timeStr _ := .ok (str "2021-01-01 00:00:00")
  replyFails _ _ := none

/-- The directory for the alarms is there. -/
def plainDisk : Disk where
  isDir place :=
    [[], [str "srv"], [str "srv", str "alarmData"]].contains place
  content _ := none
  effects := []

end Miscellaneous.BoxServer
