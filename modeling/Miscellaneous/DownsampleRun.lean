import Miscellaneous.DirectoryTrees
import Miscellaneous.DownsampleTex
import Miscellaneous.DownsampleRoots
import Mathlib.Tactic

/-!
# A run of the down-sampling

`python downsample.py --downsample`, with or without `--copy` and
`--add_needscale`: the assets of the list file are copied one after the other,
and then the listed files of the copy are written again, each from its source.
An exception ends the run where it is raised.
-/

namespace Miscellaneous.DownsampleRun

open DirectoryTrees Downsample DownsampleTex FailingActions PosixPaths PythonJson
  PythonStrings

/-- The text of a file, JSON, and the images of `cv2`: `imread` has no image for
what it cannot read, which cannot be resized, and `imencode` chooses the format
by the path.  `imwritable` are the paths whose file `imwrite` may open.  The two
writers leave what they have written in the file when they raise an
exception. -/
structure Tools (C I F : Type) where
  numbers : NumberText
  text : C → Except Error Str
  encode : Str → C × Except Error PUnit
  loads : Str → Except Error (Value F)
  dump : Value F → C × Except Error PUnit
  imread : C → Option I
  resize : Option I → ℚ → Except Error I
  imencode : Str → I → Except Error C
  imwritable : Str → Bool
  resize_none : ∀ scale, ∃ error, resize none scale = .error error

structure Arguments where
  listFile : Str
  magic : Option Str
  target : Str
  scale : ℚ
  copy : Bool
  addNeedscale : Bool

section Program

variable {C I F : Type} [PyRuntime F] (tools : Tools C I F) (cwd : List Str)

def readText (path : Str) : Work C Str := do
  let content ← readFile cwd path
  tools.text content

def writeWith (path : Str) (written : C × Except Error PUnit) :
    Work C PUnit := do
  writeFile cwd path written.1
  written.2

def downscaledImage (srcPath dstPath : Str) (scale : ℚ) (drive : Drive C) :
    Except Error C := do
  let img := match (drive.find cwd srcPath).bind drive with
    | some (.file content) => tools.imread content
    | some .directory => none
    | none => none
  let imgScale ← tools.resize img scale
  tools.imencode dstPath imgScale

/-- `cv2.imwrite` to a file that cannot be opened does nothing. -/
def downscaleImg (srcPath dstPath : Str) (scale : ℚ) : Work C PUnit := do
  let drive ← get
  let content ← (downscaledImage tools cwd srcPath dstPath scale drive)
  match drive.find cwd dstPath with
  | none => return ⟨⟩
  | some place =>
      if isDirectory (drive place) || !tools.imwritable dstPath then return ⟨⟩
      else modify fun drive => Function.update drive place (some (.file content))

def scaledLine (scale : ℚ) (text : Str) : Except Error Str := do
  let found ← readTex tools.numbers text
  return found.flatMap fun vertex => item tools.numbers (vertex.scaled scale)

def downscaleTex (srcPath dstPath : Str) (scale : ℚ) : Work C PUnit := do
  let drive ← get
  if drive.pathExists cwd srcPath then do
    let text ← readText tools cwd srcPath
    let line ← scaledLine tools scale text
    writeWith cwd dstPath (tools.encode line)
  else return ⟨⟩

def addNeedScaleToJsonFiles (elements jsonFiles : List Str) : Work C PUnit :=
  jsonFiles.forM fun path => do
    let text ← readText tools cwd path
    let config ← tools.loads text
    let marked ← addNeedScale elements path config
    writeWith cwd path (tools.dump marked)

def removeOld (dstDir : Str) : Work C PUnit := do
  let drive ← get
  if drive.pathExists cwd dstDir then rmtree cwd dstDir else return ⟨⟩

def copyAsset (oriDir dstDir : Str) : Work C PUnit := do
  removeOld cwd dstDir
  copytree cwd oriDir dstDir

def downscale (srcPath dstPath : Str) (scale : ℚ) : Work C PUnit :=
  if str ".tex" <:+ srcPath then downscaleTex tools cwd srcPath dstPath scale
  else downscaleImg tools cwd srcPath dstPath scale

def downsampleAsset (arguments : Arguments) (magic oriDir : Str)
    (files : List Str) : Work C PUnit := do
  (if arguments.copy then
    copyAsset cwd oriDir (dstDir magic arguments.target oriDir)
  else return ⟨⟩)
  files.forM fun file =>
    downscale tools cwd (srcPath oriDir file)
      (dstPath magic arguments.target oriDir file) arguments.scale
  (if arguments.addNeedscale then
    addNeedScaleToJsonFiles tools cwd (oriDir :: files)
      (getDstConfigJsonFiles oriDir files magic arguments.target)
  else return ⟨⟩)

/-- The elements of one line; a blank line has no first element. -/
def downsampleLine (arguments : Arguments) : List Str → Work C PUnit
  | [] => throw .indexError
  | oriDir :: files =>
      match arguments.magic with
      | none => throw .typeError
      | some magic => downsampleAsset tools cwd arguments magic oriDir files

def readList (listFile : Str) : Work C (List (List Str)) := do
  let text ← readText tools cwd listFile
  return readRecords text

def downsample (arguments : Arguments) : Work C PUnit := do
  let records ← readList tools cwd arguments.listFile
  records.forM (downsampleLine tools cwd arguments)

end Program

/-- The scaled text is the one of a directory of text files. -/
theorem downscaleTex_eq_scaledLine {C I F : Type} (tools : Tools C I F)
    (files : Files) (srcPath dstPath : Str) (scale : ℚ) :
    DownsampleTex.downscaleTex tools.numbers srcPath dstPath scale files =
      match files srcPath with
      | none => .ok files
      | some content =>
          (scaledLine tools scale content).map fun line =>
            Function.update files dstPath (some line) := by
  rw [DownsampleTex.downscaleTex]
  cases files srcPath with
  | none => rfl
  | some content =>
      cases hread : readTex tools.numbers content with
      | error error => simp [scaledLine, hread, bind, Except.bind, Except.map]
      | ok found =>
          simp [scaledLine, hread, bind, Except.bind, Except.map, pure,
            Except.pure]

end Miscellaneous.DownsampleRun
