import Miscellaneous.PosixPaths
import Miscellaneous.PythonJson
import Mathlib.Tactic

/-!
# Collecting and mapping assets

The functions of `downsample.py` that decide which files are listed and which
paths are written.  Opening and parsing a JSON file, asking whether a path is
a file and measuring an image are the environment; a record is a list of
strings, the path of the asset first.
-/

namespace Miscellaneous.Downsample

open PosixPaths PythonJson PythonStrings

/-- `load` is `json.load(open(path))`, and `imread` gives the height and width
of an image that can be read. -/
structure Environment (F : Type) where
  load : Str → Except Error (Value F)
  isfile : Str → Bool
  imread : Str → Option (ℕ × ℕ)

variable {F : Type} [PyRuntime F]

/-- The names of the image and of the tex file of a filter whose image is
large. -/
def largeImgAndTex (env : Environment F) (dgMakeup : Str) (filter : Value F) :
    Except Error (Option (Str × Str)) := do
  if ← filter.contains (str "parts") then
    let parts ← filter.getItem (str "parts")
    if (← parts.contains (str "INNERFACE")) ||
        (← parts.contains (str "OUTERFACE")) then
      if ← filter.contains (str "img") then
        let img ← (← filter.getItem (str "img")).asStr .attributeError
        if ¬str "shang" <+: img then
          let imgPath := pathJoin dgMakeup img
          if env.isfile imgPath then
            match env.imread imgPath with
            | none => throw .attributeError
            | some (h, w) =>
                if 400 ≤ h ∨ 400 ≤ w then
                  let tex ← (← filter.getItem (str "tex")).asStr .typeError
                  return some (img, tex)
  return none

/-- `dg_makeup[dg_makeup.rfind('dg_makeup'):]`. -/
def lastDgMakeup (path : Str) : Str :=
  sliceFrom path (rfind path (str "dg_makeup"))

/-- The pairs of names that one `config.json` contributes, in order. -/
def largePairs (env : Environment F) (dgMakeup : Str) :
    Except Error (List (Str × Str)) :=
  match env.load (pathJoin dgMakeup (str "config.json")) with
  | .error .fileNotFoundError => .ok []
  | .error error => .error error
  | .ok config => do
      let filters ← (← config.getItem (str "filters")).iterate
      let pairs ← filters.mapM (largeImgAndTex env dgMakeup)
      return pairs.reduceOption

/-- The two elements that a pair of names becomes. -/
def pairElements (dgMakeup : Str) (pair : Str × Str) : List Str :=
  [pathJoin (lastDgMakeup dgMakeup) pair.1, pathJoin (lastDgMakeup dgMakeup) pair.2]

def getLargeTexFiles (env : Environment F) (dgMakeup : Str) :
    Except Error (List Str) := do
  return (← largePairs env dgMakeup).flatMap (pairElements dgMakeup)

/-- The entries of `params.txt` that start with `dg_makeup`. -/
def dgMakeups (env : Environment F) (asset : Str) :
    Except Error (List Str) :=
  match env.load (pathJoin asset (str "params.txt")) with
  | .error .fileNotFoundError => .ok []
  | .error error => .error error
  | .ok config => do
      let filters ← (← config.getItem (str "filters")).iterate
      let names ← filters.mapM fun filter => filter.asStr .attributeError
      return names.filter fun name => str "dg_makeup" <+: name

/-- A record of the asset alone is dropped. -/
def analyzeMagicAssets (env : Environment F) (asset : Str) :
    Except Error (List Str) := do
  let names ← dgMakeups env asset
  let files ← names.mapM fun name => getLargeTexFiles env (pathJoin asset name)
  return if files.flatten = [] then [] else asset :: files.flatten

/-! ## The list file -/

def recordLine (record : List Str) : Str :=
  join [space] record ++ [newline]

/-- What `--update` writes; a string that cannot be encoded raises an
exception. -/
def writeRecords (records : List (List Str)) : Option Str :=
  encode (records.flatMap recordLine)

/-- The `elements` of the lines that `--downsample` reads. -/
def readRecords (file : Str) : List (List Str) :=
  (readlines (universalNewlines false file)).map split

/-! ## The mapped paths -/

def dstDir (magic target asset : Str) : Str := replace asset magic target

/-- `os.path.join(elements[0], _)`. -/
def srcPath (asset element : Str) : Str := pathJoin asset element

def dstPath (magic target asset element : Str) : Str :=
  replace (srcPath asset element) magic target

def jsonPath (dst : Str) : Str :=
  sliceTo dst (rfind dst [slash]) ++ str "/config.json"

/-- The files without repetitions, in the order in which they come up. -/
def getDstConfigJsonFiles (asset : Str) (elements : List Str)
    (srcRootPath targetRootPath : Str) : List Str :=
  elements.foldl
    (fun files element =>
      let json := jsonPath (dstPath srcRootPath targetRootPath asset element)
      if json ∈ files then files else files ++ [json])
    []

/-! ## The `needScale` marks -/

/-- The name under which a filter has its image. -/
def imgName (filter : Value F) : Except Error (Option Str) := do
  if ← filter.contains (str "img") then
    let img ← (← filter.getItem (str "img")).asStr .typeError
    return some img
  return none

def needScaleFilter (elements : List Str) (parent : Str) (filter : Value F) :
    Except Error (Value F) := do
  match ← imgName filter with
  | some img =>
      if pathJoin parent img ∈ elements then
        return filter.setItem (str "needScale") (.bool false)
      return filter
  | none => return filter

/-- The path from the last `dg_makeup` to the last slash. -/
def configParent (path : Str) : Str :=
  sliceTo (lastDgMakeup path) (rfind (lastDgMakeup path) [slash])

/-- What is written back to a config file; a filter in a list is changed in
place. -/
def addNeedScale (elements : List Str) (path : Str) (config : Value F) :
    Except Error (Value F) := do
  match ← config.getItem (str "filters") with
  | .list filters =>
      let marked ← filters.mapM (needScaleFilter elements (configParent path))
      return config.setItem (str "filters") (.list marked)
  | other =>
      let filters ← other.iterate
      let _ ← filters.mapM (needScaleFilter elements (configParent path))
      return config

/-- The files with what is in them afterwards.  A file has been truncated when
`json.dump` fails. -/
def addNeedScaleToJsonFiles (env : Environment F) (elements : List Str)
    (jsonFiles : List Str) : Except Error (List (Str × Value F)) :=
  jsonFiles.mapM fun path => do
    let config ← env.load path
    let marked ← addNeedScale elements path config
    marked.dump
    return (path, marked)

/-! ## A small library -/

/-- Every asset has one `dg_makeup` directory with one large face image. -/
def faceEnvironment : Environment Empty where
  load path :=
    if str "/params.txt" <:+ path then
      .ok (.dict [(str "filters", .list [.str (str "dg_makeup")])])
    else
      .ok (.dict [(str "filters", .list
        [.dict [(str "parts", .list [.str (str "INNERFACE")]),
          (str "img", .str (str "face.png")),
          (str "tex", .str (str "face.tex"))]])])
  isfile _ := true
  imread _ := some (400, 400)

end Miscellaneous.Downsample
