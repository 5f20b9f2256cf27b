import Miscellaneous.BoxFailures
import Mathlib.Tactic

/-!
# Where requests write

The paths of a request are joined from strings of the client.  What it makes and
opens is inside a directory if the places of its files are, and those places
that the paths of its directories name are inside or there already.  A request
that is answered has made and opened all of them.
-/

namespace Miscellaneous.BoxServer

open Disks FailingActions PosixPaths PythonBytes PythonJson PythonStrings

variable {F : Type}

/-! ## Inside a directory -/

def Inside (system : System F) (base : Str) (place : List Str) : Prop :=
  location system.cwd base <+: place

/-- Every directory made and every file opened is inside. -/
def ConfinedTo (system : System F) (base : Str) (world final : World F) : Prop :=
  ∃ new, final.disk.effects = world.disk.effects ++ new ∧
    ∀ effect ∈ new, Inside system base effect.place

/-- The places that the path of a directory names are inside or there
already. -/
def MakesInside (system : System F) (base : Str) (disk : Disk) (path : Str) :
    Prop :=
  ∀ place ∈ pathPlaces system path,
    disk.has place = true ∨ Inside system base place

def FileInside (system : System F) (base path : Str) : Prop :=
  Inside system base (location system.cwd path)

section Calls

variable {system : System F} {base : Str} {world middle final : World F}

theorem leaves_makeMissing_inside {path : Str}
    (hpath : MakesInside system base world.disk path) :
    Leaves (fun effect => Inside system base effect.place) world
      (outcome (makeMissing system path) world).2 :=
  leaves_makeMissing hpath

theorem keeps_writeFile {path : Str} {bytes : Bytes}
    (hpath : FileInside system base path) :
    Keeps (Leaves fun effect => Inside system base effect.place)
      (writeFile system path bytes) := by
  intro world
  apply leaves_writeFile
  intro place hplace
  have hinside : Inside system base place := filePlace_eq_some hplace ▸ hpath
  exact ⟨hinside, fun _ => hinside⟩

theorem keeps_appendLine {path : Str} {line : Except Error Str}
    (hpath : FileInside system base path) :
    Keeps (Leaves fun effect => Inside system base effect.place)
      (appendLine system path line) := by
  intro world
  apply leaves_appendLine
  intro place hplace
  have hinside : Inside system base place := filePlace_eq_some hplace ▸ hpath
  exact ⟨hinside, fun _ => hinside⟩

theorem Leaves.confinedTo
    (hleaves : Leaves (fun effect => Inside system base effect.place) world
      final) : ConfinedTo system base world final := hleaves.2.effects

theorem not_confinedTo_of_mem {effect : Effect}
    (hstart : world.disk.effects = []) (heffect : effect ∈ final.disk.effects)
    (houtside : ¬Inside system base effect.place) :
    ¬ConfinedTo system base world final := by
  rintro ⟨new, hnew, hinside⟩
  rw [hstart, List.nil_append] at hnew
  rw [hnew] at heffect
  exact houtside (hinside effect heffect)

theorem ConfinedTo.inside (hconfined : ConfinedTo system base world final)
    {disk : Disk} {effect : Effect}
    (hbefore : Grows (fun _ => True) world.disk disk)
    (hafter : Grows (fun _ => True) (disk.after effect) final.disk) :
    Inside system base effect.place :=
  @effect_between (fun effect => Inside system base effect.place) _ _ _ _ _ _
    hconfined hbefore hafter

theorem ConfinedTo.makesInside
    (hconfined : ConfinedTo system base world final) {path : Str}
    {result : PUnit}
    (hmake : outcome (makeMissing system path) world = (.ok result, middle))
    (hafter : Grows (fun _ => True) middle.disk final.disk) :
    MakesInside system base world.disk path := by
  intro place hplace
  rcases (makeMissing_eq_ok hmake).made place hplace with
    hhas | ⟨disk, hbefore, hmade⟩
  · exact Or.inl hhas
  · exact Or.inr (hconfined.inside hbefore (hmade.trans hafter))

theorem ConfinedTo.writeInside
    (hconfined : ConfinedTo system base world final) {path : Str}
    {bytes : Bytes} {before after : World F} {result : PUnit}
    (hbefore : Grows (fun _ => True) world.disk before.disk)
    (hwrite : outcome (writeFile system path bytes) before =
      (.ok result, after))
    (hafter : Grows (fun _ => True) after.disk final.disk) :
    FileInside system base path := by
  rcases writeFile_eq_ok hwrite with ⟨place, hplace, hwritten⟩
  rw [hwritten] at hafter
  have hgrows := @Grows.after (fun _ => True) (.write place bytes) trivial
    (before.disk.after (.truncate place))
  rw [FileInside, ← filePlace_eq_some hplace]
  exact hconfined.inside hbefore (hgrows.trans hafter)

theorem ConfinedTo.appendInside
    (hconfined : ConfinedTo system base world final) {path : Str}
    {line : Except Error Str} {before after : World F} {result : PUnit}
    (hbefore : Grows (fun _ => True) world.disk before.disk)
    (happend : outcome (appendLine system path line) before =
      (.ok result, after))
    (hafter : Grows (fun _ => True) after.disk final.disk) :
    FileInside system base path := by
  rcases appendLine_eq_ok happend with ⟨place, bytes, hopens, _, hwritten⟩
  rw [hwritten] at hafter
  have hgrows := @Grows.after (fun _ => True) (.append place bytes) trivial
    (before.disk.after (.openAppend place))
  rw [FileInside, ← filePlace_eq_some hopens.found]
  exact hconfined.inside hbefore (hgrows.trans hafter)

/-- Nothing but directories on the way to the path are new. -/
theorem makesInside_of_makeMissing {path other : Str} {result : PUnit}
    (hmake : outcome (makeMissing system path) world = (.ok result, middle))
    (hpath : MakesInside system base world.disk path)
    (hother : MakesInside system base middle.disk other) :
    MakesInside system base world.disk other := by
  intro place hplace
  rcases hother place hplace with hhas | hinside
  · rcases (makeMissing_eq_ok hmake).has place hhas with hbefore | hmem
    · exact Or.inl hbefore
    · exact hpath place hmem
  · exact Or.inr hinside

theorem MakesInside.mono {path : Str}
    (hpath : MakesInside system base world.disk path)
    (hgrows : Grows (fun _ => True) world.disk middle.disk) :
    MakesInside system base middle.disk path := by
  intro place hplace
  rcases hpath place hplace with hhas | hinside
  · exact Or.inl (hgrows.has place hhas)
  · exact Or.inr hinside

theorem fileInside_of_staysBelow {path : Str}
    (hpath : StaysBelow base path) :
    FileInside system base path := by
  rcases hpath with ⟨tail, hcomponents, habsolute, hstays⟩
  rw [FileInside, Inside, location_of_stays hcomponents habsolute hstays]
  exact List.prefix_append _ _

theorem makesInside_of_staysBelow {disk : Disk} {path : Str}
    (hpath : StaysBelow base path)
    (hbase : MakesInside system base disk base) :
    MakesInside system base disk path := by
  rcases hpath with ⟨tail, hcomponents, habsolute, hstays⟩
  have hstart : start system.cwd path = start system.cwd base := by
    rw [start, start, habsolute]
  have htail : tail.filter (· ≠ dot) = tail := by
    rw [List.filter_eq_self]
    intro component hcomponent
    have hmem : component ∈ components path :=
      hcomponents ▸ List.mem_append_right _ hcomponent
    exact (List.mem_filter.mp hmem).2
  have hpassed : (components base).foldl follow (start system.cwd base) =
      location system.cwd base := by
    rw [foldl_follow, components, List.filter_filter]
    simp only [Bool.and_self]
    rfl
  intro place hplace
  rw [pathPlaces, hstart, hcomponents, namedPlaces_append, hpassed] at hplace
  rcases List.mem_append.mp hplace with hmem | hmem
  · exact hbase place hmem
  · right
    have hbelow := mem_places_of_mem_namedPlaces hmem
    rw [htail] at hbelow
    apply @isPrefix_of_mem_places tail (location system.cwd base) [] hstays
    rwa [List.append_nil]

/-- The base directories are directly in the working directory. -/
theorem makesInside_self {name : Str} (hname : isAbsolute base = false)
    (hcomponents : components base = [name]) (disk : Disk) :
    MakesInside system base disk base := by
  intro place hplace
  have hbelow := mem_places_of_mem_namedPlaces hplace
  have hfilter : (components base).filter (· ≠ dot) = components base := by
    rw [components, List.filter_filter]
    simp only [Bool.and_self]
  rw [hfilter, start, hname, hcomponents] at hbelow
  right
  rw [Inside, location, hname, hcomponents]
  rw [List.mem_singleton.mp hbelow]
  exact List.prefix_refl _

end Calls

variable [PyRuntime F]

/-! ## Alarms -/

/-- The directories and files of an alarm are inside. -/
structure AlarmInside (system : System F) (world : World F)
    (jsonObj : Value F) : Prop where
  picture : ∀ header ts img, alarmHeader jsonObj = .ok header →
    header.dataObj.contains (str "alarmResult") = .ok true →
    alarmPicture header.dataObj = .ok (ts, img) →
      MakesInside system alarmDir world.disk header.rootDir ∧
        MakesInside system alarmDir world.disk header.imgDir ∧
        FileInside system alarmDir (header.imgPath ts) ∧
        FileInside system alarmDir header.metaData
  stat : ∀ header stat, alarmHeader jsonObj = .ok header →
    header.dataObj.contains (str "alarmResult") = .ok false →
    header.dataObj.contains (str "personStatResult") = .ok true →
    personStat header.dataObj = .ok stat →
      MakesInside system alarmDir world.disk header.rootDir ∧
        FileInside system alarmDir header.metaData

section Alarms

variable {system : System F} {world final : World F}

theorem storeAlarmResult_leaves {header : AlarmHeader F} {ts : Value F}
    {img : Bytes}
    (hroot : MakesInside system alarmDir world.disk header.rootDir)
    (himg : MakesInside system alarmDir world.disk header.imgDir)
    (hpath : FileInside system alarmDir (header.imgPath ts))
    (hmeta : FileInside system alarmDir header.metaData) :
    Leaves (fun effect => Inside system alarmDir effect.place) world
      (outcome (storeAlarmResult system header (ts, img)) world).2 := by
  have hfirst := leaves_makeMissing_inside hroot
  apply relates_bind Leaves.trans hfirst
  intro _ first hmade
  rw [hmade] at hfirst
  have hgrows : Grows (fun _ => True) world.disk first.disk :=
    hfirst.2.mono fun _ _ => trivial
  apply relates_bind Leaves.trans (leaves_makeMissing_inside (himg.mono hgrows))
  intro _ second _
  exact Keeps.bind Leaves.trans (keeps_writeFile hpath)
    (fun _ => keeps_appendLine hmeta) second

theorem storePersonStat_leaves {header : AlarmHeader F}
    {stat : Value F × List (Value F)}
    (hroot : MakesInside system alarmDir world.disk header.rootDir)
    (hmeta : FileInside system alarmDir header.metaData) :
    Leaves (fun effect => Inside system alarmDir effect.place) world
      (outcome (storePersonStat system header stat) world).2 := by
  apply relates_bind Leaves.trans (leaves_makeMissing_inside hroot)
  intro _ first _
  exact keeps_appendLine hmeta first

theorem storeAlarmInfoNew_leaves {jsonObj : Value F}
    (hinside : AlarmInside system world jsonObj) :
    Leaves (fun effect => Inside system alarmDir effect.place) world
      (outcome (storeAlarmInfoNew system jsonObj) world).2 := by
  rw [storeAlarmInfoNew_eq]
  apply relates_lift_bind Leaves.refl
  intro header hheader
  apply relates_lift_bind Leaves.refl
  intro isAlarm hcontains
  split_ifs with halarm
  · subst halarm
    apply relates_lift_bind Leaves.refl
    intro picture hpicture
    rcases hinside.picture header picture.1 picture.2 hheader hcontains hpicture
      with ⟨hroot, himg, hpath, hmeta⟩
    exact storeAlarmResult_leaves hroot himg hpath hmeta
  · rw [Bool.not_eq_true] at halarm
    subst halarm
    apply relates_lift_bind Leaves.refl
    intro isStat hstat
    split_ifs with hisStat
    · subst hisStat
      apply relates_lift_bind Leaves.refl
      intro stat hpersons
      rcases hinside.stat header stat hheader hcontains hstat hpersons with
        ⟨hroot, hmeta⟩
      exact storePersonStat_leaves hroot hmeta
    · exact keeps_print _ world

theorem ConfinedTo.storeAlarmResult
    (hconfined : ConfinedTo system alarmDir world final)
    {header : AlarmHeader F} {ts : Value F} {img : Bytes} {result : PUnit}
    (hrun : outcome (storeAlarmResult system header (ts, img)) world =
      (.ok result, final)) :
    MakesInside system alarmDir world.disk header.rootDir ∧
      MakesInside system alarmDir world.disk header.imgDir ∧
      FileInside system alarmDir (header.imgPath ts) ∧
      FileInside system alarmDir header.metaData := by
  rcases storeAlarmResult_eq_ok hrun with
    ⟨first, second, third, hfirst, hsecond, hthird, hlast⟩
  have hgrows₁ := (@leaves_true_makeMissing F system header.rootDir world).2
  have hgrows₂ := (@leaves_true_makeMissing F system header.imgDir first).2
  have hgrows₃ := (@keeps_true_writeFile F system (header.imgPath ts) img
    second).2
  have hgrows₄ := (@keeps_true_appendLine F system header.metaData
    (header.line system ts []) third).2
  rw [hfirst] at hgrows₁
  rw [hsecond] at hgrows₂
  rw [hthird] at hgrows₃
  rw [hlast] at hgrows₄
  have hroot : MakesInside system alarmDir world.disk header.rootDir :=
    hconfined.makesInside hfirst (hgrows₂.trans (hgrows₃.trans hgrows₄))
  have himg : MakesInside system alarmDir first.disk header.imgDir := by
    intro place hplace
    rcases (makeMissing_eq_ok hsecond).made place hplace with
      hhas | ⟨disk, hbefore, hmade⟩
    · exact Or.inl hhas
    · exact Or.inr (hconfined.inside (hgrows₁.trans hbefore)
        (hmade.trans (hgrows₃.trans hgrows₄)))
  exact ⟨hroot, makesInside_of_makeMissing hfirst hroot himg,
    hconfined.writeInside (hgrows₁.trans hgrows₂) hthird hgrows₄,
    hconfined.appendInside (hgrows₁.trans (hgrows₂.trans hgrows₃)) hlast
      (Grows.refl _)⟩

theorem ConfinedTo.storePersonStat
    (hconfined : ConfinedTo system alarmDir world final)
    {header : AlarmHeader F} {stat : Value F × List (Value F)} {result : PUnit}
    (hrun : outcome (storePersonStat system header stat) world =
      (.ok result, final)) :
    MakesInside system alarmDir world.disk header.rootDir ∧
      FileInside system alarmDir header.metaData := by
  rcases outcome_bind_eq_ok_iff.mp hrun with ⟨_, first, hfirst, hlast⟩
  have hgrows₁ := (@leaves_true_makeMissing F system header.rootDir world).2
  have hgrows₂ := (@keeps_true_appendLine F system header.metaData
    (header.line system stat.1 stat.2) first).2
  rw [hfirst] at hgrows₁
  rw [hlast] at hgrows₂
  exact ⟨hconfined.makesInside hfirst hgrows₂,
    hconfined.appendInside hgrows₁ hlast (Grows.refl _)⟩

theorem ConfinedTo.alarmInside
    (hconfined : ConfinedTo system alarmDir world final) {jsonObj : Value F}
    {result : PUnit}
    (hrun : outcome (storeAlarmInfoNew system jsonObj) world =
      (.ok result, final)) : AlarmInside system world jsonObj := by
  constructor
  · intro header ts img hheader hcontains hpicture
    rw [storeAlarmInfoNew_eq, outcome_lift_bind_of_ok hheader,
      outcome_lift_bind_of_ok hcontains, if_pos rfl,
      outcome_lift_bind_of_ok hpicture] at hrun
    exact hconfined.storeAlarmResult hrun
  · intro header stat hheader hcontains hstat hpersons
    rw [storeAlarmInfoNew_eq, outcome_lift_bind_of_ok hheader,
      outcome_lift_bind_of_ok hcontains, if_neg (by decide),
      outcome_lift_bind_of_ok hstat, if_pos rfl,
      outcome_lift_bind_of_ok hpersons] at hrun
    exact hconfined.storePersonStat hrun

end Alarms

/-! ## Box results -/

/-- A face of the detection is stored under these paths. -/
def StoresFace (curOutputDir : Str) (det : Value F)
    (small background : Str × Bytes) : Prop :=
  ∃ trackId items attrs attr classId, det.getItem (str "trackId") = .ok trackId ∧
    det.getItem (str "attrs") = .ok items ∧ items.iterate = .ok attrs ∧
    attr ∈ attrs ∧ attr.getItem (str "classId") = .ok classId ∧
    classId.eq (.int 1) = true ∧
    facePictures curOutputDir det trackId attr = .ok (small, background)

/-- The directory and the files of a box result are inside. -/
structure BoxInside (system : System F) (world : World F)
    (jsonObj : Value F) : Prop where
  directory : ∀ dataObj item taskId, jsonObj.getItem (str "data") = .ok dataObj →
    dataObj.getItem (str "taskId") = .ok item →
    item.asStr .typeError = .ok taskId →
      MakesInside system outputBaseDir world.disk (pathJoin outputBaseDir taskId)
  files : ∀ dataObj item taskId, jsonObj.getItem (str "data") = .ok dataObj →
    dataObj.getItem (str "taskId") = .ok item →
    item.asStr .typeError = .ok taskId →
    ∀ items detections, dataObj.getItem (str "detections") = .ok items →
      items.iterate = .ok detections → ∀ det ∈ detections,
        ∀ small background,
          StoresFace (pathJoin outputBaseDir taskId) det small background →
            FileInside system outputBaseDir small.1 ∧
              FileInside system outputBaseDir background.1

section BoxResults

variable {system : System F} {world final : World F} {curOutputDir : Str}

theorem storeFace_eq (det trackId attr : Value F) :
    storeFace system curOutputDir det trackId attr =
      liftM (attr.getItem (str "classId")) >>= fun classId =>
        if classId.eq (.int 1) = true then
          liftM (facePictures curOutputDir det trackId attr) >>= fun pictures =>
            writeFile system pictures.1.1 pictures.1.2 >>= fun _ =>
              print system (str "store small image " ++ pictures.1.1) >>=
                fun _ => writeFile system pictures.2.1 pictures.2.2 >>=
                  fun _ => print system
                    (str "store background image " ++ pictures.2.1)
        else pure ⟨⟩ := rfl

theorem storeDetection_eq (det : Value F) :
    storeDetection system curOutputDir det =
      liftM (det.getItem (str "trackId")) >>= fun trackId =>
        liftM (det.getItem (str "attrs")) >>= fun items =>
          liftM items.iterate >>= fun attrs =>
            attrs.forM (storeFace system curOutputDir det trackId) := rfl

theorem storeFaceVideoStreamResult_eq (jsonObj : Value F) :
    storeFaceVideoStreamResult system jsonObj =
      liftM (jsonObj.getItem (str "data")) >>= fun dataObj =>
        liftM (dataObj.getItem (str "taskId")) >>= fun item =>
          liftM (item.asStr .typeError) >>= fun taskId =>
            makeMissing system (pathJoin outputBaseDir taskId) >>= fun _ =>
              liftM (dataObj.getItem (str "detections")) >>= fun items =>
                liftM items.iterate >>= fun detections =>
                  detections.forM (storeDetection system
                    (pathJoin outputBaseDir taskId)) := rfl

theorem keeps_storeFace {P : Effect → Prop} {det trackId attr : Value F}
    (hfiles : ∀ classId, attr.getItem (str "classId") = .ok classId →
      classId.eq (.int 1) = true → ∀ small background,
        facePictures curOutputDir det trackId attr = .ok (small, background) →
          Keeps (Leaves P) (writeFile system small.1 small.2) ∧
            Keeps (Leaves P) (writeFile system background.1 background.2)) :
    Keeps (Leaves P) (storeFace system curOutputDir det trackId attr) := by
  rw [storeFace_eq]
  apply Keeps.lift_bind Leaves.refl
  intro classId hclassId
  split_ifs with hface
  · apply Keeps.lift_bind Leaves.refl
    rintro ⟨small, background⟩ hpictures
    rcases hfiles classId hclassId hface small background hpictures with
      ⟨hsmall, hbackground⟩
    apply Keeps.bind Leaves.trans hsmall
    intro _
    apply Keeps.bind Leaves.trans (keeps_print _)
    intro _
    exact Keeps.bind Leaves.trans hbackground fun _ => keeps_print _
  · exact Keeps.pure Leaves.refl _

theorem keeps_storeDetection {P : Effect → Prop} {det : Value F}
    (hfiles : ∀ small background,
      StoresFace curOutputDir det small background →
        Keeps (Leaves P) (writeFile system small.1 small.2) ∧
          Keeps (Leaves P) (writeFile system background.1 background.2)) :
    Keeps (Leaves P) (storeDetection system curOutputDir det) := by
  rw [storeDetection_eq]
  apply Keeps.lift_bind Leaves.refl
  intro trackId htrackId
  apply Keeps.lift_bind Leaves.refl
  intro items hitems
  apply Keeps.lift_bind Leaves.refl
  intro attrs hattrs
  apply Keeps.forM Leaves.refl Leaves.trans
  intro attr hattr
  apply keeps_storeFace
  intro classId hclassId hface small background hpictures
  exact hfiles small background ⟨trackId, items, attrs, attr, classId,
    htrackId, hitems, hattrs, hattr, hclassId, hface, hpictures⟩

theorem keeps_true_storeFace (det trackId attr : Value F) :
    Keeps (Leaves fun _ => True)
      (storeFace system curOutputDir det trackId attr) :=
  keeps_storeFace fun _ _ _ _ _ _ =>
    ⟨keeps_true_writeFile _ _, keeps_true_writeFile _ _⟩

theorem keeps_true_storeDetection (det : Value F) :
    Keeps (Leaves fun _ => True) (storeDetection system curOutputDir det) :=
  keeps_storeDetection fun _ _ _ =>
    ⟨keeps_true_writeFile _ _, keeps_true_writeFile _ _⟩

theorem storeFaceVideoStreamResult_leaves {jsonObj : Value F}
    (hinside : BoxInside system world jsonObj) :
    Leaves (fun effect => Inside system outputBaseDir effect.place) world
      (outcome (storeFaceVideoStreamResult system jsonObj) world).2 := by
  rw [storeFaceVideoStreamResult_eq]
  apply relates_lift_bind Leaves.refl
  intro dataObj hdata
  apply relates_lift_bind Leaves.refl
  intro item hitem
  apply relates_lift_bind Leaves.refl
  intro taskId htaskId
  apply relates_bind Leaves.trans (leaves_makeMissing_inside
    (hinside.directory dataObj item taskId hdata hitem htaskId))
  intro _ first _
  apply relates_lift_bind Leaves.refl
  intro items hitems
  apply relates_lift_bind Leaves.refl
  intro detections hdetections
  apply Keeps.forM Leaves.refl Leaves.trans
  intro det hdet
  apply keeps_storeDetection
  intro small background hface
  rcases hinside.files dataObj item taskId hdata hitem htaskId items detections
    hitems hdetections det hdet small background hface with ⟨hsmall, hbackground⟩
  exact ⟨keeps_writeFile hsmall, keeps_writeFile hbackground⟩

/-- A detection that has been stored has stored all its faces. -/
theorem ConfinedTo.storeDetection
    (hconfined : ConfinedTo system outputBaseDir world final)
    {det : Value F} {before after : World F} {result : PUnit}
    (hbefore : Grows (fun _ => True) world.disk before.disk)
    (hrun : outcome (storeDetection system curOutputDir det) before =
      (.ok result, after))
    (hafter : Grows (fun _ => True) after.disk final.disk)
    {small background : Str × Bytes}
    (hface : StoresFace curOutputDir det small background) :
    FileInside system outputBaseDir small.1 ∧
      FileInside system outputBaseDir background.1 := by
  rcases hface with ⟨trackId, items, attrs, attr, classId, htrackId, hitems,
    hattrs, hattr, hclassId, hclass, hpictures⟩
  rw [storeDetection_eq, outcome_lift_bind_of_ok htrackId,
    outcome_lift_bind_of_ok hitems, outcome_lift_bind_of_ok hattrs] at hrun
  have hkeeps : ∀ attr ∈ attrs, Keeps (Leaves fun _ => True)
      (storeFace system curOutputDir det trackId attr) :=
    fun attr _ => keeps_true_storeFace det trackId attr
  rcases exists_of_forM_eq_ok Leaves.refl Leaves.trans hkeeps hrun hattr with
    ⟨first, last, hfirst, hstore, hlast⟩
  have hstart := hbefore.trans hfirst.2
  have hend := hlast.2.trans hafter
  rw [storeFace_eq, outcome_lift_bind_of_ok hclassId, if_pos hclass,
    outcome_lift_bind_of_ok hpictures] at hstore
  rcases outcome_bind_eq_ok_iff.mp hstore with ⟨_, second, hsmall, hstore⟩
  rcases outcome_bind_eq_ok_iff.mp hstore with ⟨_, third, hprint, hstore⟩
  rcases outcome_bind_eq_ok_iff.mp hstore with ⟨_, fourth, hbackground, hprint'⟩
  have hgrows₁ := (@keeps_true_writeFile F system small.1 small.2 first).2
  have hgrows₂ := (@keeps_print F system (fun _ => True)
    (str "store small image " ++ small.1) second).2
  have hgrows₃ := (@keeps_true_writeFile F system background.1 background.2
    third).2
  have hgrows₄ := (@keeps_print F system (fun _ => True)
    (str "store background image " ++ background.1) fourth).2
  rw [hsmall] at hgrows₁
  rw [hprint] at hgrows₂
  rw [hbackground] at hgrows₃
  rw [hprint'] at hgrows₄
  constructor
  · exact hconfined.writeInside hstart hsmall
      (hgrows₂.trans (hgrows₃.trans (hgrows₄.trans hend)))
  · exact hconfined.writeInside (hstart.trans (hgrows₁.trans hgrows₂))
      hbackground (hgrows₄.trans hend)

theorem ConfinedTo.boxInside
    (hconfined : ConfinedTo system outputBaseDir world final) {jsonObj : Value F}
    {result : PUnit}
    (hrun : outcome (storeFaceVideoStreamResult system jsonObj) world =
      (.ok result, final)) : BoxInside system world jsonObj := by
  have hloop : ∀ dataObj item taskId, jsonObj.getItem (str "data") = .ok dataObj →
      dataObj.getItem (str "taskId") = .ok item →
      item.asStr .typeError = .ok taskId →
      ∃ first items detections,
        outcome (makeMissing system (pathJoin outputBaseDir taskId)) world =
          (.ok ⟨⟩, first) ∧
        dataObj.getItem (str "detections") = .ok items ∧
        items.iterate = .ok detections ∧
        outcome (detections.forM (BoxServer.storeDetection system
          (pathJoin outputBaseDir taskId))) first = (.ok result, final) := by
    intro dataObj item taskId hdata hitem htaskId
    rw [storeFaceVideoStreamResult_eq, outcome_lift_bind_of_ok hdata,
      outcome_lift_bind_of_ok hitem, outcome_lift_bind_of_ok htaskId] at hrun
    rcases outcome_bind_eq_ok_iff.mp hrun with ⟨_, first, hfirst, hrun⟩
    rcases outcome_lift_bind_eq_ok_iff.mp hrun with ⟨items, hitems, hrun⟩
    rcases outcome_lift_bind_eq_ok_iff.mp hrun with ⟨detections, hlist, hrun⟩
    exact ⟨first, items, detections, hfirst, hitems, hlist, hrun⟩
  have hkeeps : ∀ curOutputDir : Str, ∀ detections : List (Value F),
      ∀ det ∈ detections, Keeps (Leaves fun _ => True)
        (BoxServer.storeDetection system curOutputDir det) :=
    fun _ _ det _ => keeps_true_storeDetection det
  constructor
  · intro dataObj item taskId hdata hitem htaskId
    rcases hloop dataObj item taskId hdata hitem htaskId with
      ⟨first, items, detections, hfirst, _, _, hrun⟩
    have hgrows := (Keeps.forM Leaves.refl Leaves.trans
      (hkeeps (pathJoin outputBaseDir taskId) detections) first).2
    rw [hrun] at hgrows
    exact hconfined.makesInside hfirst hgrows
  · intro dataObj item taskId hdata hitem htaskId items detections hitems hlist
      det hdet small background hface
    rcases hloop dataObj item taskId hdata hitem htaskId with
      ⟨first, others, more, hfirst, hothers, hmore, hrun⟩
    rw [hitems, Except.ok.injEq] at hothers
    subst hothers
    rw [hlist, Except.ok.injEq] at hmore
    subst hmore
    have hgrows := (@leaves_true_makeMissing F system
      (pathJoin outputBaseDir taskId) world).2
    rw [hfirst] at hgrows
    rcases exists_of_forM_eq_ok Leaves.refl Leaves.trans
      (hkeeps (pathJoin outputBaseDir taskId) detections) hrun hdet with
        ⟨before, after, hbefore, hstore, hafter⟩
    exact hconfined.storeDetection (hgrows.trans hbefore.2) hstore hafter.2 hface

end BoxResults

/-! ## Paths that do not climb -/

section Below

variable {system : System F} {world : World F}

/-- An alarm whose paths never leave the alarm directory is confined. -/
theorem alarmInside_of_staysBelow {jsonObj : Value F}
    (hpaths : ∀ header, alarmHeader jsonObj = .ok header →
      StaysBelow alarmDir header.rootDir ∧ StaysBelow alarmDir header.imgDir ∧
        StaysBelow alarmDir header.metaData ∧
        ∀ ts img, alarmPicture header.dataObj = .ok (ts, img) →
          StaysBelow alarmDir (header.imgPath ts)) :
    AlarmInside system world jsonObj := by
  have hcomponents : components alarmDir = [str "alarmData"] := by decide
  have hbase : MakesInside system alarmDir world.disk alarmDir :=
    makesInside_self (by decide) hcomponents world.disk
  constructor
  · intro header ts img hheader _ hpicture
    rcases hpaths header hheader with ⟨hroot, himg, hmeta, hpath⟩
    exact ⟨makesInside_of_staysBelow hroot hbase,
      makesInside_of_staysBelow himg hbase,
      fileInside_of_staysBelow (hpath ts img hpicture),
      fileInside_of_staysBelow hmeta⟩
  · intro header stat hheader _ _ _
    rcases hpaths header hheader with ⟨hroot, _, hmeta, _⟩
    exact ⟨makesInside_of_staysBelow hroot hbase,
      fileInside_of_staysBelow hmeta⟩

/-- A box result whose paths never leave the output directory is confined. -/
theorem boxInside_of_staysBelow {jsonObj : Value F}
    (hpaths : ∀ dataObj item taskId, jsonObj.getItem (str "data") = .ok dataObj →
      dataObj.getItem (str "taskId") = .ok item →
      item.asStr .typeError = .ok taskId →
        StaysBelow outputBaseDir (pathJoin outputBaseDir taskId) ∧
          ∀ (det : Value F) (small background : Str × Bytes),
            StoresFace (pathJoin outputBaseDir taskId) det small background →
              StaysBelow outputBaseDir small.1 ∧
                StaysBelow outputBaseDir background.1) :
    BoxInside system world jsonObj := by
  have hcomponents : components outputBaseDir = [str "output_dir"] := by decide
  have hbase : MakesInside system outputBaseDir world.disk outputBaseDir :=
    makesInside_self (by decide) hcomponents world.disk
  constructor
  · intro dataObj item taskId hdata hitem htaskId
    exact makesInside_of_staysBelow
      (hpaths dataObj item taskId hdata hitem htaskId).1 hbase
  · intro dataObj item taskId hdata hitem htaskId _ _ _ _ det _ small background
      hface
    rcases (hpaths dataObj item taskId hdata hitem htaskId).2 det small background
      hface with ⟨hsmall, hbackground⟩
    exact ⟨fileInside_of_staysBelow hsmall, fileInside_of_staysBelow hbackground⟩

end Below

/-! ## Both kinds of requests -/

def boxPath : Str := str "/BoxCallBack"

theorem handlePost_boxPath (system : System F) (jsonObj : Value F) :
    handlePost system boxPath jsonObj =
      storeFaceVideoStreamResult system jsonObj := by
  rw [handlePost, if_neg (by decide), if_neg (by decide), if_neg (by decide),
    if_pos (show boxPath = str "/BoxCallBack" from rfl)]

/-- A request whose paths are inside makes and opens nothing outside, and one
that is answered does so only if its paths are inside. -/
theorem doPost_confinedTo (system : System F) (world : World F)
    (jsonObj : Value F) :
    ((AlarmInside system world jsonObj →
        ConfinedTo system alarmDir world
          (outcome (doPost system alarmPath jsonObj) world).2) ∧
      ∀ final, outcome (doPost system alarmPath jsonObj) world = (.ok ⟨⟩, final) →
        (ConfinedTo system alarmDir world final ↔
          AlarmInside system world jsonObj)) ∧
    ((BoxInside system world jsonObj →
        ConfinedTo system outputBaseDir world
          (outcome (doPost system boxPath jsonObj) world).2) ∧
      ∀ final, outcome (doPost system boxPath jsonObj) world = (.ok ⟨⟩, final) →
        (ConfinedTo system outputBaseDir world final ↔
          BoxInside system world jsonObj)) := by
  simp only [outcome_doPost_world, doPost_eq_ok_iff, handlePost_alarmPath,
    handlePost_boxPath]
  constructor
  · have hsound : AlarmInside system world jsonObj →
        ConfinedTo system alarmDir world
          (outcome (storeAlarmInfoNew system jsonObj) world).2 :=
      fun hinside => (storeAlarmInfoNew_leaves hinside).confinedTo
    refine ⟨hsound, ?_⟩
    rintro final ⟨hrun, _⟩
    rw [hrun] at hsound
    exact ⟨fun hconfined => hconfined.alarmInside hrun, hsound⟩
  · have hsound : BoxInside system world jsonObj →
        ConfinedTo system outputBaseDir world
          (outcome (storeFaceVideoStreamResult system jsonObj) world).2 :=
      fun hinside => (storeFaceVideoStreamResult_leaves hinside).confinedTo
    refine ⟨hsound, ?_⟩
    rintro final ⟨hrun, _⟩
    rw [hrun] at hsound
    exact ⟨fun hconfined => hconfined.boxInside hrun, hsound⟩

/-- An alarm of a device with a parent directory in its name. -/
def outsideAlarm : Value Empty :=
  .dict [(str "name", .str (str "intrusion")), (str "seqId", .int 1),
    (str "data", .dict [
      (str "device", .dict [(str "deviceId", .str (str "../outside")),
        (str "deviceMac", .str []), (str "deviceIp", .str [])]),
      (str "alarmResult", .dict [(str "timestamp", .int 0),
        (str "img", .str (str "aGk="))])])]

def outsideBoxResult : Value Empty :=
  .dict [(str "data", .dict [(str "taskId", .str (str "../outside")),
    (str "detections", .list [])])]

theorem doPost_confinedTo_fails :
    (¬∀ (system : System Empty) (world : World Empty) (jsonObj : Value Empty),
      ConfinedTo system alarmDir world
        (outcome (doPost system alarmPath jsonObj) world).2) ∧
    ¬∀ (system : System Empty) (world : World Empty) (jsonObj : Value Empty),
      ConfinedTo system outputBaseDir world
        (outcome (doPost system boxPath jsonObj) world).2 := by
  constructor
  · intro hall
    exact not_confinedTo_of_mem rfl
      (by decide +kernel : Effect.mkdir [str "srv", str "outside"] ∈ _)
      (by unfold Inside; decide +kernel)
      (hall plainSystem (initial [] plainDisk) outsideAlarm)
  · intro hall
    exact not_confinedTo_of_mem rfl
      (by decide +kernel : Effect.mkdir [str "srv", str "outside"] ∈ _)
      (by unfold Inside; decide +kernel)
      (hall plainSystem (initial [] plainDisk) outsideBoxResult)

end Miscellaneous.BoxServer
