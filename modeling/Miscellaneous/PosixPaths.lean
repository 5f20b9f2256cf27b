import Miscellaneous.PythonStrings
import Mathlib.Tactic

/-!
# Paths

`os.path.join` and the place that a path leads to.  A place is the list of the
components from the root down; a path is followed component by component,
`.` and empty components stay, and `..` goes up, in the root it stays.  Symbolic
links are left out.

A path that never goes above the place where it starts leads to the same place
below every directory.
-/

namespace PosixPaths

open PythonStrings

def slash : CodePoint := ⟨47, by decide⟩

def dot : Str := str "."

def dotDot : Str := str ".."

def isAbsolute (path : Str) : Bool := path.head? == some slash

def endsWithSlash (path : Str) : Bool := path.getLast? == some slash

/-- `os.path.join`. -/
def pathJoin (path more : Str) : Str :=
  if isAbsolute more then more
  else if path = [] ∨ endsWithSlash path = true then path ++ more
  else path ++ slash :: more

def steps (path : Str) : List Str := words (· == slash) path

def components (path : Str) : List Str :=
  (steps path).filter (· ≠ dot)

/-- A path with a slash at its end is looked up as if `.` followed. -/
def lookupSteps (path : Str) : List Str :=
  steps path ++ if endsWithSlash path then [dot] else []

def enter (directory : List Str) (component : Str) : List Str :=
  if component = dotDot then directory.dropLast else directory ++ [component]

def follow (directory : List Str) (step : Str) : List Str :=
  if step = dot then directory else enter directory step

def resolve (directory path : List Str) : List Str :=
  path.foldl enter directory

/-- The place of a path for a process whose working directory is `cwd`. -/
def location (cwd : List Str) (path : Str) : List Str :=
  resolve (if isAbsolute path then [] else cwd) (components path)

/-- From a directory that many levels down, the path does not leave the
starting place. -/
def stays : ℕ → List Str → Bool
  | _, [] => true
  | depth, component :: rest =>
      if component = dotDot then 0 < depth && stays (depth - 1) rest
      else stays (depth + 1) rest

/-- The path goes on from the root and does not leave it again. -/
def StaysBelow (root path : Str) : Prop :=
  ∃ tail, components path = components root ++ tail ∧
    isAbsolute path = isAbsolute root ∧ stays 0 tail = true

/-! ## Components -/

theorem components_append_slash (path more : Str) :
    components (path ++ slash :: more) = components path ++ components more := by
  rw [components, steps, words_append_separator (by simp), List.filter_append]
  rfl

theorem components_append_of_endsWithSlash {path : Str}
    (hpath : endsWithSlash path = true) (more : Str) :
    components (path ++ more) = components path ++ components more := by
  have hlast : path.getLast? = some slash := by simpa [endsWithSlash] using hpath
  rcases List.getLast?_eq_some_iff.mp hlast with ⟨init, hinit⟩
  have hpath' : components path = components init := by
    rw [hinit, components_append_slash]
    simp [components, steps, words]
  rw [hpath', hinit, List.append_assoc, List.singleton_append,
    components_append_slash]

theorem components_pathJoin {path more : Str} (hmore : isAbsolute more = false) :
    components (pathJoin path more) = components path ++ components more := by
  unfold pathJoin
  rw [if_neg (by simp [hmore])]
  split_ifs with hglue
  · rcases hglue with hempty | hslash
    · subst hempty
      simp [components, steps, words]
    · exact components_append_of_endsWithSlash hslash more
  · exact components_append_slash path more

theorem pathJoin_of_endsWithSlash {path more : Str}
    (hpath : path = [] ∨ endsWithSlash path = true)
    (hmore : isAbsolute more = false) : pathJoin path more = path ++ more := by
  rw [pathJoin, if_neg (by simp [hmore]), if_pos hpath]

theorem pathJoin_of_not_endsWithSlash {path more : Str} (hpath : path ≠ [])
    (hends : endsWithSlash path = false) (hmore : isAbsolute more = false) :
    pathJoin path more = path ++ slash :: more := by
  rw [pathJoin, if_neg (by simp [hmore]), if_neg (by simp [hpath, hends])]

theorem endsWithSlash_append {path more : Str} (hmore : more ≠ []) :
    endsWithSlash (path ++ more) = endsWithSlash more := by
  rw [endsWithSlash, List.getLast?_append_of_ne_nil path hmore]
  rfl

theorem pathJoin_ne_nil {path : Str} (hpath : path ≠ []) (more : Str) :
    pathJoin path more ≠ [] := by
  unfold pathJoin
  split_ifs with habsolute
  · intro hnil
    rw [hnil] at habsolute
    exact absurd habsolute (by decide)
  · simp [hpath]
  · simp

theorem isSuffix_pathJoin (path more : Str) : more <:+ pathJoin path more := by
  unfold pathJoin
  split_ifs
  · exact List.suffix_refl more
  · exact List.suffix_append path more
  · exact (List.suffix_cons slash more).trans
      (List.suffix_append path (slash :: more))

theorem isInfix_pathJoin (path more : Str) : more <:+: pathJoin path more :=
  (isSuffix_pathJoin path more).isInfix

theorem isAbsolute_append {path : Str} (hpath : path ≠ []) (more : Str) :
    isAbsolute (path ++ more) = isAbsolute path := by
  cases path with
  | nil => exact absurd rfl hpath
  | cons c rest => rfl

theorem isAbsolute_pathJoin {path more : Str} (hpath : path ≠ [])
    (hmore : isAbsolute more = false) :
    isAbsolute (pathJoin path more) = isAbsolute path := by
  by_cases hends : endsWithSlash path = true
  · rw [pathJoin_of_endsWithSlash (Or.inr hends) hmore, isAbsolute_append hpath]
  · rw [pathJoin_of_not_endsWithSlash hpath (by simpa using hends) hmore,
      isAbsolute_append hpath]

theorem endsWithSlash_pathJoin (path : Str) {more : Str} (hne : more ≠ []) :
    endsWithSlash (pathJoin path more) = endsWithSlash more := by
  unfold pathJoin
  split_ifs
  · rfl
  · exact endsWithSlash_append hne
  · rw [← List.singleton_append, ← List.append_assoc]
    exact endsWithSlash_append hne

theorem pathJoin_append {path more rest : Str} (hpath : path ≠ [])
    (hmore : isAbsolute more = false)
    (hjoined : isAbsolute (more ++ rest) = false) :
    pathJoin path (more ++ rest) = pathJoin path more ++ rest := by
  by_cases hends : endsWithSlash path = true
  · rw [pathJoin_of_endsWithSlash (Or.inr hends) hmore,
      pathJoin_of_endsWithSlash (Or.inr hends) hjoined, List.append_assoc]
  · rw [pathJoin_of_not_endsWithSlash hpath (by simpa using hends) hmore,
      pathJoin_of_not_endsWithSlash hpath (by simpa using hends) hjoined,
      List.append_assoc, List.cons_append]

theorem pathJoin_assoc {path more element : Str} (hpath : path ≠ [])
    (hne : more ≠ []) (hmore : isAbsolute more = false)
    (helement : isAbsolute element = false) :
    pathJoin (pathJoin path more) element =
      pathJoin path (pathJoin more element) := by
  have hjoined : isAbsolute (pathJoin more element) = false := by
    rw [isAbsolute_pathJoin hne helement, hmore]
  have hfirst : pathJoin path more ≠ [] := pathJoin_ne_nil hpath more
  have hends := endsWithSlash_pathJoin path hne
  by_cases hmslash : endsWithSlash more = true
  · rw [pathJoin_of_endsWithSlash (Or.inr (hends.trans hmslash)) helement,
      pathJoin_of_endsWithSlash (Or.inr hmslash) helement]
    rw [pathJoin_of_endsWithSlash (Or.inr hmslash) helement] at hjoined
    exact (pathJoin_append hpath hmore hjoined).symm
  · have hmslash' : endsWithSlash more = false := by simpa using hmslash
    rw [pathJoin_of_not_endsWithSlash hfirst (hends.trans hmslash') helement,
      pathJoin_of_not_endsWithSlash hne hmslash' helement]
    rw [pathJoin_of_not_endsWithSlash hne hmslash' helement] at hjoined
    exact (pathJoin_append hpath hmore hjoined).symm

theorem components_of_not_mem {name : Str} (hname : slash ∉ name)
    (hne : name ≠ []) :
    components name = if name = dot then [] else [name] := by
  have hfree : ∀ c ∈ name, (c == slash) = false := by
    intro c hc
    exact beq_eq_false_iff_ne.mpr (ne_of_mem_of_not_mem hc hname)
  rw [components, steps, words_eq_singleton hfree hne]
  split_ifs with hdot <;> simp [hdot]

/-- A path ends with a piece without slashes behind its last slash. -/
theorem exists_lastPiece (path : Str) :
    slash ∉ path ∨
      ∃ before name, path = before ++ slash :: name ∧ slash ∉ name := by
  by_cases hmem : slash ∈ path
  · right
    have hreverse : slash ∈ path.reverse := List.mem_reverse.mpr hmem
    rcases List.eq_append_cons_of_mem hreverse with ⟨name, before, hsplit, hname⟩
    refine ⟨before.reverse, name.reverse, ?_, by simpa using hname⟩
    rw [← List.reverse_reverse path, hsplit]
    simp
  · exact Or.inl hmem

/-- A path that ends with more than two characters of a name ends with a
component that does. -/
theorem components_of_isSuffix {path ending : Str} (hending : ending <:+ path)
    (hfree : slash ∉ ending) (hlong : 2 < ending.length) :
    ∃ init piece, components path = init ++ [piece] ∧ piece ≠ dotDot ∧
      ending <:+ piece := by
  have hpiece {front : Str} (hfront : slash ∉ front) :
      components (front ++ ending) = [front ++ ending] ∧
        front ++ ending ≠ dotDot := by
    have hlength : 2 < (front ++ ending).length := by
      rw [List.length_append]
      omega
    have hname {name : Str} (hname : name.length ≤ 2) :
        front ++ ending ≠ name := by
      rintro hsame
      rw [hsame] at hlength
      omega
    have hslash : slash ∉ front ++ ending := by simp [hfront, hfree]
    have hne : front ++ ending ≠ [] := hname (Nat.zero_le 2)
    have hdot : front ++ ending ≠ dot := hname (by decide)
    rw [components_of_not_mem hslash hne, if_neg hdot]
    exact ⟨rfl, hname (by decide)⟩
  rcases hending with ⟨front, rfl⟩
  rcases exists_lastPiece front with hfront | ⟨before, name, hsplit, hname⟩
  · exact ⟨[], front ++ ending, (hpiece hfront).1, (hpiece hfront).2,
      List.suffix_append front ending⟩
  · refine ⟨components before, name ++ ending, ?_, (hpiece hname).2,
      List.suffix_append name ending⟩
    rw [hsplit, List.append_assoc, List.cons_append, components_append_slash,
      (hpiece hname).1]

/-- Without a slash between them the last component of one path and the first
of the other become one. -/
theorem components_append_ne {path more : Str} (hpath : path ≠ [])
    (hends : endsWithSlash path = false) (hne : more ≠ [])
    (hmore : isAbsolute more = false) :
    components (path ++ more) ≠ components path ++ components more := by
  have hpath' : ∃ before name, slash ∉ name ∧ name ≠ [] ∧
      components path = before ++ components name ∧
      ∀ rest, components (path ++ rest) =
        before ++ components (name ++ rest) := by
    rcases exists_lastPiece path with hfree | ⟨before, name, hsplit, hname⟩
    · exact ⟨[], path, hfree, hpath, rfl, fun _ => rfl⟩
    · refine ⟨components before, name, hname, ?_, ?_, ?_⟩
      · rintro hnil
        rw [hsplit, hnil] at hends
        simp [endsWithSlash] at hends
      · rw [hsplit, components_append_slash]
      · intro rest
        rw [hsplit, List.append_assoc, List.cons_append, components_append_slash]
  have hmore' : ∃ name after, slash ∉ name ∧ name ≠ [] ∧
      components more = components name ++ after ∧
      ∀ front, components (front ++ more) =
        components (front ++ name) ++ after := by
    by_cases hmem : slash ∈ more
    · rcases List.eq_append_cons_of_mem hmem with ⟨name, after, hsplit, hname⟩
      refine ⟨name, components after, hname, ?_, ?_, ?_⟩
      · rintro hnil
        rw [hsplit, hnil] at hmore
        simp [isAbsolute] at hmore
      · rw [hsplit, components_append_slash]
      · intro front
        rw [hsplit, ← List.append_assoc, components_append_slash]
    · exact ⟨more, [], hmem, hne, by simp, fun _ => by simp⟩
  rcases hpath' with ⟨before, last, hlast, hlastne, hcomponents, hfront⟩
  rcases hmore' with ⟨first, after, hfirst, hfirstne, hrest, hback⟩
  have hglue : slash ∉ last ++ first := by simp [hlast, hfirst]
  have hgluene : last ++ first ≠ [] := by simp [hlastne]
  have hgluedot : last ++ first ≠ dot := by
    intro hdot
    have hlength := congrArg List.length hdot
    have hpositive := List.length_pos_iff.mpr hlastne
    have hpositive' := List.length_pos_iff.mpr hfirstne
    have hone : dot.length = 1 := rfl
    rw [List.length_append] at hlength
    omega
  rw [hfront, hback, hcomponents, hrest, components_of_not_mem hglue hgluene,
    components_of_not_mem hlast hlastne, components_of_not_mem hfirst hfirstne,
    if_neg hgluedot]
  intro hsame
  rw [List.append_assoc, List.append_cancel_left_eq, ← List.append_assoc,
    List.append_cancel_right_eq] at hsame
  split_ifs at hsame with hlastdot hfirstdot hfirstdot
  · simp at hsame
  · simp [hlastne] at hsame
  · simp [hfirstne] at hsame
  · simp at hsame

/-! ## Places -/

theorem resolve_append (directory path more : List Str) :
    resolve directory (path ++ more) = resolve (resolve directory path) more :=
  List.foldl_append

theorem foldl_follow (directory steps : List Str) :
    steps.foldl follow directory =
      resolve directory (steps.filter (· ≠ dot)) := by
  induction steps generalizing directory with
  | nil => rfl
  | cons step rest ih =>
      rw [List.foldl_cons, ih]
      by_cases hdot : step = dot
      · rw [follow, if_pos hdot, List.filter_cons_of_neg (by simp [hdot])]
      · rw [follow, if_neg hdot, List.filter_cons_of_pos (by simp [hdot])]
        rfl

theorem filter_lookupSteps (path : Str) :
    (lookupSteps path).filter (· ≠ dot) = components path := by
  rw [lookupSteps, List.filter_append]
  split_ifs
  · exact List.append_nil _
  · exact List.append_nil _

/-- A path that stays below where it starts leads from every directory to the
same place below it. -/
theorem resolve_of_stays {path : List Str} {base top : List Str}
    (hstays : stays top.length path = true) :
    resolve (base ++ top) path = base ++ resolve top path := by
  induction path generalizing top with
  | nil => rfl
  | cons component rest ih =>
      rw [stays] at hstays
      split_ifs at hstays with hup
      · rw [Bool.and_eq_true, decide_eq_true_eq] at hstays
        have hne : top ≠ [] := List.length_pos_iff.mp hstays.1
        have hstep : enter (base ++ top) component = base ++ top.dropLast := by
          rw [enter, if_pos hup, List.dropLast_append_of_ne_nil hne]
        have hstep' : enter top component = top.dropLast := if_pos hup
        rw [resolve, List.foldl_cons, hstep, ← resolve, ih, resolve, resolve,
          List.foldl_cons, hstep']
        rw [List.length_dropLast]
        exact hstays.2
      · have hstep : enter (base ++ top) component =
            base ++ (top ++ [component]) := by
          rw [enter, if_neg hup, List.append_assoc]
        have hstep' : enter top component = top ++ [component] := if_neg hup
        rw [resolve, List.foldl_cons, hstep, ← resolve, ih, resolve, resolve,
          List.foldl_cons, hstep']
        rwa [List.length_append]

theorem resolve_of_stays_zero {path : List Str} (hstays : stays 0 path = true)
    (base : List Str) : resolve base path = base ++ resolve [] path := by
  have hresolve := @resolve_of_stays path base [] hstays
  rwa [List.append_nil] at hresolve

/-- A path that goes on below a root leads below the place of the root. -/
theorem location_of_stays {cwd : List Str} {root path : Str} {tail : List Str}
    (hcomponents : components path = components root ++ tail)
    (habsolute : isAbsolute path = isAbsolute root)
    (hstays : stays 0 tail = true) :
    location cwd path = location cwd root ++ resolve [] tail := by
  rw [location, habsolute, hcomponents, resolve_append,
    resolve_of_stays_zero hstays]
  rfl

theorem location_of_isSuffix (cwd : List Str) {path ending : Str}
    (hending : ending <:+ path) (hfree : slash ∉ ending)
    (hlong : 2 < ending.length) :
    ∃ directory piece, location cwd path = directory ++ [piece] ∧
      ending <:+ piece := by
  rcases components_of_isSuffix hending hfree hlong with
    ⟨init, piece, hcomponents, hpiece, hsuffix⟩
  refine ⟨resolve (if isAbsolute path then [] else cwd) init, piece, ?_, hsuffix⟩
  rw [location, hcomponents, resolve_append]
  exact if_neg hpiece

/-- Files whose names end differently are at different places. -/
theorem location_ne_of_isSuffix (cwd : List Str) {path path' ending ending' : Str}
    (hending : ending <:+ path) (hending' : ending' <:+ path')
    (hfree : slash ∉ ending) (hfree' : slash ∉ ending')
    (hlong : 2 < ending.length) (hlong' : 2 < ending'.length)
    (hlast : ending.getLast? ≠ ending'.getLast?) :
    location cwd path ≠ location cwd path' := by
  rcases location_of_isSuffix cwd hending hfree hlong with
    ⟨directory, piece, hplace, hpiece⟩
  rcases location_of_isSuffix cwd hending' hfree' hlong' with
    ⟨directory', piece', hplace', hpiece'⟩
  rw [hplace, hplace']
  intro hsame
  have hpieces : piece = piece' :=
    List.head_eq_of_cons_eq (List.append_inj' hsame rfl).2
  subst hpieces
  rcases hpiece with ⟨front, rfl⟩
  rcases hpiece' with ⟨front', hfront⟩
  have hne : ending ≠ [] := List.length_pos_iff.mp (by omega)
  have hne' : ending' ≠ [] := List.length_pos_iff.mp (by omega)
  have hlasts := congrArg List.getLast? hfront
  rw [List.getLast?_append_of_ne_nil _ hne,
    List.getLast?_append_of_ne_nil _ hne'] at hlasts
  exact hlast hlasts.symm

end PosixPaths
