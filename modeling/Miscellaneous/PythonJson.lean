import Miscellaneous.PythonStrings
import Mathlib.Tactic

/-!
# JSON values as a Python program sees them

What `json.loads` returns, with the operations a program applies to a value
without looking at its type first: subscripting, `in`, iteration, `len` and
`==`.  An operation that the type does not have raises the exception that
Python raises.

Floating point numbers are a parameter, and so are the texts and numbers that
`str` and `int` make of a value where the language reference leaves a choice.
-/

namespace PythonJson

open PythonStrings

inductive Error where
  | attributeError
  | fileNotFoundError
  | indexError
  | keyError
  | nameError
  | osError
  | overflowError
  | typeError
  | unicodeError
  | valueError
  deriving DecidableEq, Repr

inductive Value (F : Type) where
  | none
  | bool (b : Bool)
  | int (z : ℤ)
  | float (f : F)
  | str (s : Str)
  | list (items : List (Value F))
  | dict (entries : List (Str × Value F))

/-- `eq` and `eqInt` compare a float with a number, `toInt` is what `int` makes
of a float, `intOfStr` what it makes of a string, and `repr` is the text of
a value that is not a string. -/
class PyRuntime (F : Type) where
  eq : F → F → Bool
  eqInt : F → ℤ → Bool
  toInt : F → Except Error ℤ
  intOfStr : Str → Except Error ℤ
  repr : Value F → Str

variable {F : Type}

/-- Truth values are numbers. -/
def Value.number : Value F → Option (ℤ ⊕ F)
  | .bool b => some (.inl (if b then 1 else 0))
  | .int z => some (.inl z)
  | .float f => some (.inr f)
  | _ => Option.none

/-- `value[key]` for a string key. -/
def Value.getItem (value : Value F) (key : Str) : Except Error (Value F) :=
  match value with
  | .dict entries =>
      match entries.lookup key with
      | some item => .ok item
      | Option.none => .error .keyError
  | _ => .error .typeError

mutual

/-- A text file can hold all strings and keys of the value. -/
def Value.encodable : Value F → Bool
  | .str s => (encode s).isSome
  | .list items => encodableItems items
  | .dict entries => encodableEntries entries
  | _ => true

def encodableItems : List (Value F) → Bool
  | [] => true
  | item :: items => item.encodable && encodableItems items

def encodableEntries : List (Str × Value F) → Bool
  | [] => true
  | (key, item) :: entries =>
      (encode key).isSome && item.encodable && encodableEntries entries

end

/-- `json.dump` to a text file with `ensure_ascii=False`: the strings are
written as they are. -/
def Value.dump (value : Value F) : Except Error Unit :=
  if value.encodable then .ok () else .error .unicodeError

/-- `value[key] = item` for a string key; only a dictionary takes it. -/
def Value.setItem (value : Value F) (key : Str) (item : Value F) : Value F :=
  match value with
  | .dict entries =>
      if (entries.lookup key).isSome then
        .dict (entries.map fun entry =>
          if entry.1 = key then (key, item) else entry)
      else .dict (entries ++ [(key, item)])
  | other => other

/-- The items that `for item in value` runs through. -/
def Value.iterate : Value F → Except Error (List (Value F))
  | .list items => .ok items
  | .dict entries => .ok (entries.map fun entry => .str entry.1)
  | .str s => .ok (s.map fun c => .str [c])
  | _ => .error .typeError

def Value.len : Value F → Except Error ℕ
  | .list items => .ok items.length
  | .dict entries => .ok entries.length
  | .str s => .ok s.length
  | _ => .error .typeError

/-- A value where only a string will do; otherwise the given exception. -/
def Value.asStr (value : Value F) (error : Error) : Except Error Str :=
  match value with
  | .str s => .ok s
  | _ => .error error

/-- Lists and dictionaries have no hash, so they cannot be looked up. -/
def Value.hashable : Value F → Bool
  | .list _ | .dict _ => false
  | _ => true

variable [PyRuntime F]

def eqNumber : ℤ ⊕ F → ℤ ⊕ F → Bool
  | .inl a, .inl b => a == b
  | .inr a, .inl b => PyRuntime.eqInt a b
  | .inl a, .inr b => PyRuntime.eqInt b a
  | .inr a, .inr b => PyRuntime.eq a b

mutual

/-- `==`. -/
def Value.eq : Value F → Value F → Bool
  | .none, .none => true
  | .bool b, other =>
      (other.number.map (eqNumber (.inl (if b then 1 else 0)))).getD false
  | .int z, other => (other.number.map (eqNumber (.inl z))).getD false
  | .float f, other => (other.number.map (eqNumber (.inr f))).getD false
  | .str s, .str t => s == t
  | .list items, .list others => eqItems items others
  | .dict entries, .dict others =>
      entries.length == others.length && eqEntries entries others
  | _, _ => false

def eqItems : List (Value F) → List (Value F) → Bool
  | [], [] => true
  | item :: items, other :: others => item.eq other && eqItems items others
  | _, _ => false

def eqEntries : List (Str × Value F) → List (Str × Value F) → Bool
  | [], _ => true
  | (key, item) :: entries, others =>
      (match others.lookup key with
        | some other => item.eq other
        | Option.none => false) && eqEntries entries others

end

/-- `key in value` for a string key. -/
def Value.contains (value : Value F) (key : Str) : Except Error Bool :=
  match value with
  | .dict entries => .ok (entries.lookup key).isSome
  | .list items => .ok (items.any fun item => item.eq (.str key))
  | .str s => .ok (decide (key <:+: s))
  | _ => .error .typeError

/-- `int(value)`. -/
def Value.toInt : Value F → Except Error ℤ
  | .bool b => .ok (if b then 1 else 0)
  | .int z => .ok z
  | .float f => PyRuntime.toInt f
  | .str s => PyRuntime.intOfStr F s
  | _ => .error .typeError

/-- `str(value)`. -/
def Value.toStr : Value F → Str
  | .str s => s
  | value => PyRuntime.repr value

/-- Values without floating point numbers.  Numbers are read and printed in
decimal; the texts of lists and dictionaries are left out. -/
instance : PyRuntime Empty where
  eq f := f.elim
  eqInt f := f.elim
  toInt f := f.elim
  intOfStr s :=
    match (String.ofList (s.map fun c => Char.ofNat c.val)).toInt? with
    | some z => .ok z
    | Option.none => .error .valueError
  repr
    | .int z => str (toString z)
    | .bool b => if b then str "True" else str "False"
    | .none => str "None"
    | _ => []

theorem Value.eq_str_iff {value : Value F} {s : Str} :
    value.eq (.str s) = true ↔ value = .str s := by
  cases value <;> simp [Value.eq, Value.number]

/-! ## Values that a text file can hold -/

section Encodable

variable {F : Type}

theorem encodableItems_iff {items : List (Value F)} :
    encodableItems items = true ↔ ∀ item ∈ items, item.encodable = true := by
  induction items with
  | nil => simp [encodableItems]
  | cons item items ih => simp [encodableItems, ih]

theorem encodableEntries_iff {entries : List (Str × Value F)} :
    encodableEntries entries = true ↔
      ∀ entry ∈ entries, (encode entry.1).isSome = true ∧
        entry.2.encodable = true := by
  induction entries with
  | nil => simp [encodableEntries]
  | cons entry entries ih => simp [encodableEntries, ih]

theorem Value.encodable_getItem {value item : Value F} {key : Str}
    (hvalue : value.encodable = true) (hitem : value.getItem key = .ok item) :
    item.encodable = true := by
  cases value with
  | dict entries =>
      unfold Value.encodable at hvalue
      simp only [Value.getItem] at hitem
      cases hlookup : entries.lookup key with
      | none =>
          rw [hlookup] at hitem
          cases hitem
      | some found =>
          rw [hlookup] at hitem
          cases hitem
          rcases List.lookup_eq_some_iff.mp hlookup with
            ⟨before, after, rfl, _⟩
          exact (encodableEntries_iff.mp hvalue (key, item) (by simp)).2
  | _ => cases hitem

theorem Value.encodable_setItem {value item : Value F} {key : Str}
    (hvalue : value.encodable = true) (hkey : (encode key).isSome = true)
    (hitem : item.encodable = true) :
    (value.setItem key item).encodable = true := by
  cases value with
  | dict entries =>
      unfold Value.encodable at hvalue
      rw [encodableEntries_iff] at hvalue
      unfold Value.setItem
      dsimp only
      split_ifs
      · unfold Value.encodable
        rw [encodableEntries_iff]
        intro entry hentry
        rcases List.mem_map.mp hentry with ⟨old, hold, rfl⟩
        split_ifs
        · exact ⟨hkey, hitem⟩
        · exact hvalue old hold
      · unfold Value.encodable
        rw [encodableEntries_iff]
        intro entry hentry
        rcases List.mem_append.mp hentry with hold | hnew
        · exact hvalue entry hold
        · rw [List.mem_singleton.mp hnew]
          exact ⟨hkey, hitem⟩
  | _ => exact hvalue

theorem Value.dump_eq_ok {value : Value F} :
    value.dump = .ok () ↔ value.encodable = true := by
  unfold Value.dump
  split_ifs with hvalue <;> simp [hvalue]

end Encodable

/-! ## Calls that may fail -/

universe u

theorem bind_eq_ok_iff {α β : Type u} {ε : Type*} {x : Except ε α}
    {f : α → Except ε β} {result : β} :
    (x >>= f) = .ok result ↔ ∃ value, x = .ok value ∧ f value = .ok result := by
  cases x with
  | error e => simp [bind, Except.bind]
  | ok v => simp [bind, Except.bind]

theorem mapM_eq_ok_iff {α : Type*} {β : Type u} {ε : Type*}
    {f : α → Except ε β} {items : List α} {results : List β} :
    items.mapM f = .ok results ↔
      List.Forall₂ (fun item result => f item = .ok result) items results := by
  induction items generalizing results with
  | nil =>
      simp [List.mapM_nil, pure, Except.pure, eq_comm]
  | cons item items ih =>
      simp only [List.mapM_cons, bind_eq_ok_iff, ih, pure, Except.pure,
        Except.ok.injEq]
      constructor
      · rintro ⟨value, hvalue, values, hvalues, rfl⟩
        exact .cons hvalue hvalues
      · rintro (_ | ⟨hvalue, hvalues⟩)
        exact ⟨_, hvalue, _, hvalues, rfl⟩

theorem exists_of_mapM_eq_ok {α : Type*} {β : Type u} {ε : Type*}
    {f : α → Except ε β} {items : List α} {results : List β}
    (hmap : items.mapM f = .ok results) {result : β}
    (hresult : result ∈ results) : ∃ item ∈ items, f item = .ok result := by
  induction mapM_eq_ok_iff.mp hmap with
  | nil => cases hresult
  | @cons item first items results hfirst hmore ih =>
      rcases List.mem_cons.mp hresult with hsame | hmem
      · exact ⟨item, List.mem_cons_self, hsame ▸ hfirst⟩
      · rcases ih (mapM_eq_ok_iff.mpr hmore) hmem with ⟨other, hother, hf⟩
        exact ⟨other, List.mem_cons_of_mem _ hother, hf⟩

theorem exists_result_of_mapM_eq_ok {α : Type*} {β : Type u} {ε : Type*}
    {f : α → Except ε β} {items : List α} {results : List β}
    (hmap : items.mapM f = .ok results) {item : α} (hitem : item ∈ items) :
    ∃ result ∈ results, f item = .ok result := by
  induction mapM_eq_ok_iff.mp hmap with
  | nil => cases hitem
  | @cons first result items results hfirst hmore ih =>
      rcases List.mem_cons.mp hitem with hsame | hmem
      · exact ⟨result, List.mem_cons_self, hsame ▸ hfirst⟩
      · rcases ih (mapM_eq_ok_iff.mpr hmore) hmem with ⟨other, hother, hf⟩
        exact ⟨other, List.mem_cons_of_mem _ hother, hf⟩

/-- If every call succeeds with the property, the whole map does. -/
theorem exists_mapM_eq_ok {α : Type*} {β : Type u} {ε : Type*}
    {f : α → Except ε β} {P : α → β → Prop} {items : List α}
    (hitems : ∀ item ∈ items, ∃ result, f item = .ok result ∧ P item result) :
    ∃ results, items.mapM f = .ok results ∧ List.Forall₂ P items results := by
  induction items with
  | nil => exact ⟨[], rfl, .nil⟩
  | cons item items ih =>
      rcases hitems item List.mem_cons_self with ⟨result, hresult, hP⟩
      rcases ih fun other hother =>
        hitems other (List.mem_cons_of_mem _ hother) with ⟨results, hresults, hall⟩
      refine ⟨result :: results, ?_, .cons hP hall⟩
      rw [mapM_eq_ok_iff] at hresults ⊢
      exact .cons hresult hresults

end PythonJson
