import GhcpConsole.Lib.OrderedMap

/-!
# Python values

Strings are lists of code points, among them surrogates. A `dict` and any other `Mapping` are the list of
their entries. Of a value of any other type it only matters whether it counts as true.
-/

namespace GhcpConsole.Python

abbrev Str := List UInt32

def text (s : String) : Str := s.toList.map Char.val

inductive Key
  | str (s : Str)
  | other (id : Nat)
deriving DecidableEq, Repr

inductive Value
  | none
  | bool (value : Bool)
  | int (value : Int)
  | str (s : Str)
  | list (items : List Value)
  | dict (entries : List (Key × Value))
  | mapping (entries : List (Key × Value))
  | object (id : Nat) (truthy : Bool)

abbrev Entries := OrderedMap Key Value

/-- A key that is written as a literal. -/
def key (s : String) : Key := .str (text s)

namespace Value

/-- `isinstance(value, str)`. -/
def str? : Value → Option Str
  | str s => some s
  | _ => Option.none

/-- `isinstance(value, Mapping)`. -/
def mapping? : Value → Option Entries
  | dict entries => some entries
  | mapping entries => some entries
  | _ => Option.none

/-- `isinstance(value, dict)`. -/
def dict? : Value → Option Entries
  | dict entries => some entries
  | _ => Option.none

/-- `value is None`. -/
def isNone : Value → Bool
  | none => true
  | _ => false

/-- `value is True`. -/
def isTrue : Value → Bool
  | bool value => value
  | _ => false

/-- `bool(value)`. -/
def truthy : Value → Bool
  | none => false
  | bool value => value
  | int value => value ≠ 0
  | str s => !s.isEmpty
  | list items => !items.isEmpty
  | dict entries => !entries.isEmpty
  | mapping entries => !entries.isEmpty
  | object _ truthy => truthy

/-- `==`, which does not ask for the order of entries. -/
inductive Equal : Value → Value → Prop
  | same (value : Value) : Equal value value
  | list (items items' : List Value) (length : items.length = items'.length)
      (each : ∀ (i : Nat) item item', items[i]? = some item → items'[i]? = some item' → Equal item item') :
      Equal (list items) (list items')
  | dict (entries entries' : Entries)
      (keys : ∀ key, (entries.get key).isSome = (entries'.get key).isSome)
      (values : ∀ key value value', entries.get key = some value → entries'.get key = some value' →
        Equal value value') :
      Equal (dict entries) (dict entries')
  | mapping (entries entries' : Entries)
      (keys : ∀ key, (entries.get key).isSome = (entries'.get key).isSome)
      (values : ∀ key value value', entries.get key = some value → entries'.get key = some value' →
        Equal value value') :
      Equal (mapping entries) (mapping entries')

variable {value value' : Value}

theorem Equal.str? (equal : Equal value value') : value'.str? = value.str? := by
  cases equal <;> rfl

theorem Equal.isNone (equal : Equal value value') : value'.isNone = value.isNone := by
  cases equal <;> rfl

/-- Equal dictionaries have the same keys, and equal values under them. -/
theorem Equal.entries {entries entries' : Entries} (equal : Equal (.dict entries) (.dict entries')) :
    (∀ key, (entries.get key).isSome = (entries'.get key).isSome)
      ∧ ∀ key value value', entries.get key = some value → entries'.get key = some value' →
        Equal value value' := by
  cases equal with
  | same => exact ⟨fun _ => rfl, fun key value value' h h' => Option.some.inj (h.symm.trans h') ▸ .same value⟩
  | dict _ _ keys values => exact ⟨keys, values⟩

/-- `dict(value)` of equal mappings. -/
theorem Equal.mappingEntries (equal : Equal value value') :
    Equal (.dict (value.mapping?.getD [])) (.dict (value'.mapping?.getD [])) := by
  cases equal with
  | same => exact .same _
  | list => exact .same _
  | dict _ _ keys values => exact .dict _ _ keys values
  | mapping _ _ keys values => exact .dict _ _ keys values

/-- Equal values of one key keep two dictionaries equal. -/
theorem Equal.set {entries entries' : Entries} (equal : Equal (.dict entries) (.dict entries'))
    (key : Key) (set : Equal value value') :
    Equal (.dict (entries.set key value)) (.dict (entries'.set key value')) := by
  obtain ⟨keys, values⟩ := equal.entries
  refine .dict _ _ (fun other => ?_) (fun other w w' h h' => ?_)
  · rw [OrderedMap.get_set, OrderedMap.get_set]
    split
    · rfl
    · exact keys other
  · rw [OrderedMap.get_set] at h h'
    split at h
    · rename_i isKey
      rw [if_pos isKey] at h'
      cases h
      cases h'
      exact set
    · rename_i notKey
      rw [if_neg notKey] at h'
      exact values other w w' h h'

end Value

end GhcpConsole.Python
