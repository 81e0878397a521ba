import GhcpConsole.Lib.OrderedMap
import Mathlib.Algebra.Group.Nat.Defs

/-!
# JSON values

The values that `JSON.parse` returns. The members of an object are in the order in which
`Object.values` lists them. Numbers are left open: what is asked of them is in `JsNumber`.
-/

namespace GhcpConsole

/-- What the language does with a number. -/
class JsNumber (ν : Type) where
  truthy : ν → Bool
  isFinite : ν → Bool
  toText : ν → String
  zero : ν
  add : ν → ν → ν

/-- The integers that a number holds exactly. -/
instance : JsNumber Int where
  truthy n := n ≠ 0
  isFinite _ := true
  toText := toString
  zero := 0
  add := (· + ·)

/-- The positive integers among the numbers. -/
class JsInteger (ν : Type) extends JsNumber ν where
  /-- `Number.isInteger(value) && value > 0`, with the integer. -/
  positiveInteger : ν → Option Nat
  ofInteger : Nat → ν
  /-- `n - 1`, rounded to a number. -/
  pred : Nat → Nat
  positiveInteger_pos : ∀ {x n}, positiveInteger x = some n → 0 < n
  positiveInteger_ofInteger : ∀ {n}, 0 < n → n ≤ 2 ^ 53 → positiveInteger (ofInteger n) = some n
  pred_exact : ∀ {n}, n ≤ 2 ^ 53 → pred n = n - 1
  pred_large : ∀ {n}, 2 ^ 53 < n → 2 ^ 53 ≤ pred n

instance : JsInteger Int where
  positiveInteger n := if 0 < n then some n.toNat else none
  ofInteger n := n
  pred n := n - 1
  positiveInteger_pos {x n} h := by
    split at h
    · have hx : x.toNat = n := Option.some.inj h
      omega
    · cases h
  positiveInteger_ofInteger {n} hpos _ := by rw [if_pos (by omega), Int.toNat_natCast]
  pred_exact _ := rfl
  pred_large h := by omega

inductive Json (ν : Type)
  | null
  | bool (value : Bool)
  | num (value : ν)
  | str (value : String)
  | arr (items : List (Json ν))
  | obj (members : List (String × Json ν))

/-- `JSON.parse` and `JSON.stringify`; a text that is not JSON has no value. -/
structure JsonText (ν : Type) where
  parse : List Char → Option (Json ν)
  stringify : Json ν → List Char

namespace Json

variable {ν : Type} [JsNumber ν]

def truthy : Json ν → Bool
  | null => false
  | bool value => value
  | num value => JsNumber.truthy value
  | str value => value != ""
  | arr _ | obj _ => true

/-- `value && typeof value === 'object' && !Array.isArray(value)`. -/
def members? : Json ν → Option (OrderedMap String (Json ν))
  | obj members => some members
  | _ => none

/-- `value?.[name]` for a value that may be missing; a name no primitive and no array has. -/
def field (name : String) (value : Option (Json ν)) : Option (Json ν) :=
  (value.bind members?).bind (·.get name)

/-- `Array.isArray(value)`. -/
def items? : Json ν → Option (List (Json ν))
  | arr items => some items
  | _ => none

/-- `typeof value === 'string'`. -/
def string? : Json ν → Option String
  | str value => some value
  | _ => none

omit [JsNumber ν] in
theorem string?_eq_some {value : Json ν} {text : String} :
    value.string? = some text ↔ value = .str text := by
  cases value <;> simp [string?]

mutual

/-- `String(value)`, which throws on an object with a member `toString`: no member is a function. -/
def toText : Json ν → Option String
  | null => some "null"
  | bool value => some (if value then "true" else "false")
  | num value => some (JsNumber.toText value)
  | str value => some value
  | arr items => (itemTexts items).map (",".intercalate)
  | obj members => if (OrderedMap.get members "toString").isSome then none else some "[object Object]"

/-- What `Array.prototype.join` joins. -/
def itemTexts : List (Json ν) → Option (List String)
  | [] => some []
  | null :: items => (itemTexts items).map ("" :: ·)
  | item :: items =>
      match toText item, itemTexts items with
      | some text, some texts => some (text :: texts)
      | _, _ => none

end

end Json

end GhcpConsole
