/-!
# Rows of SQL tables

Values, rows read by column name, and when two rows have the same key.
-/

namespace GhcpConsole.Sql

inductive Value
  | null
  | integer (n : Int)
  | real (q : Rat)
  | text (s : String)
  | blob (bytes : List UInt8)
deriving DecidableEq, Repr

/-- A row is read by column name; a column that its table does not have reads as null. -/
abbrev Row := String → Value

/-- Null is equal to nothing. -/
def sameValue (v w : Value) : Bool := v = w && v ≠ .null

def sameKey (key : List String) (row other : Row) : Bool :=
  !key.isEmpty && key.all fun column => sameValue (row column) (other column)

section Keys

variable {column : String} {row other : Row}

theorem sameKey_singleton :
    sameKey [column] row other = true ↔ row column = other column ∧ row column ≠ .null := by
  simp [sameKey, sameValue]

end Keys

end GhcpConsole.Sql
