import Mathlib.Data.List.Basic

/-!
# Deciding what the members of a list are like

Where a type is finite, what holds of every member of a list can also be decided by going through the whole
type. For characters and code units that is far too long a way.
-/

namespace GhcpConsole

/-- Only the list is gone through. -/
instance (priority := 2000) decidableForallMem {α : Type} (list : List α) (p : α → Prop) [DecidablePred p] :
    Decidable (∀ a ∈ list, p a) := List.decidableBAll p list

end GhcpConsole
