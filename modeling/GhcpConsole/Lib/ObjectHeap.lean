import Mathlib.Data.List.Basic
import Mathlib.Logic.Relation
import GhcpConsole.Lib.Json

/-!
# Objects in memory

Arrays and objects lie at addresses, and whoever holds the address of one can write to it. Who holds
only addresses from some point on cannot reach what lies before (`Reads.of_steps`).
-/

namespace GhcpConsole.ObjectHeap

inductive Value (ν : Type)
  | null
  | bool (value : Bool)
  | num (value : ν)
  | str (value : String)
  | ref (address : Nat)

inductive Node (ν : Type)
  | arr (items : List (Value ν))
  | obj (members : List (String × Value ν))

def Node.values {ν : Type} : Node ν → List (Value ν)
  | .arr items => items
  | .obj members => members.map (·.2)

/-- The node at an address is the one at that index; a new one comes last. -/
abbrev Heap (ν : Type) : Type := List (Node ν)

section Reading

variable {ν : Type}

mutual

/-- What is read at a value. -/
inductive Reads (heap : Heap ν) : Value ν → Json ν → Prop
  | null : Reads heap .null .null
  | bool (value : Bool) : Reads heap (.bool value) (.bool value)
  | num (value : ν) : Reads heap (.num value) (.num value)
  | str (value : String) : Reads heap (.str value) (.str value)
  | arr (address : Nat) (items : List (Value ν)) (texts : List (Json ν))
      (hnode : heap[address]? = some (.arr items)) (h : ReadsItems heap items texts) :
      Reads heap (.ref address) (.arr texts)
  | obj (address : Nat) (members : List (String × Value ν)) (texts : List (String × Json ν))
      (hnode : heap[address]? = some (.obj members)) (h : ReadsMembers heap members texts) :
      Reads heap (.ref address) (.obj texts)

inductive ReadsItems (heap : Heap ν) : List (Value ν) → List (Json ν) → Prop
  | nil : ReadsItems heap [] []
  | cons (value : Value ν) (values : List (Value ν)) (text : Json ν) (texts : List (Json ν))
      (h : Reads heap value text) (hrest : ReadsItems heap values texts) :
      ReadsItems heap (value :: values) (text :: texts)

inductive ReadsMembers (heap : Heap ν) : List (String × Value ν) → List (String × Json ν) → Prop
  | nil : ReadsMembers heap [] []
  | cons (key : String) (value : Value ν) (values : List (String × Value ν)) (text : Json ν)
      (texts : List (String × Json ν)) (h : Reads heap value text)
      (hrest : ReadsMembers heap values texts) :
      ReadsMembers heap ((key, value) :: values) ((key, text) :: texts)

end

/-- The nodes of the one heap are in the other. -/
def Kept (heap heap' : Heap ν) : Prop :=
  ∀ (address : Nat) (node : Node ν), heap[address]? = some node → heap'[address]? = some node

variable {heap heap' : Heap ν}

theorem Kept.append (nodes : List (Node ν)) : Kept heap (heap ++ nodes) := by
  intro address node hnode
  rw [List.getElem?_append_left (List.getElem?_eq_some_iff.mp hnode).1]
  exact hnode

theorem Kept.trans {heap'' : Heap ν} (h : Kept heap heap') (h' : Kept heap' heap'') :
    Kept heap heap'' :=
  fun address node hnode => h' address node (h address node hnode)

mutual

theorem Reads.kept (hkept : Kept heap heap') {value : Value ν} {text : Json ν} :
    Reads heap value text → Reads heap' value text
  | .null => .null
  | .bool value => .bool value
  | .num value => .num value
  | .str value => .str value
  | .arr address items texts hnode h => .arr address items texts (hkept _ _ hnode) (h.kept hkept)
  | .obj address members texts hnode h => .obj address members texts (hkept _ _ hnode) (h.kept hkept)

theorem ReadsItems.kept (hkept : Kept heap heap') {values : List (Value ν)} {texts : List (Json ν)} :
    ReadsItems heap values texts → ReadsItems heap' values texts
  | .nil => .nil
  | .cons value values text texts h hrest =>
      .cons value values text texts (h.kept hkept) (hrest.kept hkept)

theorem ReadsMembers.kept (hkept : Kept heap heap') {values : List (String × Value ν)}
    {texts : List (String × Json ν)} :
    ReadsMembers heap values texts → ReadsMembers heap' values texts
  | .nil => .nil
  | .cons key value values text texts h hrest =>
      .cons key value values text texts (h.kept hkept) (hrest.kept hkept)

end

end Reading

/-! ## Writing -/

section Writing

variable {ν : Type}

/-- What a piece of code can do that holds some values: it follows the addresses it holds, writes what
it holds where it can, and makes new nodes. -/
inductive Step : Heap ν × List (Value ν) → Heap ν × List (Value ν) → Prop
  | constant (heap : Heap ν) (held : List (Value ν)) (value : Value ν)
      (hvalue : ∀ address, value ≠ .ref address) : Step (heap, held) (heap, value :: held)
  | read (heap : Heap ν) (held : List (Value ν)) (address : Nat) (node : Node ν) (value : Value ν)
      (haddress : .ref address ∈ held) (hnode : heap[address]? = some node)
      (hvalue : value ∈ node.values) : Step (heap, held) (heap, value :: held)
  | write (heap : Heap ν) (held : List (Value ν)) (address : Nat) (node : Node ν)
      (haddress : .ref address ∈ held) (hnode : ∀ value ∈ node.values, value ∈ held) :
      Step (heap, held) (heap.set address node, held)
  | new (heap : Heap ν) (held : List (Value ν)) (node : Node ν)
      (hnode : ∀ value ∈ node.values, value ∈ held) :
      Step (heap, held) (heap ++ [node], .ref heap.length :: held)

/-- The nodes from an address on point to each other only. -/
def Closed (base : Nat) (heap : Heap ν) : Prop :=
  ∀ address node, base ≤ address → heap[address]? = some node →
    ∀ target, .ref target ∈ node.values → base ≤ target

theorem Closed.append {base : Nat} {heap : Heap ν} {node : Node ν} (h : Closed base heap)
    (hnode : ∀ target, .ref target ∈ node.values → base ≤ target) : Closed base (heap ++ [node]) := by
  intro address found hbase hfound
  by_cases hlt : address < heap.length
  · rw [List.getElem?_append_left hlt] at hfound
    exact h address found hbase hfound
  · rw [List.getElem?_append_right (by omega)] at hfound
    have hfound : found ∈ [node] := List.mem_of_getElem? hfound
    rw [List.mem_singleton.mp hfound]
    exact hnode

/-- All that is held lies from the address on, and what lies before is as it was. -/
structure Apart (base : Nat) (before : Heap ν) (state : Heap ν × List (Value ν)) : Prop where
  base_le : base ≤ state.1.length
  held : ∀ address, .ref address ∈ state.2 → base ≤ address
  closed : Closed base state.1
  same : ∀ address < base, state.1[address]? = before[address]?

theorem Apart.step {base : Nat} {before : Heap ν} {state state' : Heap ν × List (Value ν)}
    (h : Apart base before state) (hstep : Step state state') : Apart base before state' := by
  cases hstep with
  | constant heap held value hvalue =>
      refine ⟨h.base_le, fun address hmem => ?_, h.closed, h.same⟩
      rcases List.mem_cons.mp hmem with heq | hmem
      · exact absurd heq.symm (hvalue address)
      · exact h.held address hmem
  | read heap held address node value haddress hnode hvalue =>
      refine ⟨h.base_le, fun target hmem => ?_, h.closed, h.same⟩
      rcases List.mem_cons.mp hmem with heq | hmem
      · exact h.closed address node (h.held address haddress) hnode target (heq ▸ hvalue)
      · exact h.held target hmem
  | write heap held address node haddress hnode =>
      have hbase := h.held address haddress
      have hlength : base ≤ (heap.set address node).length := by
        rw [List.length_set]
        exact h.base_le
      refine ⟨hlength, h.held, fun other found hother hfound => ?_,
        fun other hother => ?_⟩
      · by_cases hsame : address = other
        · subst hsame
          have hlt := (List.getElem?_eq_some_iff.mp hfound).1
          rw [List.length_set] at hlt
          rw [List.getElem?_set_self hlt] at hfound
          exact fun target htarget =>
            h.held target (hnode _ (Option.some.inj hfound ▸ htarget))
        · rw [List.getElem?_set_ne hsame] at hfound
          exact h.closed other found hother hfound
      · rw [List.getElem?_set_ne (by omega)]
        exact h.same other hother
  | new heap held node hnode =>
      have hle : base ≤ heap.length := h.base_le
      refine ⟨?_, fun address hmem => ?_,
        h.closed.append fun target htarget => h.held target (hnode _ htarget), fun other hother => ?_⟩
      · show base ≤ (heap ++ [node]).length
        rw [List.length_append]
        omega
      · rcases List.mem_cons.mp hmem with heq | hmem
        · cases heq
          exact hle
        · exact h.held address hmem
      · rw [List.getElem?_append_left (by omega)]
        exact h.same other hother

theorem Apart.steps {base : Nat} {before : Heap ν} {state state' : Heap ν × List (Value ν)}
    (h : Apart base before state) (hsteps : Relation.ReflTransGen Step state state') :
    Apart base before state' := by
  induction hsteps with
  | refl => exact h
  | tail _ hstep ih => exact ih.step hstep

/-- What lies before is read as it was. -/
theorem Reads.of_apart {before : Heap ν} {state : Heap ν × List (Value ν)} {value : Value ν}
    {text : Json ν} (hreads : Reads before value text) (h : Apart before.length before state) :
    Reads state.1 value text := by
  refine hreads.kept fun address node hnode => ?_
  rw [h.same address (List.getElem?_eq_some_iff.mp hnode).1]
  exact hnode

end Writing

end GhcpConsole.ObjectHeap
