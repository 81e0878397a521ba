import Mathlib.Data.Option.Basic
import GhcpConsole.ClaudeCode.Plain
import GhcpConsole.ClaudeCode.Texts
import GhcpConsole.Lib.ObjectHeap

/-!
# The clone of the body

`cloneJson` makes a node for every node of the body, so the passes, which hold the clone and nothing of
the body, cannot write to it. The nodes have no prototypes, so a body that is not plain is not cloned
here.
-/

namespace GhcpConsole.ClaudeCode

open ObjectHeap

section Clone

variable {ν : Type}

/-- `values.map(f)`. -/
def mapValues (f : Heap ν → Value ν → Option (Heap ν × Value ν)) :
    Heap ν → List (Value ν) → Option (Heap ν × List (Value ν))
  | heap, [] => some (heap, [])
  | heap, value :: values => do
      let (heap, value) ← f heap value
      let (heap, values) ← mapValues f heap values
      pure (heap, value :: values)

/-- The loop over the entries of an object. `clone.__proto__ = child` is beyond these nodes. -/
def mapEntries (f : Heap ν → Value ν → Option (Heap ν × Value ν)) :
    Heap ν → List (String × Value ν) → Option (Heap ν × List (String × Value ν))
  | heap, [] => some (heap, [])
  | heap, (key, value) :: entries => do
      guard (key ≠ "__proto__")
      let (heap, value) ← f heap value
      let (heap, entries) ← mapEntries f heap entries
      pure (heap, (key, value) :: entries)

def cloneJson : Nat → Heap ν → Value ν → Option (Heap ν × Value ν)
  | 0, _, _ => none
  | fuel + 1, heap, .ref address =>
      match heap[address]? with
      | none => none
      | some (.arr items) => do
          let (heap, items) ← mapValues (cloneJson fuel) heap items
          pure (heap ++ [.arr items], .ref heap.length)
      | some (.obj members) => do
          let (heap, members) ← mapEntries (cloneJson fuel) heap members
          pure (heap ++ [.obj members], .ref heap.length)
  | _ + 1, heap, value => some (heap, value)

/-- Nodes have been added that point to each other only, and the values point to them only. -/
structure Grown (base : Nat) (heap heap' : Heap ν) (values : List (Value ν)) : Prop where
  kept : Kept heap heap'
  le : heap.length ≤ heap'.length
  closed : Closed base heap'
  apart : ∀ address, .ref address ∈ values → base ≤ address

variable {base fuel : Nat} {heap : Heap ν}

/-- A clone of a value that reads as the text. -/
def ClonesTo (f : Heap ν → Value ν → Option (Heap ν × Value ν)) (base : Nat) (text : Json ν) : Prop :=
  ∀ (heap : Heap ν) (value : Value ν), base ≤ heap.length → Closed base heap → Reads heap value text →
    ∃ heap' clone, f heap value = some (heap', clone) ∧ Grown base heap heap' [clone]
      ∧ Reads heap' clone text

theorem mapValues_spec {f : Heap ν → Value ν → Option (Heap ν × Value ν)} {values : List (Value ν)}
    {texts : List (Json ν)} (hf : ∀ text ∈ texts, ClonesTo f base text) (hbase : base ≤ heap.length)
    (hclosed : Closed base heap) (hreads : ReadsItems heap values texts) :
    ∃ heap' clones, mapValues f heap values = some (heap', clones) ∧ Grown base heap heap' clones
      ∧ ReadsItems heap' clones texts := by
  induction texts generalizing heap values with
  | nil =>
      cases hreads
      exact ⟨heap, [], rfl, ⟨fun _ _ h => h, Nat.le_refl _, hclosed, nofun⟩, .nil⟩
  | cons text texts ih =>
      cases hreads with
      | cons value values text texts h hrest =>
          obtain ⟨heap₁, clone, hclone, hgrown, hread⟩ :=
            hf text List.mem_cons_self heap value hbase hclosed h
          obtain ⟨heap₂, clones, hclones, hgrown₂, hreads₂⟩ :=
            ih (fun text htext => hf text (List.mem_cons_of_mem _ htext))
              (Nat.le_trans hbase hgrown.le) hgrown.closed (hrest.kept hgrown.kept)
          refine ⟨heap₂, clone :: clones, ?_, ⟨hgrown.kept.trans hgrown₂.kept,
            Nat.le_trans hgrown.le hgrown₂.le, hgrown₂.closed, fun address hmem => ?_⟩,
            .cons clone clones text texts (hread.kept hgrown₂.kept) hreads₂⟩
          · rw [mapValues, hclone]
            show (mapValues f heap₁ values).bind _ = _
            rw [hclones]
            rfl
          · rcases List.mem_cons.mp hmem with heq | hmem
            · exact hgrown.apart address (heq ▸ List.mem_singleton_self clone)
            · exact hgrown₂.apart address hmem

theorem mapEntries_spec {f : Heap ν → Value ν → Option (Heap ν × Value ν)}
    {entries : List (String × Value ν)} {texts : List (String × Json ν)}
    (hkeys : ∀ text ∈ texts, text.1 ≠ "__proto__") (hf : ∀ text ∈ texts, ClonesTo f base text.2)
    (hbase : base ≤ heap.length) (hclosed : Closed base heap) (hreads : ReadsMembers heap entries texts) :
    ∃ heap' clones, mapEntries f heap entries = some (heap', clones)
      ∧ Grown base heap heap' (clones.map (·.2)) ∧ ReadsMembers heap' clones texts := by
  induction texts generalizing heap entries with
  | nil =>
      cases hreads
      exact ⟨heap, [], rfl, ⟨fun _ _ h => h, Nat.le_refl _, hclosed, nofun⟩, .nil⟩
  | cons text texts ih =>
      cases hreads with
      | cons key value values text texts h hrest =>
          have hkey : key ≠ "__proto__" := hkeys (key, text) List.mem_cons_self
          obtain ⟨heap₁, clone, hclone, hgrown, hread⟩ :=
            hf (key, text) List.mem_cons_self heap value hbase hclosed h
          obtain ⟨heap₂, clones, hclones, hgrown₂, hreads₂⟩ :=
            ih (fun text htext => hkeys text (List.mem_cons_of_mem _ htext))
              (fun text htext => hf text (List.mem_cons_of_mem _ htext))
              (Nat.le_trans hbase hgrown.le) hgrown.closed (hrest.kept hgrown.kept)
          refine ⟨heap₂, (key, clone) :: clones, ?_, ⟨hgrown.kept.trans hgrown₂.kept,
            Nat.le_trans hgrown.le hgrown₂.le, hgrown₂.closed, fun address hmem => ?_⟩,
            .cons key clone clones text texts (hread.kept hgrown₂.kept) hreads₂⟩
          · rw [mapEntries, guard, if_pos hkey, hclone]
            show (mapEntries f heap₁ values).bind _ = _
            rw [hclones]
            rfl
          · rcases List.mem_cons.mp hmem with heq | hmem
            · exact hgrown.apart address (heq ▸ List.mem_singleton_self clone)
            · exact hgrown₂.apart address hmem

/-- A new node over values that lie apart. -/
theorem Grown.new {heap' : Heap ν} {values : List (Value ν)} (h : Grown base heap heap' values)
    (hbase : base ≤ heap.length) {node : Node ν} (hnode : node.values = values) :
    Grown base heap (heap' ++ [node]) [.ref heap'.length] where
  kept := h.kept.trans (Kept.append _)
  le := by
    have hle := h.le
    rw [List.length_append]
    omega
  closed := h.closed.append (hnode ▸ h.apart)
  apart address hmem := by
    cases List.mem_singleton.mp hmem
    exact Nat.le_trans hbase h.le

/-- Fuel for every node of the text is enough. -/
theorem cloneJson_spec (base fuel : Nat) (text : Json ν) (hplain : isPlain text = true)
    (hfuel : sizeOf text < fuel) : ClonesTo (cloneJson fuel) base text := by
  induction fuel generalizing text with
  | zero => exact absurd hfuel (Nat.not_lt_zero _)
  | succ fuel ih =>
      intro heap value hbase hclosed hreads
      cases hreads with
      | null => exact ⟨heap, .null, rfl, ⟨fun _ _ h => h, Nat.le_refl _, hclosed, by simp⟩, .null⟩
      | bool b => exact ⟨heap, .bool b, rfl, ⟨fun _ _ h => h, Nat.le_refl _, hclosed, by simp⟩, .bool b⟩
      | num n => exact ⟨heap, .num n, rfl, ⟨fun _ _ h => h, Nat.le_refl _, hclosed, by simp⟩, .num n⟩
      | str s => exact ⟨heap, .str s, rfl, ⟨fun _ _ h => h, Nat.le_refl _, hclosed, by simp⟩, .str s⟩
      | arr address items texts hnode h =>
          have hsize : ∀ text ∈ texts, ClonesTo (cloneJson fuel) base text := by
            intro text htext
            refine ih text (isPlainItems_iff.mp hplain text htext) ?_
            have hmem := List.sizeOf_lt_of_mem htext
            simp only [Json.arr.sizeOf_spec] at hfuel
            omega
          obtain ⟨heap', clones, hclones, hgrown, hreads⟩ := mapValues_spec hsize hbase hclosed h
          refine ⟨heap' ++ [.arr clones], .ref heap'.length, ?_, hgrown.new hbase rfl,
            .arr _ clones texts ?_ (hreads.kept (Kept.append _))⟩
          · rw [cloneJson]
            simp only [hnode, hclones]
            rfl
          · rw [List.getElem?_concat_length]
      | obj address members texts hnode h =>
          have hmembers := isPlainMembers_iff.mp hplain
          have hsize : ∀ text ∈ texts, ClonesTo (cloneJson fuel) base text.2 := by
            intro text htext
            refine ih text.2 (hmembers text htext).2 ?_
            have hmem := List.sizeOf_lt_of_mem htext
            obtain ⟨key, value⟩ := text
            simp only [Json.obj.sizeOf_spec] at hfuel
            simp only [Prod.mk.sizeOf_spec] at hmem
            show sizeOf value < fuel
            omega
          obtain ⟨heap', clones, hclones, hgrown, hreads⟩ :=
            mapEntries_spec (fun text htext => (hmembers text htext).1) hsize hbase hclosed h
          refine ⟨heap' ++ [.obj clones], .ref heap'.length, ?_, hgrown.new hbase rfl,
            .obj _ clones texts ?_ (hreads.kept (Kept.append _))⟩
          · rw [cloneJson]
            simp only [hnode, hclones]
            rfl
          · rw [List.getElem?_concat_length]

/-- The clone reads as the body, and whatever is done by who holds the clone, the body stays. -/
theorem cloneJson_apart {value : Value ν} {text : Json ν} (hplain : isPlain text = true)
    (hreads : Reads heap value text) :
    ∃ fuel heap' clone, cloneJson fuel heap value = some (heap', clone) ∧ Reads heap' clone text
      ∧ ∀ state, Relation.ReflTransGen Step (heap', [clone]) state → Reads state.1 value text := by
  have hclosed : Closed heap.length heap := by
    intro address node hbase hnode
    exact absurd (List.getElem?_eq_some_iff.mp hnode).1 (by omega)
  obtain ⟨heap', clone, hclone, hgrown, hread⟩ := cloneJson_spec heap.length (sizeOf text + 1) text
    hplain (Nat.lt_succ_self _) heap value (Nat.le_refl _) hclosed hreads
  refine ⟨_, heap', clone, hclone, hread, fun state hsteps => ?_⟩
  have happart : Apart heap.length heap (heap', [clone]) := by
    refine ⟨hgrown.le, hgrown.apart, hgrown.closed, fun address hlt => ?_⟩
    rw [List.getElem?_eq_getElem hlt]
    exact hgrown.kept address _ (List.getElem?_eq_getElem hlt)
  exact hreads.of_apart (happart.steps hsteps)

end Clone

end GhcpConsole.ClaudeCode
