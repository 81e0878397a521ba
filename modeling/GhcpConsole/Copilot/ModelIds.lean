import Mathlib.Data.List.Induction
import GhcpConsole.Lib.OrderedMap

/-!
# Model ids

`modelIds.ts`: models are published under canonical ids, and an index resolves an id that a request
names to the model of the upstream catalog. Every upstream id and every published id resolves to its
model exactly where no published id is the upstream id of another model (`model_ids`).
-/

namespace GhcpConsole.Copilot

/-! ## Canonical ids -/

/-- `(\d+)\.(\d+)(?=$|-)` at the start of the text: the two numbers and what follows. -/
def versionAt (text : List Char) : Option (List Char × List Char × List Char) :=
  match text.span Char.isDigit with
  | ([], _) => none
  | (major, '.' :: rest) =>
      match rest.span Char.isDigit with
      | ([], _) => none
      | (minor, []) => some (major, minor, [])
      | (minor, '-' :: rest) => some (major, minor, '-' :: rest)
      | _ => none
  | _ => none

/-- The first `(^|-)(\d+)\.(\d+)(?=$|-)` with its point replaced. -/
def replaceVersion : List Char → List Char
  | [] => []
  | c :: text =>
      match if c = '-' then versionAt text else none with
      | some (major, minor, rest) => '-' :: major ++ '-' :: minor ++ rest
      | none => c :: replaceVersion text

def isClaude (modelId : String) : Bool := "claude-".toList.isPrefixOf modelId.toList

/-- No Claude id starts with a digit, so its version comes after a dash. -/
def toCanonicalModelId (modelId : String) : String :=
  if isClaude modelId then String.ofList (replaceVersion modelId.toList) else modelId

/-- Without `-\d{8}` at the end. -/
def withoutDateAlias (modelId : String) : String :=
  let date := modelId.toList.reverse.take 9
  if isClaude modelId && date.length = 9 && (date.take 8).all Char.isDigit && date.drop 8 = ['-'] then
    String.ofList (modelId.toList.reverse.drop 9).reverse
  else modelId

example : toCanonicalModelId "claude-opus-4.7-1m" = "claude-opus-4-7-1m" := by decide
example : withoutDateAlias "claude-sonnet-4-5-20250929" = "claude-sonnet-4-5" := by decide

/-! ## The index -/

/-- A model of the catalog: its id and a copy under another id. -/
class Identified (T : Type) where
  modelId : T → String
  withId : T → String → T
  modelId_withId (model : T) (id : String) : modelId (withId model id) = id

structure ModelIdResolution (T : Type) where
  requestedId : String
  canonicalId : String
  upstreamId : String
  model : T

structure ModelIdCollisionError where
  canonicalId : String
  upstreamIds : List String
deriving DecidableEq

section Index

variable {T : Type} [Identified T]

open Identified

def canonicalId (model : T) : String := toCanonicalModelId (modelId model)

def addToGroup (groups : OrderedMap String (List T)) (model : T) : OrderedMap String (List T) :=
  match groups.get (canonicalId model) with
  | some group => groups.set (canonicalId model) (group ++ [model])
  | none => groups.set (canonicalId model) [model]

def canonicalGroups (models : List T) : OrderedMap String (List T) := models.foldl addToGroup []

abbrev ModelIdIndex (T : Type) := OrderedMap String (ModelIdResolution T)

def resolutionOf (model : T) : ModelIdResolution T where
  requestedId := canonicalId model
  canonicalId := canonicalId model
  upstreamId := modelId model
  model := model

def addResolution (index : ModelIdIndex T) (model : T) : ModelIdIndex T :=
  (index.set (canonicalId model) (resolutionOf model)).set (modelId model) (resolutionOf model)

def addGroup (index : ModelIdIndex T) (entry : String × List T) :
    Except ModelIdCollisionError (ModelIdIndex T) :=
  match entry.2 with
  | [model] => .ok (addResolution index model)
  | group => .error { canonicalId := entry.1, upstreamIds := (group.map modelId).eraseDups }

def buildModelIdIndex (models : List T) : Except ModelIdCollisionError (ModelIdIndex T) :=
  (canonicalGroups models).foldlM addGroup []

def resolveModelId (index : ModelIdIndex T) (requestedId : String) : Option (ModelIdResolution T) :=
  let canonicalRequestedId := toCanonicalModelId requestedId
  let withoutDate := withoutDateAlias canonicalRequestedId
  let resolved := (index.get requestedId).or ((index.get canonicalRequestedId).or
    (if withoutDate = canonicalRequestedId then none else index.get withoutDate))
  resolved.map fun resolved => { resolved with requestedId }

def withCanonicalModelId (model : T) : T :=
  if canonicalId model = modelId model then model else withId model (canonicalId model)

def withCanonicalModelIds (models : List T) : Except ModelIdCollisionError (List T) := do
  let _ ← buildModelIdIndex models
  let canonical : OrderedMap String T := models.foldl (fun canonical model =>
    let publicModel := withCanonicalModelId model
    if (canonical.get (modelId publicModel)).isSome then canonical
    else canonical.set (modelId publicModel) publicModel) []
  pure (canonical.map (·.2))

/-! ## Groups -/

section Groups

variable {models : List T} {model m : T} {c : String} {groups : OrderedMap String (List T)}

theorem get_addToGroup : (addToGroup groups model).get c =
    if c = canonicalId model then some ((groups.get c).getD [] ++ [model]) else groups.get c := by
  unfold addToGroup
  split
  · rename_i group hgroup
    rw [OrderedMap.get_set]
    split
    · rename_i hc
      rw [hc, hgroup, Option.getD_some]
    · rfl
  · rename_i hnone
    rw [OrderedMap.get_set]
    split
    · rename_i hc
      rw [hc, hnone, Option.getD_none, List.nil_append]
    · rfl

/-- The group of an id is the models that are published under it. -/
theorem get_canonicalGroups : (canonicalGroups models).get c =
    if models.any (canonicalId · = c) then some (models.filter (canonicalId · = c)) else none := by
  induction models using List.reverseRecOn with
  | nil => rfl
  | append_singleton models model ih =>
      rw [canonicalGroups, List.foldl_concat, get_addToGroup, ← canonicalGroups, ih, List.any_append,
        List.filter_append]
      by_cases hc : canonicalId model = c
      · rw [if_pos hc.symm, List.any_cons, decide_eq_true hc, Bool.true_or, Bool.or_true, if_pos rfl,
          List.filter_cons_of_pos (by simpa using hc), List.filter_nil]
        split
        · rfl
        · rename_i hnone
          have hempty : models.filter (canonicalId · = c) = [] :=
            List.filter_eq_nil_iff.mpr fun m hm hsame => hnone (List.any_eq_true.mpr ⟨m, hm, hsame⟩)
          rw [hempty]
          rfl
      · rw [if_neg fun heq => hc heq.symm, List.any_cons, decide_eq_false hc, Bool.false_or,
          List.any_nil, Bool.or_false, List.filter_cons_of_neg (by simpa using hc), List.filter_nil,
          List.append_nil]

/-- With distinct published ids, every group is one model. -/
theorem canonicalGroups_of_nodup (h : (models.map canonicalId).Nodup) :
    canonicalGroups models = models.map fun m => (canonicalId m, [m]) := by
  induction models using List.reverseRecOn with
  | nil => rfl
  | append_singleton models model ih =>
      rw [List.map_append, List.nodup_append] at h
      have hnew : canonicalId model ∉ models.map canonicalId := fun hmem =>
        h.2.2 _ hmem _ (List.mem_singleton_self _) rfl
      have hkeys : (models.map fun m => (canonicalId m, [m])).map (·.1) = models.map canonicalId := by
        rw [List.map_map]
        rfl
      have hnone : OrderedMap.get (models.map fun m => (canonicalId m, [m])) (canonicalId model)
          = none := OrderedMap.get_eq_none.mpr (by rw [hkeys]; exact hnew)
      rw [canonicalGroups, List.foldl_concat, ← canonicalGroups, ih h.1, addToGroup, hnone,
        List.map_append]
      exact OrderedMap.set_of_not_mem (by rw [hkeys]; exact hnew)

end Groups

/-! ## The built index -/

section Build

variable {models : List T} {index : ModelIdIndex T} {m m' : T} {k : String}

theorem foldlM_resolutions (index : ModelIdIndex T) :
    (models.map fun m => (canonicalId m, [m])).foldlM addGroup index
      = .ok (models.foldl addResolution index) := by
  induction models generalizing index with
  | nil => rfl
  | cons m models ih =>
      rw [List.map_cons, List.foldlM_cons, List.foldl_cons]
      exact ih (addResolution index m)

theorem buildModelIdIndex_of_nodup (h : (models.map canonicalId).Nodup) :
    buildModelIdIndex models = .ok (models.foldl addResolution []) := by
  unfold buildModelIdIndex
  rw [canonicalGroups_of_nodup h]
  exact foldlM_resolutions []

theorem addGroup_eq_ok {entry : String × List T} {index' : ModelIdIndex T}
    (h : addGroup index entry = .ok index') : ∃ m, entry.2 = [m] := by
  unfold addGroup at h
  split at h
  · rename_i m hone
    exact ⟨m, hone⟩
  · cases h

/-- A group that is not one model is a collision. -/
theorem foldlM_collision {groups : OrderedMap String (List T)} {entry : String × List T}
    (hentry : entry ∈ groups) (hgroup : ∀ m, entry.2 ≠ [m]) (index index' : ModelIdIndex T) :
    groups.foldlM addGroup index ≠ .ok index' := by
  induction groups generalizing index with
  | nil => cases hentry
  | cons first groups ih =>
      rw [List.foldlM_cons]
      cases hfirst : addGroup index first with
      | error e => exact fun h => by cases h
      | ok next =>
          rcases List.mem_cons.mp hentry with rfl | hentry
          · obtain ⟨m, hone⟩ := addGroup_eq_ok hfirst
            exact absurd hone (hgroup m)
          · exact ih hentry next

theorem nodup_of_build (h : buildModelIdIndex models = .ok index) :
    (models.map canonicalId).Nodup := by
  by_contra hdup
  obtain ⟨c, hc⟩ : ∃ c, 2 ≤ (models.map canonicalId).count c := by
    rw [List.nodup_iff_count_le_one] at hdup
    obtain ⟨c, hc⟩ := not_forall.mp hdup
    exact ⟨c, by omega⟩
  have hlength : 2 ≤ (models.filter (canonicalId · = c)).length := by
    rw [← List.countP_eq_length_filter]
    rw [List.count, List.countP_map] at hc
    refine le_of_le_of_eq hc (List.countP_congr fun m _ => ?_)
    simp
  have hany : models.any (canonicalId · = c) = true := by
    rw [List.any_eq_true]
    obtain ⟨m, hm⟩ := List.exists_mem_of_length_pos (Nat.lt_of_lt_of_le Nat.zero_lt_two hlength)
    exact ⟨m, List.mem_of_mem_filter hm, (List.mem_filter.mp hm).2⟩
  have hgroup : (canonicalGroups models).get c = some (models.filter (canonicalId · = c)) :=
    get_canonicalGroups.trans (if_pos hany)
  refine foldlM_collision (OrderedMap.get_mem hgroup) (fun m hone => ?_) [] index h
  rw [show models.filter (canonicalId · = c) = [m] from hone] at hlength
  exact absurd hlength (by simp)

theorem get_addResolution : (addResolution index m).get k =
    if k = modelId m ∨ k = canonicalId m then some (resolutionOf m) else index.get k := by
  unfold addResolution
  rw [OrderedMap.get_set]
  by_cases hid : k = modelId m
  · rw [if_pos hid, if_pos (.inl hid)]
  · rw [if_neg hid, OrderedMap.get_set]
    by_cases hcanonical : k = canonicalId m
    · rw [if_pos hcanonical, if_pos (.inr hcanonical)]
    · rw [if_neg hcanonical, if_neg (not_or.mpr ⟨hid, hcanonical⟩)]

/-- The last model with the id, upstream or published. -/
theorem get_resolutions : (models.foldl addResolution []).get k
    = (models.reverse.find? fun m => k = modelId m || k = canonicalId m).map resolutionOf := by
  induction models using List.reverseRecOn with
  | nil => rfl
  | append_singleton models m ih =>
      rw [List.foldl_concat, get_addResolution, List.reverse_append, List.reverse_singleton,
        List.singleton_append]
      by_cases hk : k = modelId m ∨ k = canonicalId m
      · rw [if_pos hk, List.find?_cons_of_pos (by simpa using hk), Option.map_some]
      · rw [if_neg hk, List.find?_cons_of_neg (by simpa using hk), ih]

end Build

/-! ## What ids resolve to -/

/-- The id is that of the model, upstream or published. -/
def Names (k : String) (m : T) : Prop := k = modelId m ∨ k = canonicalId m

/-- A published id is the upstream id of a model that is published under another one. -/
def Shadowed (models : List T) : Prop :=
  ∃ m ∈ models, ∃ m' ∈ models, canonicalId m = modelId m' ∧ canonicalId m ≠ canonicalId m'

/-- What an index is to do for the catalog. -/
structure Published (models : List T) (index : ModelIdIndex T) : Prop where
  upstream : ∀ m ∈ models, (resolveModelId index (modelId m)).map (·.model) = some m
  canonical : ∀ m ∈ models, (resolveModelId index (canonicalId m)).map (·.model) = some m
  /-- An id resolves to a model that it does not name only when it names none. -/
  dated : ∀ requestedId m, (resolveModelId index requestedId).map (·.model) = some m →
    ¬Names requestedId m → ¬Names (toCanonicalModelId requestedId) m →
      withoutDateAlias (toCanonicalModelId requestedId) ≠ toCanonicalModelId requestedId
        ∧ ∀ m' ∈ models, ¬Names requestedId m' ∧ ¬Names (toCanonicalModelId requestedId) m'
  listed : ∃ list, withCanonicalModelIds models = .ok list
    ∧ list = models.map withCanonicalModelId ∧ (list.map modelId).Nodup

section Resolve

variable {models : List T} {index : ModelIdIndex T} {m m' : T} {k : String}

theorem modelId_withCanonicalModelId : modelId (withCanonicalModelId m) = canonicalId m := by
  unfold withCanonicalModelId
  split
  · rename_i h
    exact h.symm
  · exact modelId_withId m _

omit [Identified T] in
theorem resolveModelId_of_get {r : ModelIdResolution T} (h : index.get k = some r) :
    (resolveModelId index k).map (·.model) = some r.model := by
  unfold resolveModelId
  rw [h]
  rfl

/-- What the index holds under an id is a model that the id names. -/
theorem get_names (h : (models.foldl addResolution []).get k = some (resolutionOf m)) :
    Names k m := by
  rw [get_resolutions, Option.map_eq_some_iff] at h
  obtain ⟨m', hm', hsame⟩ := h
  obtain rfl : m' = m := congrArg ModelIdResolution.model hsame
  simpa [Names] using List.find?_some hm'

theorem get_of_names (hm : m ∈ models) (h : Names k m) :
    ∃ m' ∈ models, (models.foldl addResolution []).get k = some (resolutionOf m') := by
  have hsome : (models.reverse.find? fun m => k = modelId m || k = canonicalId m).isSome = true :=
    List.find?_isSome.mpr ⟨m, List.mem_reverse.mpr hm, by simpa [Names] using h⟩
  obtain ⟨m', hm'⟩ := Option.isSome_iff_exists.mp hsome
  exact ⟨m', List.mem_reverse.mp (List.mem_of_find?_eq_some hm'), by
    rw [get_resolutions, hm', Option.map_some]⟩

theorem eq_of_canonicalId (hnodup : (models.map canonicalId).Nodup) (hm : m ∈ models)
    (hm' : m' ∈ models) (h : canonicalId m = canonicalId m') : m = m' :=
  List.inj_on_of_nodup_map hnodup hm hm' h

/-- Where no published id is shadowed, an id names one model at most. -/
theorem eq_of_names (hnodup : (models.map canonicalId).Nodup) (hclear : ¬Shadowed models)
    (hm : m ∈ models) (hm' : m' ∈ models) (h : Names k m) (h' : Names k m') : m = m' := by
  have hshadow : ∀ {a b : T}, a ∈ models → b ∈ models → canonicalId a = modelId b →
      canonicalId a = canonicalId b := fun ha hb hab => by
    by_contra hne
    exact hclear ⟨_, ha, _, hb, hab, hne⟩
  refine eq_of_canonicalId hnodup hm hm' ?_
  rcases h with rfl | rfl <;> rcases h' with h' | h'
  · rw [canonicalId, canonicalId, h']
  · exact (hshadow hm' hm h'.symm).symm
  · exact hshadow hm hm' h'
  · exact h'

theorem resolveModelId_names (hnodup : (models.map canonicalId).Nodup) (hclear : ¬Shadowed models)
    (hm : m ∈ models) (h : Names k m) :
    (resolveModelId (models.foldl addResolution []) k).map (·.model) = some m := by
  obtain ⟨m', hm', hget⟩ := get_of_names hm h
  rw [resolveModelId_of_get hget]
  exact congrArg some (eq_of_names hnodup hclear hm' hm (get_names hget) h)

/-- A model that the requested id does not name is found without the date alone. -/
theorem resolveModelId_dated {requestedId : String}
    (h : (resolveModelId (models.foldl addResolution []) requestedId).map (·.model) = some m)
    (hnot : ¬Names requestedId m) (hnot' : ¬Names (toCanonicalModelId requestedId) m) :
    withoutDateAlias (toCanonicalModelId requestedId) ≠ toCanonicalModelId requestedId
      ∧ ∀ m' ∈ models, ¬Names requestedId m' ∧ ¬Names (toCanonicalModelId requestedId) m' := by
  have hresolution : ∀ {k : String} {r : ModelIdResolution T},
      (models.foldl addResolution []).get k = some r → r.model = m → Names k m := by
    intro k r hget hmodel
    have hr := hget
    rw [get_resolutions, Option.map_eq_some_iff] at hr
    obtain ⟨m', -, rfl⟩ := hr
    obtain rfl : m' = m := hmodel
    exact get_names hget
  unfold resolveModelId at h
  cases hrequested : (models.foldl addResolution []).get requestedId with
  | some r =>
      rw [hrequested] at h
      exact absurd (hresolution hrequested (Option.some.inj h)) hnot
  | none =>
      cases hcanonical : (models.foldl addResolution []).get (toCanonicalModelId requestedId) with
      | some r =>
          simp only [hrequested, hcanonical, Option.none_or, Option.some_or] at h
          exact absurd (hresolution hcanonical (Option.some.inj h)) hnot'
      | none =>
          refine ⟨fun hsame => ?_, fun m' hm' => ⟨fun hnames => ?_, fun hnames => ?_⟩⟩
          · simp only [hrequested, hcanonical, if_pos hsame, Option.none_or] at h
            cases h
          · obtain ⟨_, -, hget⟩ := get_of_names hm' hnames
            rw [hrequested] at hget
            cases hget
          · obtain ⟨_, -, hget⟩ := get_of_names hm' hnames
            rw [hcanonical] at hget
            cases hget

/-- Models published under distinct ids are all listed. -/
theorem withCanonicalModelIds_of_nodup (h : (models.map canonicalId).Nodup) :
    withCanonicalModelIds models = .ok (models.map withCanonicalModelId) := by
  have hlist : ∀ models : List T, (models.map canonicalId).Nodup →
      models.foldl (fun (canonical : OrderedMap String T) model =>
        if (canonical.get (modelId (withCanonicalModelId model))).isSome then canonical
        else canonical.set (modelId (withCanonicalModelId model)) (withCanonicalModelId model)) []
      = models.map fun m => (canonicalId m, withCanonicalModelId m) := by
    intro models
    induction models using List.reverseRecOn with
    | nil => exact fun _ => rfl
    | append_singleton models model ih =>
        intro h
        rw [List.map_append, List.nodup_append] at h
        have hkeys : (models.map fun m => (canonicalId m, withCanonicalModelId m)).map (·.1)
            = models.map canonicalId := by
          rw [List.map_map]
          rfl
        have hnew : canonicalId model ∉
            (models.map fun m => (canonicalId m, withCanonicalModelId m)).map (·.1) := by
          rw [hkeys]
          exact fun hmem => h.2.2 _ hmem _ (List.mem_singleton_self _) rfl
        rw [List.foldl_concat, ih h.1, modelId_withCanonicalModelId, OrderedMap.get_eq_none.mpr hnew,
          List.map_append]
        exact OrderedMap.set_of_not_mem hnew
  simp only [withCanonicalModelIds, buildModelIdIndex_of_nodup h]
  exact congrArg Except.ok ((congrArg (List.map (·.2)) (hlist models h)).trans (List.map_map ..))

end Resolve

/-- Every model of a catalog resolves under its upstream id and under its published id, exactly where
no published id is the upstream id of another model. -/
theorem model_ids (models : List T) :
    (∀ index, buildModelIdIndex models = .ok index → Published models index)
      ↔ ((models.map canonicalId).Nodup → ¬Shadowed models) := by
  constructor
  · rintro h hnodup ⟨m, hm, m', hm', hsame, hne⟩
    have hpublished := h _ (buildModelIdIndex_of_nodup hnodup)
    have hfirst := hpublished.canonical m hm
    rw [hsame, hpublished.upstream m' hm'] at hfirst
    exact hne (congrArg canonicalId (Option.some.inj hfirst).symm)
  · intro h index hindex
    have hnodup := nodup_of_build hindex
    rw [buildModelIdIndex_of_nodup hnodup] at hindex
    obtain rfl := Except.ok.inj hindex
    exact {
      upstream := fun m hm => resolveModelId_names hnodup (h hnodup) hm (.inl rfl)
      canonical := fun m hm => resolveModelId_names hnodup (h hnodup) hm (.inr rfl)
      dated := fun _ _ => resolveModelId_dated
      listed := ⟨_, withCanonicalModelIds_of_nodup hnodup, rfl, by
        have hids : modelId ∘ withCanonicalModelId = canonicalId (T := T) :=
          funext fun _ => modelId_withCanonicalModelId
        rw [List.map_map, hids]
        exact hnodup⟩ }

end Index

/-! ## A catalog -/

structure ModelInfo where
  id : String
  name : String
deriving DecidableEq

instance : Identified ModelInfo where
  modelId := ModelInfo.id
  withId model id := { model with id }
  modelId_withId _ _ := rfl

/-- Two versions in one id: only the first is rewritten, to an id that is in the catalog. -/
def twoVersions : List ModelInfo := [⟨"claude-1.2-3.4", "A"⟩, ⟨"claude-1-2-3.4", "B"⟩]

/-- The published id of the first model resolves to the second. -/
theorem model_ids_shadowed :
    ¬∀ (models : List ModelInfo) (index : ModelIdIndex ModelInfo),
      buildModelIdIndex models = .ok index → Published models index := by
  intro h
  have hbuilt : ∃ index, buildModelIdIndex twoVersions = .ok index
      ∧ (resolveModelId index (canonicalId twoVersions[0])).map (·.model) = some twoVersions[1] :=
    ⟨_, rfl, by decide⟩
  obtain ⟨index, hindex, hresolved⟩ := hbuilt
  have hfirst := (h twoVersions index hindex).canonical twoVersions[0] (by decide)
  rw [hresolved] at hfirst
  exact absurd hfirst (by decide)

end GhcpConsole.Copilot
