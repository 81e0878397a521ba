import GhcpConsole.ClaudeCode.DateVariants
import GhcpConsole.ClaudeCode.Thinking

/-!
# Bodies that differ in the current date

The block of the current date is stripped so that a request does not change from one day to the next.
Two bodies that differ only in dates are prepared alike exactly if the dates are in blocks that the
scan finds (`current_date_free`).
-/

namespace GhcpConsole.ClaudeCode

/-! ## Two bodies -/

section Differ

variable {ν : Type}

mutual

/-- The values are the same but for texts of fields `text`, which are related; `isText` says that the
value is one. -/
def Differ (R : String → String → Prop) (isText : Bool) : Json ν → Json ν → Prop
  | .str u, w => ∃ v, w = .str v ∧ (u = v ∨ isText = true ∧ R u v)
  | .arr items, w => ∃ items', w = .arr items' ∧ DifferItems R items items'
  | .obj members, w => ∃ members', w = .obj members' ∧ DifferMembers R members members'
  | value, w => value = w

def DifferItems (R : String → String → Prop) : List (Json ν) → List (Json ν) → Prop
  | [], ws => ws = []
  | item :: items, ws => ∃ item' items', ws = item' :: items' ∧ Differ R false item item'
      ∧ DifferItems R items items'

def DifferMembers (R : String → String → Prop) :
    List (String × Json ν) → List (String × Json ν) → Prop
  | [], ws => ws = []
  | (key, child) :: members, ws => ∃ child' members', ws = (key, child') :: members'
      ∧ Differ R (key = "text") child child' ∧ DifferMembers R members members'

end

variable {R : String → String → Prop}

mutual

theorem Differ.stripDate (hR : ∀ u v, R u v → stripCurrentDateBlock u = stripCurrentDateBlock v)
    {isText : Bool} {w : Json ν} : (value : Json ν) → Differ R isText value w →
    stripDate isText value = stripDate isText w
  | .null, h => by rw [show Json.null = w from h]
  | .bool b, h => by rw [show Json.bool b = w from h]
  | .num n, h => by rw [show Json.num n = w from h]
  | .str u, h => by
      obtain ⟨v, rfl, heq | ⟨rfl, hrel⟩⟩ := h
      · rw [heq]
      · exact congrArg Json.str (hR u v hrel)
  | .arr items, h => by
      obtain ⟨items', rfl, hitems⟩ := h
      rw [ClaudeCode.stripDate, ClaudeCode.stripDate, DifferItems.stripDate hR items hitems]
  | .obj members, h => by
      obtain ⟨members', rfl, hmembers⟩ := h
      rw [ClaudeCode.stripDate, ClaudeCode.stripDate, DifferMembers.stripDate hR members hmembers]

theorem DifferItems.stripDate (hR : ∀ u v, R u v → stripCurrentDateBlock u = stripCurrentDateBlock v)
    {ws : List (Json ν)} : (items : List (Json ν)) → DifferItems R items ws →
    stripDateItems items = stripDateItems ws
  | [], h => by rw [show ws = [] from h]
  | item :: items, h => by
      obtain ⟨item', items', rfl, hitem, hitems⟩ := h
      rw [stripDateItems, stripDateItems, hitem.stripDate hR item, hitems.stripDate hR items]

theorem DifferMembers.stripDate (hR : ∀ u v, R u v → stripCurrentDateBlock u = stripCurrentDateBlock v)
    {ws : List (String × Json ν)} : (members : List (String × Json ν)) → DifferMembers R members ws →
    stripDateMembers members = stripDateMembers ws
  | [], h => by rw [show ws = [] from h]
  | (key, child) :: members, h => by
      obtain ⟨child', members', rfl, hchild, hmembers⟩ := h
      rw [stripDateMembers, stripDateMembers, hchild.stripDate hR child, hmembers.stripDate hR members]

end

end Differ

/-! ## Their preparation -/

section Freedom

variable {ν : Type} [JsInteger ν] {body body' : Body ν}

/-- Bodies with the same texts after the dates are stripped are prepared alike. -/
theorem preprocess_of_stripDate (h : hasMessageOutputConfig body = false)
    (h' : hasMessageOutputConfig body' = false) (hsame : stripDateMembers body = stripDateMembers body') :
    preprocessClaudeCodeMessagesBody body = preprocessClaudeCodeMessagesBody body' := by
  have hstripped : stripped body = stripped body' := by
    rw [stripped, stripped, stripVolatileCurrentDate, stripVolatileCurrentDate, stripCacheControlScope,
      stripCacheControlScope, ← stripScopeMembers_stripDateMembers, hsame,
      stripScopeMembers_stripDateMembers]
  have hmodel : stringField (body.get "model") = stringField (body'.get "model") := by
    have hget := congrArg (OrderedMap.get · "model") hsame
    simp only [get_stripDateMembers] at hget
    rw [← stringField_stripDate, ← stringField_stripDate (body'.get "model")]
    exact congrArg stringField hget
  have hprofile : modelProfile body = modelProfile body' := by rw [modelProfile, modelProfile, hmodel]
  rw [preprocess_eq h, preprocess_eq h', hstripped, hprofile]

/-- A text of the system prompt. -/
def systemBody (text : String) : Body ν := [("system", .obj [("text", .str text)])]

theorem system_preprocess (text : String) :
    (preprocessClaudeCodeMessagesBody (systemBody text : Body ν)).get "system"
      = some (.obj [("text", .str (stripCurrentDateBlock text))]) := by
  rw [preprocess_eq rfl, get_prepareMessages (by decide) (by decide), get_applyModelProfile (by decide)]
  rfl

/-- The bodies are plain, no message of them has an effort of its own, and they differ only in texts that
are related. -/
structure Alike (R : String → String → Prop) (body body' : Body ν) : Prop where
  plain : isPlainMembers body = true ∧ isPlainMembers body' = true
  configs : hasMessageOutputConfig body = false ∧ hasMessageOutputConfig body' = false
  differ : DifferMembers R body body'

/-- Plain bodies that differ in covered dates are prepared alike; and two texts that differ in dates can
stand for each other in every plain body exactly if the dates are covered. -/
theorem current_date_free :
    (∀ body body' : Body ν, Alike (fun u v => SameButDates u v ∧ DatesCovered u v) body body' →
      preprocessClaudeCodeMessagesBody body = preprocessClaudeCodeMessagesBody body')
    ∧ ∀ u v, SameButDates u v →
      ((∀ body body' : Body ν, Alike (fun x y => x = u ∧ y = v) body body' →
          preprocessClaudeCodeMessagesBody body = preprocessClaudeCodeMessagesBody body')
        ↔ DatesCovered u v) := by
  refine ⟨fun body body' h => ?_, fun u v hdates => ⟨fun hall => ?_, fun hcovered => ?_⟩⟩
  · refine preprocess_of_stripDate h.configs.1 h.configs.2 (h.differ.stripDate (fun u v hrel => ?_) body)
    exact (stripCurrentDateBlock_eq_iff hrel.1).mpr hrel.2
  · have hsame := congrArg (OrderedMap.get · "system")
      (hall (systemBody u) (systemBody v) ⟨⟨rfl, rfl⟩, ⟨rfl, rfl⟩,
        ⟨_, _, rfl, ⟨_, rfl, _, _, rfl, ⟨v, rfl, Or.inr ⟨rfl, rfl, rfl⟩⟩, rfl⟩, rfl⟩⟩)
    simp only [system_preprocess, Option.some.injEq, Json.obj.injEq, List.cons.injEq, Prod.mk.injEq,
      Json.str.injEq, and_true, true_and] at hsame
    exact (stripCurrentDateBlock_eq_iff hdates).mp hsame
  · intro body body' h
    refine preprocess_of_stripDate h.configs.1 h.configs.2 (h.differ.stripDate (fun x y hrel => ?_) body)
    rw [hrel.1, hrel.2]
    exact (stripCurrentDateBlock_eq_iff hdates).mpr hcovered

end Freedom

/-! The block at the end of a text. -/

def blockOf (date : String) : String := "# currentDate\nToday's date is " ++ date

/-- Without a newline behind the date the block stays. -/
theorem current_date_free_as_stated :
    ¬ ∀ body body' : Body Int, hasMessageOutputConfig body = false →
      hasMessageOutputConfig body' = false → DifferMembers SameButDates body body' →
      preprocessClaudeCodeMessagesBody body = preprocessClaudeCodeMessagesBody body' := by
  intro h
  have hdates : SameButDates (blockOf "2026-10-13") (blockOf "2026-10-14") := by
    have hu : textLines (blockOf "2026-10-13")
        = [currentDateHeading, "Today's date is 2026-10-13".toList] := by decide
    have hv : textLines (blockOf "2026-10-14")
        = [currentDateHeading, "Today's date is 2026-10-14".toList] := by decide
    rw [SameButDates, hu, hv]
    refine .same false currentDateHeading _ _ (.date _ _ [] [] ⟨by decide, by decide, ?_⟩ (.nil false))
    decide
  have hsame := congrArg (fun body => (OrderedMap.get body "system").bind (textOf "text"))
    (h (systemBody (blockOf "2026-10-13")) (systemBody (blockOf "2026-10-14")) rfl rfl
      ⟨_, _, rfl, ⟨_, rfl, _, _, rfl, ⟨_, rfl, Or.inr ⟨rfl, hdates⟩⟩, rfl⟩, rfl⟩)
  exact absurd hsame (by decide +kernel)

end GhcpConsole.ClaudeCode
