import GhcpConsole.Lib.JsonSyntax

/-!
# The strings of a JSON text are not longer than the text

An escape sequence is longer than what it stands for.
-/

namespace GhcpConsole.JsonValue

/-- No string in the value is longer. -/
inductive AtMost (n : Nat) : JsonValue → Prop
  | null : AtMost n .null
  | bool (value : Bool) : AtMost n (.bool value)
  | num (value : Double) : AtMost n (.num value)
  | str {value : JsString} (length : value.length ≤ n) : AtMost n (.str value)
  | arr {items : List JsonValue} (each : ∀ item ∈ items, AtMost n item) : AtMost n (.arr items)
  | obj {members : List (JsString × JsonValue)} (each : ∀ member ∈ members, AtMost n member.2) :
      AtMost n (.obj members)

variable {n fuel : Nat} {text rest : JsString}

theorem length_skipSpace (text : JsString) : (skipSpace text).length ≤ text.length :=
  (List.dropWhile_sublist isSpace).length_le

theorem mem_setMember {members : OrderedMap JsString JsonValue} {key : JsString} {value : JsonValue}
    {member : JsString × JsonValue} (h : member ∈ setMember members key value) :
    member = (key, value) ∨ member ∈ members := by
  unfold setMember at h
  split at h
  · exact OrderedMap.mem_set h
  · split at h
    · exact OrderedMap.mem_set h
    · rcases List.mem_append.mp h with first | h
      · exact .inr ((List.takeWhile_prefix _).subset first)
      · rcases List.mem_cons.mp h with same | last
        · exact .inl same
        · exact .inr ((List.dropWhile_sublist _).subset last)

theorem AtMost.ofMembers {members : List (JsString × JsonValue)} (each : ∀ member ∈ members, AtMost n member.2) :
    AtMost n (ofMembers members) := by
  suffices step : ∀ object : OrderedMap JsString JsonValue, (∀ member ∈ object, AtMost n member.2) →
      ∀ member ∈ members.foldl (fun object member => setMember object member.1 member.2) object,
        AtMost n member.2 from .obj (step [] nofun)
  induction members with
  | nil => exact fun _ object => object
  | cons first members ih =>
      intro object held
      refine ih (fun member mem => each member (List.mem_cons_of_mem _ mem)) _ fun member mem => ?_
      rcases mem_setMember mem with rfl | before
      · exact each first List.mem_cons_self
      · exact held member before

theorem map_first {α β : Type} {f : α → β} {found : Option (α × JsString)} {b : β}
    (h : found.map (·.map f id) = some (b, rest)) : ∃ a, found = some (a, rest) ∧ f a = b := by
  obtain ⟨⟨a, rest⟩, rfl, same⟩ := Option.map_eq_some_iff.mp h
  cases same
  exact ⟨a, rfl, rfl⟩

theorem length_readString {value : JsString} (h : readString text = some (value, rest)) :
    value.length + rest.length ≤ text.length := by
  fun_induction readString text generalizing value rest with
  | case2 =>
      cases h
      simp
  | case4 =>
      rename_i ih
      obtain ⟨unit, _, h⟩ := Option.bind_eq_some_iff.mp h
      obtain ⟨value, read, rfl⟩ := map_first h
      have := ih read
      simp only [List.length_cons] at *
      omega
  | case6 =>
      rename_i ih
      obtain ⟨unit, _, h⟩ := Option.bind_eq_some_iff.mp h
      obtain ⟨value, read, rfl⟩ := map_first h
      have := ih read
      simp only [List.length_cons] at *
      omega
  | case8 =>
      rename_i ih
      obtain ⟨value, read, rfl⟩ := map_first h
      have := ih read
      simp only [List.length_cons] at *
      omega
  | _ => cases h

theorem length_readDigits {digits : JsString} (h : readDigits text = some (digits, rest)) :
    rest.length ≤ text.length := by
  unfold readDigits at h
  split at h
  · cases h
  · cases h
    exact (List.dropWhile_sublist _).length_le

theorem length_readWhole {digits : JsString} (h : readWhole text = some (digits, rest)) :
    rest.length ≤ text.length := by
  unfold readWhole at h
  split at h
  · split at h
    · cases h
      exact Nat.le_succ _
    · split at h
      · cases h
        exact (List.dropWhile_sublist _).length_le
      · cases h
  · cases h

theorem length_readFraction {digits : JsString} (h : readFraction text = some (digits, rest)) :
    rest.length ≤ text.length := by
  unfold readFraction at h
  split at h
  · split at h
    · exact (length_readDigits h).trans (Nat.le_succ _)
    · cases h
      exact Nat.le_refl _
  · cases h
    exact Nat.le_refl _

theorem length_readExponent {exponent : Int} (h : readExponent text = some (exponent, rest)) :
    rest.length ≤ text.length := by
  unfold readExponent at h
  split at h
  · split at h
    · split at h
      · split at h
        · obtain ⟨digits, read, _⟩ := map_first h
          have := length_readDigits read
          simp only [List.length_cons]
          omega
        · obtain ⟨digits, read, _⟩ := map_first h
          have := length_readDigits read
          split at this <;> simp only [List.length_cons] at * <;> omega
      · cases h
    · cases h
      exact Nat.le_refl _
  · cases h
    exact Nat.le_refl _

theorem readNumber_atMost {value : JsonValue} (h : readNumber text = some (value, rest)) :
    AtMost n value ∧ rest.length ≤ text.length := by
  unfold readNumber at h
  obtain ⟨⟨whole, afterWhole⟩, hwhole, h⟩ := Option.bind_eq_some_iff.mp h
  obtain ⟨⟨fraction, afterFraction⟩, hfraction, h⟩ := Option.bind_eq_some_iff.mp h
  obtain ⟨⟨exponent, afterExponent⟩, hexponent, h⟩ := Option.bind_eq_some_iff.mp h
  cases h
  refine ⟨.num _, ?_⟩
  have := length_readWhole hwhole
  have := length_readFraction hfraction
  have := length_readExponent hexponent
  have : (if text.head? = some (codeUnit '-') then text.drop 1 else text).length ≤ text.length := by
    split
    · rw [List.length_drop]
      exact Nat.sub_le _ _
    · exact Nat.le_refl _
  omega

theorem readName_eq_some {name : String} {value found : JsonValue} (h : readName name value text = some (found, rest)) :
    found = value ∧ rest.length ≤ text.length := by
  unfold readName at h
  split at h
  · cases h
    exact ⟨rfl, by simp⟩
  · cases h

/-- What is read within a fuel. -/
structure Reading (n fuel : Nat) : Prop where
  value : ∀ text value rest, readValue fuel text = some (value, rest) → text.length ≤ n →
    AtMost n value ∧ rest.length ≤ text.length
  items : ∀ text items rest, readItems fuel text = some (items, rest) → text.length ≤ n →
    (∀ item ∈ items, AtMost n item) ∧ rest.length ≤ text.length
  members : ∀ text members rest, readMembers fuel text = some (members, rest) → text.length ≤ n →
    (∀ member ∈ members, AtMost n member.2) ∧ rest.length ≤ text.length

theorem Reading.value_succ (ih : Reading n fuel) {value : JsonValue} (h : readValue (fuel + 1) text = some (value, rest))
    (bound : text.length ≤ n) : AtMost n value ∧ rest.length ≤ text.length := by
  rw [readValue] at h
  have shorter := length_skipSpace text
  split at h
  · cases h
  · rename_i u after start
    rw [start, List.length_cons] at shorter
    have later := length_skipSpace after
    split at h
    · split at h
      · cases h
        exact ⟨.ofMembers nofun, by rw [List.length_drop]; omega⟩
      · obtain ⟨members, read, rfl⟩ := map_first h
        obtain ⟨each, length⟩ := ih.members _ _ _ read (by omega)
        exact ⟨.ofMembers each, by omega⟩
    · split at h
      · split at h
        · cases h
          exact ⟨.arr nofun, by rw [List.length_drop]; omega⟩
        · obtain ⟨items, read, rfl⟩ := map_first h
          obtain ⟨each, length⟩ := ih.items _ _ _ read (by omega)
          exact ⟨.arr each, by omega⟩
      · split at h
        · obtain ⟨string, read, rfl⟩ := map_first h
          have := length_readString read
          exact ⟨.str (by omega), by omega⟩
        · have named : ∀ name found, (∀ n, AtMost n found) → readName name found (u :: after) = some (value, rest) →
              AtMost n value ∧ rest.length ≤ text.length := by
            intro name found always read
            obtain ⟨rfl, length⟩ := readName_eq_some read
            rw [List.length_cons] at length
            exact ⟨always n, by omega⟩
          split at h
          · exact named _ _ (fun _ => .bool _) h
          · split at h
            · exact named _ _ (fun _ => .bool _) h
            · split at h
              · exact named _ _ (fun _ => .null) h
              · obtain ⟨held, length⟩ := readNumber_atMost h
                rw [List.length_cons] at length
                exact ⟨held, by omega⟩

theorem Reading.items_succ (ih : Reading n fuel) {items : List JsonValue}
    (h : readItems (fuel + 1) text = some (items, rest)) (bound : text.length ≤ n) :
    (∀ item ∈ items, AtMost n item) ∧ rest.length ≤ text.length := by
  rw [readItems] at h
  obtain ⟨⟨item, after⟩, read, h⟩ := Option.bind_eq_some_iff.mp h
  obtain ⟨held, length⟩ := ih.value _ _ _ read bound
  have shorter := length_skipSpace after
  dsimp only at h
  split at h
  · rename_i u behind start
    rw [start, List.length_cons] at shorter
    split at h
    · obtain ⟨items, read, rfl⟩ := map_first h
      obtain ⟨each, later⟩ := ih.items _ _ _ read (by omega)
      exact ⟨List.forall_mem_cons.mpr ⟨held, each⟩, by omega⟩
    · split at h
      · cases h
        exact ⟨List.forall_mem_cons.mpr ⟨held, nofun⟩, by omega⟩
      · cases h
  · cases h

theorem Reading.members_succ (ih : Reading n fuel) {members : List (JsString × JsonValue)}
    (h : readMembers (fuel + 1) text = some (members, rest)) (bound : text.length ≤ n) :
    (∀ member ∈ members, AtMost n member.2) ∧ rest.length ≤ text.length := by
  rw [readMembers] at h
  have shorter := length_skipSpace text
  split at h
  · rename_i quotation inKey start
    rw [start, List.length_cons] at shorter
    split at h
    · obtain ⟨⟨key, afterKey⟩, read, h⟩ := Option.bind_eq_some_iff.mp h
      have keyLength := length_readString read
      have := length_skipSpace afterKey
      dsimp only at h
      split at h
      · rename_i colon inValue colonStart
        rw [colonStart, List.length_cons] at this
        split at h
        · obtain ⟨⟨value, afterValue⟩, read, h⟩ := Option.bind_eq_some_iff.mp h
          obtain ⟨held, valueLength⟩ := ih.value _ _ _ read (by omega)
          have := length_skipSpace afterValue
          dsimp only at h
          split at h
          · rename_i u behind behindStart
            rw [behindStart, List.length_cons] at this
            split at h
            · obtain ⟨members, read, rfl⟩ := map_first h
              obtain ⟨each, later⟩ := ih.members _ _ _ read (by omega)
              exact ⟨List.forall_mem_cons.mpr ⟨held, each⟩, by omega⟩
            · split at h
              · cases h
                exact ⟨List.forall_mem_cons.mpr ⟨held, nofun⟩, by omega⟩
              · cases h
          · cases h
        · cases h
      · cases h
    · cases h
  · cases h

theorem reading (n fuel : Nat) : Reading n fuel := by
  induction fuel with
  | zero =>
      refine ⟨fun _ _ _ h => ?_, fun _ _ _ h => ?_, fun _ _ _ h => ?_⟩
      · cases h
      · cases h
      · cases h
  | succ fuel ih => exact ⟨fun _ _ _ => ih.value_succ, fun _ _ _ => ih.items_succ, fun _ _ _ => ih.members_succ⟩

theorem parse_atMost {value : JsonValue} (h : parse text = some value) : AtMost text.length value := by
  obtain ⟨⟨value, rest⟩, read, h⟩ := Option.bind_eq_some_iff.mp h
  dsimp only at h
  split at h
  · cases h
    exact ((reading text.length _).value _ _ _ read (Nat.le_refl _)).1
  · cases h

theorem AtMost.get {members : OrderedMap JsString JsonValue} {key : JsString} {value : JsonValue}
    (h : AtMost n (.obj members)) (member : OrderedMap.get members key = some value) : AtMost n value := by
  cases h with
  | obj each => exact each _ (OrderedMap.get_mem member)

end GhcpConsole.JsonValue
