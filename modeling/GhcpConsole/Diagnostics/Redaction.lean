import GhcpConsole.Diagnostics.Normalizing
import Mathlib.Tactic.IntervalCases

/-!
# What stays of a text after the redactions

The known values are replaced in a text without marks. None of the patterns that are replaced afterwards
begins or ends inside a mark, so that all of them only mask blocks. Normalising the text again leaves the marks
as they are, so that a known value that is shown was cut by what it takes out (`cut_of_exposed`).
-/

namespace GhcpConsole.Diagnostics

section Patterns

variable {r first second : Regex}

/-- No match begins inside a mark. -/
def BeginsOutside (r : Regex) : Prop :=
  ∀ i, 0 < i → i < redacted.length → ∀ text,
    r.match? (redacted.take i).getLast? (redacted.drop i ++ text) = none

theorem spares_redacted (begins : BeginsOutside r)
    (closes : r.avoids (codeUnit '[') = true ∨ r.Closes redacted) : Spares redacted r.match? := by
  refine Regex.spares_match? (fun before d rest split nonempty text => ?_) closes
  have inside := begins before.length (List.length_pos_iff.mpr nonempty) ?_ text
  · rwa [show redacted = before ++ d :: rest from split, List.take_left, List.drop_left] at inside
  · rw [show redacted = before ++ d :: rest from split, List.length_append, List.length_cons]
    omega

/-- Nothing that begins inside a mark gets beyond its last bracket. -/
theorem beginsOutside_of_avoids (avoids : r.avoids (codeUnit ']') = true)
    (inside : ∀ i ∈ List.range' 1 9, r.ends (redacted.take i).getLast? (redacted.drop i) = []) :
    ∀ i, 0 < i → i < redacted.length → ∀ text,
      r.ends (redacted.take i).getLast? (redacted.drop i ++ text) = [] := by
  intro i positive bound text
  have bound : i < 10 := bound
  have here := inside i (List.mem_range'_1.mpr ⟨positive, by omega⟩)
  have split : redacted.drop i = redacted.dropLast.drop i ++ [codeUnit ']'] := by
    interval_cases i <;> rfl
  rw [split] at here ⊢
  rw [List.append_assoc, List.singleton_append, Regex.ends_append_cons avoids]
  exact here

theorem beginsOutside_url : BeginsOutside url := fun i positive bound text =>
  Regex.match?_seq_of_nil (beginsOutside_of_avoids (by decide) (by decide +kernel) i positive bound text)

theorem beginsOutside_email : BeginsOutside email := by
  intro i positive bound text
  rw [Regex.match?, beginsOutside_of_avoids (by decide) (by decide +kernel) i positive bound text]
  rfl

/-- None of the words that the other patterns begin with is the rest of a mark. -/
theorem beginsOutside_words
    (h : r ∈ [gitHubToken, skToken, jsonWebToken, authScheme, labelledCredential, quotedData]) :
    BeginsOutside r := by
  intro i positive bound text
  have bound : i < 10 := bound
  simp only [List.mem_cons, List.not_mem_nil, or_false] at h
  rcases h with rfl | rfl | rfl | rfl | rfl | rfl <;> interval_cases i <;> rfl

theorem closes_url : url.Closes redacted :=
  (Regex.closes_many (by decide)).seq

theorem closes_values : (Regex.many 1 isValue).Closes redacted := Regex.closes_many (by decide)

theorem closes_quotedText {mark : String} (h : ∀ c ∈ redacted, isOneOf mark c = false) :
    (quotedText mark).Closes redacted :=
  (Regex.closes_one h).seq.seq

theorem closes_quotedLine {mark : String} (h : ∀ c ∈ redacted, isOneOf mark c = false) :
    (quotedLine mark).Closes redacted :=
  (Regex.closes_one h).seq.seq

theorem closes_labelledCredential : labelledCredential.Closes redacted := by
  refine Regex.Closes.seq (Regex.Closes.seq (Regex.Closes.seq (Regex.Closes.seq (Regex.Closes.seq
    (Regex.Closes.seq ?_)))))
  exact (closes_quotedText (by decide)).either ((closes_quotedText (by decide)).either
    ((closes_quotedText (by decide)).either closes_values))

theorem closes_quotedData : quotedData.Closes redacted :=
  (closes_quotedLine (by decide)).either ((closes_quotedLine (by decide)).either (closes_quotedLine (by decide)))

theorem spares_credentialPatterns : ∀ r ∈ credentialPatterns, Spares redacted r.match? := by
  intro r mem
  have words := fun h => beginsOutside_words (r := r) h
  simp only [credentialPatterns, List.mem_cons, List.not_mem_nil, or_false] at mem
  rcases mem with rfl | rfl | rfl | rfl | rfl | rfl | rfl
  · exact spares_redacted beginsOutside_url (.inr closes_url)
  · exact spares_redacted beginsOutside_email (.inl (by decide))
  · exact spares_redacted (words (by simp)) (.inl (by decide))
  · exact spares_redacted (words (by simp)) (.inl (by decide))
  · exact spares_redacted (words (by simp)) (.inl (by decide))
  · exact spares_redacted (words (by simp)) (.inr closes_values.seq.seq.seq)
  · exact spares_redacted (words (by simp)) (.inr closes_labelledCredential)

theorem spares_quotedData : Spares redacted quotedData.match? :=
  spares_redacted (beginsOutside_words (by simp)) (.inr closes_quotedData)

end Patterns

section Masked

variable {text : JsString} {old new : List (Block CodeUnit)}

theorem masks_replace {r : Regex} {put : JsString → JsString} (spares : Spares redacted r.match?)
    (puts : ∀ chunk, put chunk = chunk ∨ put chunk = redacted) (old : List (Block CodeUnit)) :
    ∃ new, Regex.replace r put (spelled redacted old) = spelled redacted new ∧ Masks old new :=
  masks_replaceWith (by decide) Regex.within_match? spares puts none old

theorem putQuoted_cases (chunk : JsString) : putQuoted chunk = chunk ∨ putQuoted chunk = redacted := by
  unfold putQuoted
  split
  · exact .inl rfl
  · exact .inr rfl

theorem masks_patterns {patterns : List Regex} (spares : ∀ r ∈ patterns, Spares redacted r.match?)
    (old : List (Block CodeUnit)) :
    ∃ new, patterns.foldl (fun text pattern => Regex.replace pattern (fun _ => redacted) text)
        (spelled redacted old) = spelled redacted new ∧ Masks old new := by
  induction patterns generalizing old with
  | nil => exact ⟨old, rfl, .refl old⟩
  | cons r patterns ih =>
      rw [List.forall_mem_cons] at spares
      obtain ⟨middle, text, first⟩ := masks_replace spares.1 (fun _ => .inr rfl) old
      obtain ⟨new, result, later⟩ := ih spares.2 middle
      exact ⟨new, by rw [List.foldl_cons, text, result], first.trans later⟩

theorem masks_redactPatterns (old : List (Block CodeUnit)) :
    ∃ new, redactPatterns (spelled redacted old) = spelled redacted new ∧ Masks old new := by
  obtain ⟨middle, text, first⟩ := masks_patterns spares_credentialPatterns old
  obtain ⟨new, result, later⟩ := masks_replace spares_quotedData putQuoted_cases middle
  exact ⟨new, by rw [redactPatterns, text, result], first.trans later⟩

end Masked

section Known

variable {known next : Known} {values : List (Option JsString)} {text result value s : JsString}

theorem Known.add_subset {variant : JsString} (h : known.add variant = some next) :
    (∀ s ∈ next.variants, s ∈ known.variants ∨ s = variant ∧ s ≠ [])
      ∧ (∀ s ∈ known.variants, s ∈ next.variants)
      ∧ (variant ≠ [] → variant.length ≤ maxBytes → variant ∈ next.variants) := by
  unfold Known.add at h
  split at h
  · rename_i held
    cases h
    refine ⟨fun s mem => .inl mem, fun s mem => mem, fun nonempty short => ?_⟩
    rcases held with empty | held | long
    · exact absurd empty nonempty
    · exact held
    · omega
  · rename_i fresh
    dsimp only at h
    split at h
    · cases h
    · cases h
      refine ⟨fun s mem => ?_, fun s mem => List.mem_append_left _ mem, fun _ _ => by simp⟩
      rcases List.mem_append.mp mem with mem | mem
      · exact .inl mem
      · rw [List.mem_singleton] at mem
        exact .inr ⟨mem, fun empty => fresh (.inl (mem ▸ empty))⟩

theorem known_of_foldlM {list : List JsString} (h : list.foldlM Known.add known = some next)
    (nonempty : ∀ s ∈ known.variants, s ≠ []) :
    (∀ s ∈ next.variants, s ≠ []) ∧ (∀ s ∈ known.variants, s ∈ next.variants)
      ∧ ∀ s ∈ list, s ≠ [] → s.length ≤ maxBytes → s ∈ next.variants := by
  induction list generalizing known with
  | nil =>
      cases h
      exact ⟨nonempty, fun s mem => mem, nofun⟩
  | cons variant list ih =>
      rw [List.foldlM_cons] at h
      obtain ⟨middle, first, later⟩ := Option.bind_eq_some_iff.mp h
      obtain ⟨only, kept, added⟩ := Known.add_subset first
      obtain ⟨some, still, rest⟩ := ih later fun s mem => (only s mem).elim (nonempty s) (·.2)
      refine ⟨some, fun s mem => still s (kept s mem), List.forall_mem_cons.mpr ⟨fun other short => ?_, rest⟩⟩
      exact still variant (added other short)

theorem within_findKnown {known : List JsString} :
    Within fun _ : Option CodeUnit => findKnown known := by
  intro _ text n found
  obtain ⟨s, first, rfl⟩ := Option.map_eq_some_iff.mp found
  have begins := List.find?_some first
  exact (List.isPrefixOf_iff_prefix.mp begins).length_le

theorem exists_findKnown {known : List JsString} (nonempty : ∀ s ∈ known, s ≠ []) (mem : s ∈ known)
    (rest : JsString) : ∃ n, findKnown known (s ++ rest) = some (n + 1) := by
  have here : (known.find? (·.isPrefixOf (s ++ rest))).isSome = true := by
    rw [List.find?_isSome]
    exact ⟨s, mem, List.isPrefixOf_iff_prefix.mpr (List.prefix_append _ _)⟩
  obtain ⟨first, found⟩ := Option.isSome_iff_exists.mp here
  have length := List.length_pos_iff.mpr (nonempty first (List.mem_of_find?_eq_some found))
  exact ⟨first.length - 1, by rw [findKnown, found, Option.map_some]; congr 1; omega⟩

/-- The known values are masked wherever they stand. -/
theorem masks_replaceKnown (h : replaceKnown text values = some result) :
    ∃ new, result = spelled redacted new ∧ Masks (text.map some) new
      ∧ ∀ value, some value ∈ values → ∀ s ∈ variants value, s ≠ [] → s.length ≤ maxBytes →
          ¬ s.map some <:+: new := by
  obtain ⟨known, fold, put⟩ := Option.map_eq_some_iff.mp h
  obtain ⟨nonempty, _, all⟩ := known_of_foldlM fold nofun
  have held : ∀ value, some value ∈ values → ∀ s ∈ variants value, s ≠ [] → s.length ≤ maxBytes →
      s ∈ known.variants := by
    intro value mem s isVariant other short
    refine all s (List.mem_flatMap.mpr ⟨value, List.mem_filterMap.mpr ⟨some value, mem, ?_⟩, isVariant⟩) other short
    refine Option.filter_eq_some_iff.mpr ⟨rfl, decide_eq_true ?_⟩
    rintro rfl
    have empty : s = [] := by
      rw [show variants [] = [[], []] by decide] at isVariant
      simpa using isVariant
    exact other empty
  split at put
  · rename_i none
    subst put
    refine ⟨text.map some, spelled_map_some.symm, .refl _, fun value mem s isVariant other short => ?_⟩
    have := held value mem s isVariant other short
    rw [none] at this
    cases this
  · subst put
    obtain ⟨new, result, masks, gone⟩ := masks_replaceWith_units within_findKnown (fun _ => rfl) none text
    refine ⟨new, result, masks, fun value mem s isVariant other short => gone s (fun _ rest => ?_) other⟩
    refine exists_findKnown (fun s mem => ?_) ?_ rest
    · exact nonempty s ((List.mem_insertionSort _).mp mem)
    · exact (List.mem_insertionSort _).mpr (held value mem s isVariant other short)

end Known

section Sanitized

variable {message text value s : JsString} {values : List (Option JsString)}

theorem trim_variant (isVariant : s ∈ variants value) : JsString.trim s = s := by
  simp only [variants, List.mem_cons, List.not_mem_nil, or_false] at isVariant
  rcases isVariant with rfl | rfl
  · exact trim_normalize _
  · exact trim_normalize _

/-- What is shown was made of stretches that the redactions left together. -/
theorem exists_stretch_of_exposed {blocks : List (Block CodeUnit)} (trimmed : JsString.trim s = s) (nonempty : s ≠ [])
    (exposed : Exposed redacted s (normalize (spelled redacted blocks))) :
    ∃ stretch : JsString, stretch.map some <:+: blocks ∧ normalize stretch = s := by
  have runs : squeezed (spelled redacted blocks) = spelled redacted (mapRuns squeezed [] blocks) := by
    rw [← spelled_mapRuns squeezed_redacted, List.nil_append]
  have inMark : ∀ u ∈ redacted, isWhiteSpace u = false := by decide
  obtain ⟨before, after, split, left, right⟩ := JsString.exists_trim (squeezed (spelled redacted blocks))
  have untrimmed := Exposed.surround (by decide) exposed
    (fun u mem mark => Bool.false_ne_true ((inMark u mark).symm.trans (left u mem)))
    (fun u mem mark => Bool.false_ne_true ((inMark u mark).symm.trans (right u mem)))
  rw [normalize_eq, ← split, runs] at untrimmed
  obtain ⟨run, inside, part⟩ := exists_of_infix_mapRuns nonempty (run_infix_of_exposed (by decide) nonempty untrimmed)
  obtain ⟨stretch, inRun, isValue⟩ := exists_of_infix_squeezed part trimmed
  exact ⟨stretch, (inRun.map some).trans inside, isValue⟩

/-- A known value that is shown was cut when the known values were looked for. -/
theorem cut_of_exposed (h : sanitize (some (.str message)) values = some text)
    (mem : some value ∈ values) (isVariant : s ∈ variants value) (nonempty : s ≠ [])
    (short : message.length ≤ maxBytes) (exposed : Exposed redacted s text) : Cut s (normalize message) := by
  obtain ⟨replaced, known, h⟩ := Option.bind_eq_some_iff.mp h
  obtain ⟨middle, rfl, first, gone⟩ := masks_replaceKnown known
  split at h
  · cases h
  obtain ⟨new, redactions, later⟩ := masks_redactPatterns middle
  unfold nonEmpty at h
  split at h
  · cases h
  rw [redactions] at h
  cases h
  obtain ⟨stretch, together, isValue⟩ := exists_stretch_of_exposed (trim_variant isVariant) nonempty exposed
  have inMessage : stretch <:+: normalize message := by
    obtain ⟨other, part, same⟩ := List.infix_map_iff.mp ((first.trans later).infix_run together)
    rw [List.map_inj_right fun _ _ => Option.some.inj] at same
    exact same ▸ part
  refine ⟨stretch, inMessage, fun same => ?_, isValue⟩
  -- without a format character the value itself would stand there
  have part : s <:+: stretch := by
    rw [← isValue, normalize_stretch inMessage same]
    exact JsString.infix_trim _
  have length : s.length ≤ maxBytes := (part.trans inMessage).length_le.trans (length_normalize.trans short)
  exact gone value mem s isVariant nonempty length (later.infix_run ((part.map some).trans together))

end Sanitized

end GhcpConsole.Diagnostics
