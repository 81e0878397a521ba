import GhcpConsole.Lib.Tx
import GhcpConsole.Litellm.UserPoolHook

/-!
# Requests that say something else about the caller

Options that differ only in entries for the identity are cleaned to equal ones, or denied together.
-/

namespace GhcpConsole.Litellm

open Python

variable {library : Library}

/-- What the hook takes a value for, by its key. -/
inductive Place
  | kept
  | headerMap
  | options
deriving DecidableEq, Repr

def place (key : Key) : Place :=
  if key ∈ headerMaps then .headerMap else if key ∈ optionContainers then .options else .kept

/-- Two values under one key differ only in entries for the identity: in a map of headers, or in an option
container and what it holds, to any depth. -/
inductive DiffersAt (library : Library) : Place → Value → Value → Prop
  | kept (value value' : Value) (equal : value.Equal value') : DiffersAt library .kept value value'
  | headers (value value' : Value) (entries entries' : Entries)
      (mapping : value.mapping? = some entries) (mapping' : value'.mapping? = some entries')
      (keys : ∀ key, isIdentityKey library key = false →
        (entries.get key).isSome = (entries'.get key).isSome)
      (values : ∀ key value value', isIdentityKey library key = false → entries.get key = some value →
        entries'.get key = some value' → value.Equal value') :
      DiffersAt library .headerMap value value'
  | noHeaders (value value' : Value) (other : value.mapping? = none) (equal : value.Equal value') :
      DiffersAt library .headerMap value value'
  | options (entries entries' : Entries)
      (distinct : (entries.map (·.1)).Nodup) (distinct' : (entries'.map (·.1)).Nodup)
      (keys : ∀ key, isIdentityKey library key = false →
        (entries.get key).isSome = (entries'.get key).isSome)
      (values : ∀ key value value', isIdentityKey library key = false → entries.get key = some value →
        entries'.get key = some value' → DiffersAt library (place key) value value') :
      DiffersAt library .options (.dict entries) (.dict entries')
  | noOptions (value value' : Value) (other : value.dict? = none) (equal : value.Equal value') :
      DiffersAt library .options value value'

/-- Two requests for a deployment differ only in entries for the identity and in the client. -/
structure SameButIdentity (library : Library) (kwargs kwargs' : Entries) : Prop where
  distinct : (kwargs.map (·.1)).Nodup
  distinct' : (kwargs'.map (·.1)).Nodup
  keys : ∀ key, isIdentityKey library key = false → (kwargs.get key).isSome = (kwargs'.get key).isSome
  values : ∀ name value value', isIdentityKey library name = false → name ≠ key "client" →
    kwargs.get name = some value → kwargs'.get name = some value' → DiffersAt library (place name) value value'

/-- Both are denied, or both return, and what they return is related. -/
def SameOutcome {α : Type} (related : α → α → Prop) (outcome outcome' : Except HTTPException α) : Prop :=
  (outcome = .error deny ∧ outcome' = .error deny)
    ∨ ∃ result result', outcome = .ok result ∧ outcome' = .ok result' ∧ related result result'

section
-- Generates the equations here, once for all the proofs below.
attribute [local simp] cleanOption cleanHeaders withoutIdentity cleanOptions
end

theorem get_withoutIdentity (entries : Entries) (key : Key) :
    (withoutIdentity library entries).get key
      = if isIdentityKey library key then none else entries.get key := by
  induction entries with
  | nil => simp [withoutIdentity, OrderedMap.get]
  | cons entry entries ih =>
      obtain ⟨first, value⟩ := entry
      rw [OrderedMap.get_cons]
      unfold withoutIdentity at ih ⊢
      cases identity : isIdentityKey library first with
      | true =>
          rw [List.filter_cons_of_neg (by simp [identity]), ih]
          split
          · rfl
          · rename_i other
            rw [if_neg]
            rintro rfl
            exact other identity
      | false =>
          rw [List.filter_cons_of_pos (by simp [identity]), OrderedMap.get_cons, ih]
          by_cases same : key = first
          · rw [if_pos same, if_pos same, if_neg (by rw [same, identity]; exact Bool.false_ne_true)]
          · rw [if_neg same, if_neg same]

/-- `cleanOption`, by the place of the value. -/
theorem cleanOption_eq (key : Key) (value : Value) :
    cleanOption library key value = match place key with
      | .kept => .ok value
      | .headerMap => (cleanHeaders library value).map .dict
      | .options => match value.dict? with
        | some inner => (cleanOptions library inner).map .dict
        | none => .ok value := by
  have name : key ∈ headerMaps ∨ key ∉ headerMaps ∧ key ∈ optionContainers
      ∨ key ∉ headerMaps ∧ key ∉ optionContainers := by tauto
  unfold place
  rcases name with isHeaders | ⟨notHeaders, isOptions⟩ | ⟨notHeaders, notOptions⟩
  · rw [if_pos isHeaders]
    cases value <;> (rw [cleanOption, if_pos isHeaders] <;> first | rfl | simp)
  · rw [if_neg notHeaders, if_pos isOptions]
    cases value <;> (rw [cleanOption, if_neg notHeaders] <;> first | rfl | simp [isOptions, Value.dict?])
    rfl
  · rw [if_neg notHeaders, if_neg notOptions]
    cases value <;> (rw [cleanOption, if_neg notHeaders] <;> first | rfl | simp [notOptions])
    rfl

/-! A request is only ever refused as a whole. -/

theorem cleanHeaders_error {value : Value} {error : HTTPException}
    (refused : cleanHeaders library value = .error error) : error = deny := by
  unfold cleanHeaders at refused
  split at refused
  · cases refused
  · split at refused
    · exact (Except.error.inj refused).symm
    · cases refused

/-- An error under one key is one of its headers, or of the options inside. -/
theorem cleanOption_error {error : HTTPException} {key : Key} {value : Value}
    (inside : ∀ inner, value.dict? = some inner → cleanOptions library inner = .error error → error = deny)
    (refused : cleanOption library key value = .error error) : error = deny := by
  rw [cleanOption_eq] at refused
  split at refused
  · cases refused
  · cases headers : cleanHeaders library value with
    | error other =>
        rw [headers] at refused
        cases refused
        exact cleanHeaders_error headers
    | ok headers' =>
        rw [headers] at refused
        cases refused
  · split at refused
    · rename_i inner isDict
      cases options : cleanOptions library inner with
      | error other =>
          rw [options] at refused
          cases refused
          exact inside inner isDict options
      | ok options' =>
          rw [options] at refused
          cases refused
    · cases refused

theorem cleanOptions_error {error : HTTPException} : ∀ {options : Entries},
    cleanOptions library options = .error error → error = deny
  | [], refused => by cases refused
  | (key, value) :: options, refused => by
      rw [cleanOptions] at refused
      split at refused
      · exact cleanOptions_error refused
      · cases cleaned : cleanOption library key value with
        | error other =>
            rw [cleaned] at refused
            cases refused
            refine cleanOption_error (fun inner isDict => ?_) cleaned
            cases value with
            | dict inner =>
                cases isDict
                exact cleanOptions_error
            | _ => cases isDict
        | ok value =>
            cases rest : cleanOptions library options with
            | error other =>
                rw [cleaned, rest] at refused
                cases refused
                exact cleanOptions_error rest
            | ok rest' =>
                rw [cleaned, rest] at refused
                cases refused

/-- What is returned for a first entry and others. -/
theorem cleanOptions_cons_ok {key : Key} {value : Value} {options cleaned : Entries} :
    cleanOptions library ((key, value) :: options) = .ok cleaned
      ↔ (isIdentityKey library key = true ∧ cleanOptions library options = .ok cleaned)
        ∨ (isIdentityKey library key = false ∧ ∃ value' rest, cleanOption library key value = .ok value'
          ∧ cleanOptions library options = .ok rest ∧ cleaned = (key, value') :: rest) := by
  rw [cleanOptions]
  cases identity : isIdentityKey library key with
  | true => simp
  | false =>
      cases cleanOption library key value with
      | error error => simp [bind, Except.bind]
      | ok value' =>
          cases cleanOptions library options with
          | error error => simp [bind, Except.bind]
          | ok rest => simp [bind, Except.bind, pure, Except.pure, eq_comm]

/-- Cleaned options have no entry for the identity. -/
theorem cleanOptions_identity {options cleaned : Entries} (done : cleanOptions library options = .ok cleaned) :
    ∀ entry ∈ cleaned, isIdentityKey library entry.1 = false := by
  induction options generalizing cleaned with
  | nil =>
      cases done
      nofun
  | cons entry options ih =>
      rcases cleanOptions_cons_ok.mp done with ⟨_, later⟩ | ⟨other, value', rest, _, later, rfl⟩
      · exact ih later
      · exact List.forall_mem_cons.mpr ⟨other, ih later⟩

/-- Any other key keeps its value, cleaned. -/
theorem cleanOptions_get {options cleaned : Entries} (done : cleanOptions library options = .ok cleaned)
    {key : Key} (other : isIdentityKey library key = false) :
    (options.get key = none ∧ cleaned.get key = none)
      ∨ ∃ value value', options.get key = some value ∧ cleanOption library key value = .ok value'
        ∧ cleaned.get key = some value' := by
  induction options generalizing cleaned with
  | nil =>
      cases done
      exact .inl ⟨rfl, rfl⟩
  | cons entry options ih =>
      obtain ⟨first, value⟩ := entry
      rw [OrderedMap.get_cons]
      rcases cleanOptions_cons_ok.mp done with ⟨identity, later⟩ | ⟨_, value', rest, option, later, rfl⟩
      · rw [if_neg]
        · exact ih later
        · rintro rfl
          rw [identity] at other
          cases other
      · rw [OrderedMap.get_cons]
        by_cases same : key = first
        · rw [if_pos same, if_pos same, same]
          exact .inr ⟨value, value', rfl, option, rfl⟩
        · rw [if_neg same, if_neg same]
          exact ih later

theorem cleanOptions_get_identity {options cleaned : Entries}
    (done : cleanOptions library options = .ok cleaned) {key : Key}
    (identity : isIdentityKey library key = true) : cleaned.get key = none := by
  rw [OrderedMap.get_eq_none]
  intro mem
  obtain ⟨entry, inCleaned, rfl⟩ := List.mem_map.mp mem
  rw [cleanOptions_identity done entry inCleaned] at identity
  cases identity

/-- A value of cleaned options is the cleaned value of its key. -/
theorem cleanOptions_get_some {options cleaned : Entries} (done : cleanOptions library options = .ok cleaned)
    {key : Key} {value' : Value} (found : cleaned.get key = some value') :
    isIdentityKey library key = false
      ∧ ∃ value, options.get key = some value ∧ cleanOption library key value = .ok value' := by
  cases identity : isIdentityKey library key with
  | true =>
      rw [cleanOptions_get_identity done identity] at found
      cases found
  | false =>
      rcases cleanOptions_get done identity with ⟨_, gone⟩ | ⟨value, _, had, option, has⟩
      · rw [gone] at found
        cases found
      · rw [has] at found
        cases found
        exact ⟨rfl, value, had, option⟩

theorem cleanOptions_isSome {options cleaned : Entries} (done : cleanOptions library options = .ok cleaned)
    (key : Key) : (cleaned.get key).isSome = (!isIdentityKey library key && (options.get key).isSome) := by
  cases identity : isIdentityKey library key with
  | true => rw [cleanOptions_get_identity done identity]; rfl
  | false =>
      rcases cleanOptions_get done identity with ⟨had, has⟩ | ⟨_, _, had, _, has⟩
      · rw [had, has]; rfl
      · rw [had, has]; rfl

/-- Options are cleaned if the value of every key is. -/
theorem cleanOptions_ok {options : Entries} (distinct : (options.map (·.1)).Nodup)
    (each : ∀ key value, isIdentityKey library key = false → options.get key = some value →
      ∃ value', cleanOption library key value = .ok value') :
    ∃ cleaned, cleanOptions library options = .ok cleaned := by
  induction options with
  | nil => exact ⟨[], rfl⟩
  | cons entry options ih =>
      obtain ⟨first, value⟩ := entry
      obtain ⟨notLater, distinct⟩ := List.nodup_cons.mp distinct
      have later : ∀ key value, isIdentityKey library key = false → OrderedMap.get options key = some value →
          ∃ value', cleanOption library key value = .ok value' := by
        intro key value other found
        refine each key value other ?_
        rw [OrderedMap.get_cons, if_neg, found]
        rintro rfl
        exact notLater (List.mem_map.mpr ⟨_, OrderedMap.get_mem found, rfl⟩)
      obtain ⟨rest, done⟩ := ih distinct later
      cases identity : isIdentityKey library first with
      | true => exact ⟨rest, cleanOptions_cons_ok.mpr (.inl ⟨identity, done⟩)⟩
      | false =>
          obtain ⟨value', option⟩ := each first value identity (by rw [OrderedMap.get_cons, if_pos rfl])
          exact ⟨_, cleanOptions_cons_ok.mpr (.inr ⟨identity, value', rest, option, done, rfl⟩)⟩

theorem SameOutcome.symm {α : Type} {related : α → α → Prop} {outcome outcome' : Except HTTPException α}
    (same : SameOutcome related outcome outcome') :
    SameOutcome (fun result result' => related result' result) outcome' outcome := by
  rcases same with ⟨denied, denied'⟩ | ⟨result, result', done, done', rel⟩
  · exact .inl ⟨denied', denied⟩
  · exact .inr ⟨result', result, done', done, rel⟩

/-- Two cleaned options are denied together. -/
theorem cleanOptions_denied {related : Key → Value → Value → Prop} {options options' : Entries}
    (distinct : (options.map (·.1)).Nodup)
    (keys : ∀ key, isIdentityKey library key = false → (options.get key).isSome = (options'.get key).isSome)
    (outcomes : ∀ key value value', isIdentityKey library key = false → options.get key = some value →
      options'.get key = some value' →
      SameOutcome (related key) (cleanOption library key value) (cleanOption library key value'))
    {cleaned' : Entries} (done' : cleanOptions library options' = .ok cleaned') :
    ∃ cleaned, cleanOptions library options = .ok cleaned := by
  refine cleanOptions_ok distinct fun key value other found => ?_
  have present := keys key other
  rw [found, Option.isSome_some, eq_comm, Option.isSome_iff_exists] at present
  obtain ⟨value', found'⟩ := present
  rcases outcomes key value value' other found found' with ⟨_, denied⟩ | ⟨result, _, done, _, _⟩
  · rcases cleanOptions_get done' other with ⟨absent, _⟩ | ⟨before, _, had, option, _⟩
    · rw [absent] at found'
      cases found'
    · rw [had] at found'
      cases found'
      rw [denied] at option
      cases option
  · exact ⟨result, done⟩

/-- Options with the same keys are cleaned alike, if the values of each key are. -/
theorem cleanOptions_same (related : Key → Value → Value → Prop) {options options' : Entries}
    (distinct : (options.map (·.1)).Nodup) (distinct' : (options'.map (·.1)).Nodup)
    (keys : ∀ key, isIdentityKey library key = false → (options.get key).isSome = (options'.get key).isSome)
    (outcomes : ∀ key value value', isIdentityKey library key = false → options.get key = some value →
      options'.get key = some value' →
      SameOutcome (related key) (cleanOption library key value) (cleanOption library key value')) :
    SameOutcome (fun cleaned cleaned' => (∀ key, (cleaned.get key).isSome = (cleaned'.get key).isSome)
        ∧ ∀ key value value', cleaned.get key = some value → cleaned'.get key = some value' →
          related key value value')
      (cleanOptions library options) (cleanOptions library options') := by
  have back : ∀ cleaned, cleanOptions library options = .ok cleaned →
      ∃ cleaned', cleanOptions library options' = .ok cleaned' := fun _ =>
    cleanOptions_denied distinct' (fun key other => (keys key other).symm)
      fun key value' value other found' found => (outcomes key value value' other found found').symm
  cases done : cleanOptions library options with
  | error error =>
      cases cleanOptions_error done
      cases done' : cleanOptions library options' with
      | error error' =>
          cases cleanOptions_error done'
          exact .inl ⟨rfl, rfl⟩
      | ok cleaned' =>
          obtain ⟨cleaned, contra⟩ := cleanOptions_denied distinct keys outcomes done'
          rw [done] at contra
          cases contra
  | ok cleaned =>
      obtain ⟨cleaned', done'⟩ := back cleaned done
      refine .inr ⟨cleaned, cleaned', rfl, done', fun key => ?_, fun key value value' found found' => ?_⟩
      · rw [cleanOptions_isSome done, cleanOptions_isSome done']
        cases identity : isIdentityKey library key with
        | true => rfl
        | false => rw [keys key identity]
      · obtain ⟨other, before, had, option⟩ := cleanOptions_get_some done found
        obtain ⟨_, before', had', option'⟩ := cleanOptions_get_some done' found'
        rcases outcomes key before before' other had had' with ⟨denied, _⟩ | ⟨_, _, clean, clean', rel⟩
        · rw [option] at denied
          cases denied
        · rw [option] at clean
          rw [option'] at clean'
          cases clean
          cases clean'
          exact rel

/-- What is done to the outcomes keeps them related. -/
theorem SameOutcome.map {α β : Type} {related : α → α → Prop} {related' : β → β → Prop} {f f' : α → β}
    {outcome outcome' : Except HTTPException α} (same : SameOutcome related outcome outcome')
    (keeps : ∀ result result', related result result' → related' (f result) (f' result')) :
    SameOutcome related' (outcome.map f) (outcome'.map f') := by
  rcases same with ⟨rfl, rfl⟩ | ⟨result, result', rfl, rfl, rel⟩
  · exact .inl ⟨rfl, rfl⟩
  · exact .inr ⟨f result, f' result', rfl, rfl, keeps result result' rel⟩

theorem SameOutcome.mono {α : Type} {related related' : α → α → Prop} {outcome outcome' : Except HTTPException α}
    (same : SameOutcome related outcome outcome')
    (weaker : ∀ result result', related result result' → related' result result') :
    SameOutcome related' outcome outcome' := by
  rcases same with denied | ⟨result, result', done, done', rel⟩
  · exact .inl denied
  · exact .inr ⟨result, result', done, done', weaker result result' rel⟩

theorem cleanHeaders_same {value value' : Value} (other : value.mapping? = none) (equal : value.Equal value') :
    SameOutcome (fun headers headers' => Value.Equal (.dict headers) (.dict headers'))
      (cleanHeaders library value) (cleanHeaders library value') := by
  unfold cleanHeaders
  rw [equal.isNone]
  split
  · exact .inr ⟨[], [], rfl, rfl, .same _⟩
  · have other' : value'.mapping? = none := by
      cases equal with
      | same => exact other
      | list => rfl
      | dict => cases other
      | mapping => cases other
    rw [other, other']
    exact .inl ⟨rfl, rfl⟩

/-- Values that differ only in the identity are cleaned to equal ones. -/
theorem DiffersAt.outcome {at' : Place} {value value' : Value} (differs : DiffersAt library at' value value') :
    ∀ key, place key = at' →
      SameOutcome Value.Equal (cleanOption library key value) (cleanOption library key value') := by
  induction differs with
  | kept value value' equal =>
      intro key kept
      rw [cleanOption_eq, cleanOption_eq, kept]
      exact .inr ⟨value, value', rfl, rfl, equal⟩
  | noHeaders value value' other equal =>
      intro key headerMap
      rw [cleanOption_eq, cleanOption_eq, headerMap]
      exact (cleanHeaders_same other equal).map fun _ _ => id
  | headers value value' entries entries' mapping mapping' keys values =>
      intro key headerMap
      rw [cleanOption_eq, cleanOption_eq, headerMap]
      have cleaned : ∀ {value : Value} {entries}, value.mapping? = some entries →
          cleanHeaders library value = .ok (withoutIdentity library entries) := by
        intro value entries mapping
        unfold cleanHeaders
        rw [if_neg, mapping]
        cases value <;> simp [Value.isNone, Value.mapping?] at mapping ⊢
      dsimp only
      rw [cleaned mapping, cleaned mapping']
      refine .inr ⟨_, _, rfl, rfl, .dict _ _ (fun key => ?_) fun key value value' found found' => ?_⟩
      · rw [get_withoutIdentity, get_withoutIdentity]
        split
        · rfl
        · rename_i other
          exact keys key (by simpa using other)
      · rw [get_withoutIdentity] at found found'
        split at found
        · cases found
        · rename_i other
          rw [if_neg other] at found'
          exact values key value value' (by simpa using other) found found'
  | noOptions value value' other equal =>
      intro key options
      have other' : value'.dict? = none := by
        cases equal with
        | same => exact other
        | list => rfl
        | dict => cases other
        | mapping => rfl
      rw [cleanOption_eq, cleanOption_eq, options, other, other']
      exact .inr ⟨value, value', rfl, rfl, equal⟩
  | options entries entries' distinct distinct' keys values ih =>
      intro key options
      rw [cleanOption_eq, cleanOption_eq, options]
      have inside := cleanOptions_same (fun _ => Value.Equal) distinct distinct' keys
        fun key value value' other found found' => ih key value value' other found found' key rfl
      exact inside.map fun cleaned cleaned' same => .dict _ _ same.1 same.2

end GhcpConsole.Litellm
