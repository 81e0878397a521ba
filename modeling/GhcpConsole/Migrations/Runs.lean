import GhcpConsole.Lib.Redo
import GhcpConsole.Migrations.Runner

/-!
# Runs of the migrations

A run of `runSqliteMigrations` performs a list of actions, the creation of the records' table and one
transaction per step, up to where it fails or is cut off. An action that has been done finds its record
and does nothing, so that runs can be cut off and started over at will.
-/

namespace GhcpConsole.Migrations

open Session

variable {δ : Type}

/-! ## One run -/

section Run

variable (violations : δ → Bool) (on : Bool)

/-- The transaction of a step in a run that begins with the setting `on`. -/
def stepTransaction (step : SqliteMigrationStep δ) (on : Bool) (d : Database δ) :
    Except String (Bool × Database δ) :=
  bodyEffect violations step (on && !step.disableForeignKeys) d

def stepAction (step : SqliteMigrationStep δ) (d : Database δ) : Except String (Database δ) :=
  (stepTransaction violations step on d).map (·.2)

def createAction (d : Database δ) : Except String (Database δ) :=
  .ok { d with migrations := some d.ids }

def actions (steps : List (SqliteMigrationStep δ)) : List (Database δ → Except String (Database δ)) :=
  createAction :: steps.map (stepAction violations on)

variable {violations on} {d d' : Database δ} {step : SqliteMigrationStep δ}
variable {steps : List (SqliteMigrationStep δ)}

theorem withForeignKeysOff_ends {α : Type} {m : Session (Database δ) α}
    {effect : Bool → StateT (Database δ) (Except String) α} (inner : InStep m effect) :
    Ends (withForeignKeysOff (transaction m)) (connect true d)
      (TransactionPost (fun _ => effect false) (connect true d)) := by
  have body := inner.transaction_ends (c := connect false d) rfl
  have guarded : Ends (tryFinally (transaction m) (setForeignKeys true)) (connect false d)
      (TransactionPost (fun _ => effect false) (connect true d)) := by
    have caught : Ends (Session.tryCatch (transaction m) fun message => do
        setForeignKeys true
        throw message) (connect false d) fun out c' => match out with
          | .returned a => ∃ d', effect false d = .ok (a, d') ∧ c' = connect false d'
          | out => TransactionPost (fun _ => effect false) (connect true d) out c' := by
      refine body.tryCatch ?_ ?_ (fun _ ended => ended)
      · rintro a _ ⟨d', did, rfl⟩
        exact ⟨d', did, rfl⟩
      · rintro message _ rfl
        exact Ends.surely_bind (Ends.throw rfl) (Or.inl rfl) (Or.inl rfl)
    refine caught.bind ?_ (fun _ _ ended => ended) (fun _ ended => ended)
    rintro a _ ⟨d', did, rfl⟩
    exact Ends.surely_bind (Ends.pure ⟨d', did, rfl⟩) (Or.inr ⟨a, d', did, rfl⟩) (Or.inr ⟨a, d', did, rfl⟩)
  exact Ends.surely_bind guarded (Or.inl rfl) (Or.inl rfl)

theorem withForeignKeysOff_calm {α : Type} {m : Session (Database δ) α}
    {effect : Bool → StateT (Database δ) (Except String) α} (inner : InStep m effect) {a : α}
    (did : effect false d = .ok (a, d')) :
    Calm (withForeignKeysOff (transaction m)) (connect true d) a (connect true d') := by
  have body := inner.transaction_calm (c := connect false d) rfl did
  have off : Calm (setForeignKeys false) (connect true d) () (connect false d) := rfl
  have onAgain : Calm (setForeignKeys true) (connect false d') () (connect true d') := rfl
  exact off.bind (body.tryFinally onAgain)

theorem applyStep_ends : Ends (applyStep violations step) (connect on d)
    (TransactionPost (stepTransaction violations step) (connect on d)) := by
  have inner := stepBody_inStep violations step
  unfold applyStep stepTransaction
  cases disable : step.disableForeignKeys with
  | false =>
      simp only [Bool.not_false, Bool.and_true]
      exact inner.transaction_ends rfl
  | true =>
      simp only [Bool.not_true, Bool.and_false]
      refine Ends.stmt_bind rfl ?_ (fun _ => rfl) (Or.inl rfl) (Or.inl rfl)
      cases on with
      | false => exact inner.transaction_ends rfl
      | true => exact withForeignKeysOff_ends inner

theorem applyStep_calm {now : Bool} (did : stepTransaction violations step on d = .ok (now, d')) :
    Calm (applyStep violations step) (connect on d) now (connect on d') := by
  have inner := stepBody_inStep violations step
  unfold stepTransaction at did
  unfold applyStep
  cases disable : step.disableForeignKeys with
  | false =>
      rw [disable, Bool.not_false, Bool.and_true] at did
      exact inner.transaction_calm rfl did
  | true =>
      rw [disable, Bool.not_true, Bool.and_false] at did
      have asks : Calm foreignKeysEnabled (connect on d) on (connect on d) := rfl
      refine asks.bind ?_
      cases on with
      | false => exact inner.transaction_calm rfl did
      | true => exact withForeignKeysOff_calm inner did

/-- What there is behind a run that begins with the database `d`: the actions have been performed, or
some of the first of them. -/
def RunPost (on : Bool) (performed : List (Database δ → Except String (Database δ))) (d : Database δ) :
    Outcome (List String) → Connection (Database δ) → Prop
  | .returned applied, c => ∃ d', perform performed d = (.ok (), d') ∧ d'.ids = d.ids ++ applied ∧
      c = connect on d'
  | .threw _, c => ∃ k, c = connect on (perform (performed.take k) d).2
  | .crashed, c => ∃ k, c.committed = (perform (performed.take k) d).2

theorem bodyEffect_ok {now : Bool} (did : bodyEffect violations step on d = .ok (now, d')) :
    ∃ ids, d.migrations = some ids ∧
      ((now = false ∧ step.id ∈ ids ∧ d' = d) ∨
        (now = true ∧ step.id ∉ ids ∧ stepEffect violations step on d.data = .ok d'.data ∧
          d'.migrations = some (ids ++ [step.id]))) := by
  unfold bodyEffect at did
  split at did
  · cases did
  · rename_i ids isThere
    refine ⟨ids, isThere, ?_⟩
    split at did
    · rename_i recorded
      cases did
      exact Or.inl ⟨rfl, recorded, rfl⟩
    · rename_i fresh
      obtain ⟨data, isData, same⟩ := except_map_eq_ok.mp did
      cases same
      exact Or.inr ⟨rfl, fresh, isData, rfl⟩

theorem ids_of_bodyEffect {now : Bool} (did : bodyEffect violations step on d = .ok (now, d')) :
    d'.ids = d.ids ++ if now then [step.id] else [] := by
  obtain ⟨ids, isThere, ⟨rfl, _, rfl⟩ | ⟨rfl, _, _, isNext⟩⟩ := bodyEffect_ok did
  · simp
  · rw [Database.ids, Database.ids, isNext, isThere]
    rfl

theorem stepAction_of_transaction {now : Bool}
    (did : stepTransaction violations step on d = .ok (now, d')) :
    stepAction violations on step d = .ok d' := by
  rw [stepAction, did]
  rfl

theorem applySteps_ends : ∀ (steps : List (SqliteMigrationStep δ)) (d : Database δ),
    Ends (applySteps violations steps) (connect on d)
      (RunPost on (steps.map (stepAction violations on)) d)
  | [], d => Ends.pure ⟨d, rfl, (List.append_nil _).symm, rfl⟩
  | step :: steps, d => by
      refine applyStep_ends.bind ?_ ?_ ?_
      · rintro now _ ⟨d', did, rfl⟩
        have does : stepAction violations on step d = .ok d' := stepAction_of_transaction did
        have grows : d'.ids = d.ids ++ if now then [step.id] else [] := ids_of_bodyEffect did
        have after : ∀ k, (perform (((step :: steps).map (stepAction violations on)).take (k + 1)) d).2 =
            (perform ((steps.map (stepAction violations on)).take k) d').2 := fun k => by
          rw [List.map_cons, List.take_succ_cons, perform_cons_ok does]
        refine (applySteps_ends steps d').bind ?_ ?_ ?_
        · rintro applied _ ⟨d'', rest, ids, rfl⟩
          refine Ends.pure ⟨d'', (perform_cons_ok does).trans rest, ?_, rfl⟩
          rw [ids, grows]
          cases now <;> simp
        · rintro message _ ⟨k, rfl⟩
          exact ⟨k + 1, by rw [after]⟩
        · rintro c ⟨k, same⟩
          exact ⟨k + 1, same.trans (after k).symm⟩
      · rintro message _ rfl
        exact ⟨0, rfl⟩
      · rintro c (same | ⟨now, d', did, same⟩)
        · exact ⟨0, same⟩
        · have does : stepAction violations on step d = .ok d' := stepAction_of_transaction did
          refine ⟨1, ?_⟩
          rw [List.map_cons, List.take_succ_cons, perform_cons_ok does]
          exact same

theorem applySteps_calm : ∀ (steps : List (SqliteMigrationStep δ)) (d : Database δ),
    perform (steps.map (stepAction violations on)) d = (.ok (), d') →
      ∃ applied, Calm (applySteps violations steps) (connect on d) applied (connect on d')
  | [], d, performed => by
      obtain rfl := congrArg Prod.snd performed
      exact ⟨[], rfl⟩
  | step :: steps, d, performed => by
      obtain ⟨mid, does, rest⟩ := perform_cons_eq_ok.mp performed
      obtain ⟨⟨now, mid⟩, did, rfl⟩ := except_map_eq_ok.mp does
      obtain ⟨applied, runs⟩ := applySteps_calm steps mid rest
      exact ⟨_, (applyStep_calm did).bind (runs.bind rfl)⟩

/-- The ids of the steps are usable. -/
def UniqueStepIds (steps : List (SqliteMigrationStep δ)) : Prop :=
  (steps.all fun step => step.id ≠ "") = true ∧ (steps.map (·.id)).Nodup

theorem runSqliteMigrations_of_unique (unique : UniqueStepIds steps) :
    runSqliteMigrations violations steps = (do
      createMigrations
      applySteps violations steps) := by
  rw [runSqliteMigrations, assertUniqueStepIds,
    if_pos (Bool.and_eq_true_iff.mpr ⟨unique.1, decide_eq_true unique.2⟩)]
  rfl

theorem runSqliteMigrations_of_not_unique (broken : ¬ UniqueStepIds steps) :
    runSqliteMigrations violations steps = throw "invalid or duplicate migration id" := by
  rw [runSqliteMigrations, assertUniqueStepIds, if_neg]
  · rfl
  · intro unique
    rw [Bool.and_eq_true, decide_eq_true_eq] at unique
    exact broken unique

variable (violations on steps) in
theorem runSqliteMigrations_ends (d : Database δ) :
    Ends (runSqliteMigrations violations steps) (connect on d) (RunPost on (actions violations on steps) d) := by
  by_cases unique : UniqueStepIds steps
  · rw [runSqliteMigrations_of_unique unique]
    have created : createAction d = .ok { d with migrations := some d.ids } := rfl
    refine Ends.stmt_bind rfl ?_ (fun _ => ⟨0, rfl⟩) ⟨0, rfl⟩ ⟨1, rfl⟩
    refine (applySteps_ends steps { d with migrations := some d.ids }).mono fun out c ended => ?_
    cases out with
    | returned applied =>
        obtain ⟨d', performed, ids, rfl⟩ := ended
        exact ⟨d', (perform_cons_ok created).trans performed, ids, rfl⟩
    | threw message =>
        obtain ⟨k, rfl⟩ := ended
        exact ⟨k + 1, rfl⟩
    | crashed =>
        obtain ⟨k, same⟩ := ended
        exact ⟨k + 1, same⟩
  · rw [runSqliteMigrations_of_not_unique unique]
    exact Ends.throw ⟨0, rfl⟩

theorem runSqliteMigrations_calm (unique : UniqueStepIds steps)
    (performed : perform (actions violations on steps) d = (.ok (), d')) :
    ∃ applied, Calm (runSqliteMigrations violations steps) (connect on d) applied (connect on d') := by
  obtain ⟨mid, created, rest⟩ := perform_cons_eq_ok.mp performed
  obtain ⟨applied, runs⟩ := applySteps_calm steps mid rest
  cases created
  rw [runSqliteMigrations_of_unique unique]
  have creates : Calm createMigrations (connect on d) () (connect on { d with migrations := some d.ids }) := rfl
  exact ⟨applied, creates.bind runs⟩

end Run

/-! ## One run after the other -/

section Runs

variable {violations : δ → Bool} {on : Bool} {d d' : Database δ} {step : SqliteMigrationStep δ}
variable {steps : List (SqliteMigrationStep δ)}

theorem stepAction_ok (did : stepAction violations on step d = .ok d') :
    ∃ ids, d.migrations = some ids ∧ ((step.id ∈ ids ∧ d' = d) ∨
      (step.id ∉ ids ∧ stepEffect violations step (on && !step.disableForeignKeys) d.data = .ok d'.data ∧
        d'.migrations = some (ids ++ [step.id]))) := by
  obtain ⟨⟨now, next⟩, ran, rfl⟩ := except_map_eq_ok.mp did
  obtain ⟨ids, isThere, ⟨_, recorded, same⟩ | ⟨_, fresh, isData, isNext⟩⟩ := bodyEffect_ok ran
  · exact ⟨ids, isThere, Or.inl ⟨recorded, same⟩⟩
  · exact ⟨ids, isThere, Or.inr ⟨fresh, isData, isNext⟩⟩

theorem stepAction_of_recorded {ids : List String} (isThere : d.migrations = some ids)
    (recorded : step.id ∈ ids) : stepAction violations on step d = .ok d := by
  unfold stepAction stepTransaction bodyEffect
  simp only [isThere, recorded, if_true]
  rfl

/-- The step has been recorded. -/
def Recorded (id : String) (d : Database δ) : Prop := ∃ ids, d.migrations = some ids ∧ id ∈ ids

theorem recorded_of_stepAction (did : stepAction violations on step d = .ok d') : Recorded step.id d' := by
  obtain ⟨ids, isThere, ⟨recorded, rfl⟩ | ⟨_, _, isNext⟩⟩ := stepAction_ok did
  · exact ⟨ids, isThere, recorded⟩
  · exact ⟨_, isNext, List.mem_append_right _ (List.mem_singleton_self _)⟩

theorem Recorded.kept {id : String} (h : Recorded id d) (did : stepAction violations on step d = .ok d') :
    Recorded id d' := by
  obtain ⟨ids, isThere, mem⟩ := h
  obtain ⟨ids', isThere', ⟨_, rfl⟩ | ⟨_, _, isNext⟩⟩ := stepAction_ok did
  · exact ⟨ids, isThere, mem⟩
  · obtain rfl := Option.some.inj (isThere.symm.trans isThere')
    exact ⟨_, isNext, List.mem_append_left _ mem⟩

/-- An action that has been done does nothing, and no later one undoes it. -/
theorem resumable_actions : Resumable (fun _ => True) (actions violations on steps) where
  keeps _ _ _ _ _ _ := trivial
  redone action isAction d d' _ did := by
    rcases List.mem_cons.mp isAction with rfl | isStep
    · cases did
      rfl
    · obtain ⟨step, _, rfl⟩ := List.mem_map.mp isStep
      obtain ⟨ids, isThere, mem⟩ := recorded_of_stepAction did
      exact stepAction_of_recorded isThere mem
  survives := by
    refine List.pairwise_cons.mpr ⟨?_, ?_⟩
    · intro action isStep d d' _ idle did
      obtain ⟨step, _, rfl⟩ := List.mem_map.mp isStep
      obtain ⟨ids, isThere, _⟩ := recorded_of_stepAction did
      obtain ⟨data, migrations⟩ := d'
      cases isThere
      rfl
    · refine List.pairwise_map.mpr (List.pairwise_of_forall_mem_list ?_)
      intro first _ second _ d d' _ idle did
      obtain ⟨ids, isThere, mem⟩ := (recorded_of_stepAction idle).kept did
      exact stepAction_of_recorded isThere mem

/-- The database after runs that have been interrupted or not, each on a connection of its own. -/
def afterRuns (violations : δ → Bool) (on : Bool) (steps : List (SqliteMigrationStep δ)) :
    List (List Event) → Database δ → Database δ
  | [], d => d
  | events :: runs, d => afterRuns violations on steps runs
      (runSqliteMigrations violations steps (connect on d) events).2.1.committed

theorem committed_of_runPost {out : Outcome (List String)} {c : Connection (Database δ)}
    {performed : List (Database δ → Except String (Database δ))} (h : RunPost on performed d out c) :
    ∃ k, c.committed = (perform (performed.take k) d).2 := by
  cases out with
  | returned applied =>
      obtain ⟨d', all, _, rfl⟩ := h
      exact ⟨performed.length, by rw [List.take_length, all]; rfl⟩
  | threw message =>
      obtain ⟨k, rfl⟩ := h
      exact ⟨k, rfl⟩
  | crashed => exact h

variable (violations on steps) in
/-- Runs end where the actions have been performed up to one of them. -/
theorem afterRuns_eq (d : Database δ) : ∀ (runs : List (List Event)) (k : Nat),
    ∃ i, afterRuns violations on steps runs (perform ((actions violations on steps).take k) d).2 =
      (perform ((actions violations on steps).take i) d).2
  | [], k => ⟨k, rfl⟩
  | events :: runs, k => by
      obtain ⟨j, isNext⟩ := committed_of_runPost
        (runSqliteMigrations_ends violations on steps (perform ((actions violations on steps).take k) d).2 events)
      obtain ⟨i, same⟩ := perform_take_take resumable_actions j k (d := d) trivial
      rw [afterRuns, isNext, same]
      exact afterRuns_eq d runs i

theorem afterRuns_of_not_unique (broken : ¬ UniqueStepIds steps) : ∀ (runs : List (List Event)),
    afterRuns violations on steps runs d = d
  | [] => rfl
  | events :: runs => by
      rw [afterRuns, runSqliteMigrations_of_not_unique broken]
      exact afterRuns_of_not_unique broken runs

/-- The steps that have no record. -/
def pending (d : Database δ) (steps : List (SqliteMigrationStep δ)) : List (SqliteMigrationStep δ) :=
  steps.filter fun step => step.id ∉ d.ids

/-- The effects of steps, one after the other. -/
def effects (violations : δ → Bool) (on : Bool) (done : List (SqliteMigrationStep δ)) (data : δ) :
    Except String δ :=
  done.foldlM (fun data step => stepEffect violations step (on && !step.disableForeignKeys) data) data

/-- Of the pending steps the first have had their effects in order, once each, and these are recorded. -/
def Migrated (violations : δ → Bool) (on : Bool) (steps : List (SqliteMigrationStep δ))
    (d d' : Database δ) : Prop :=
  ∃ done, done <+: pending d steps ∧ effects violations on done d.data = .ok d'.data ∧
    d'.ids = d.ids ++ done.map (·.id)

theorem Migrated.refl : Migrated violations on steps d d :=
  ⟨[], List.nil_prefix, rfl, (List.append_nil _).symm⟩

theorem pending_append {id : String} (ids : d'.ids = d.ids ++ [id]) (apart : id ∉ steps.map (·.id)) :
    pending d' steps = pending d steps := by
  refine List.filter_congr fun step isStep => ?_
  have other : step.id ≠ id := fun same => apart (List.mem_map.mpr ⟨step, isStep, same⟩)
  rw [ids]
  simp [other]

theorem migrated_of_perform : ∀ {steps : List (SqliteMigrationStep δ)} {d : Database δ},
    (steps.map (·.id)).Nodup → ∀ k,
      Migrated violations on steps d (perform ((steps.map (stepAction violations on)).take k) d).2
  | [], _, _, _ => by
      rw [List.map_nil, List.take_nil]
      exact Migrated.refl
  | _ :: _, _, _, 0 => Migrated.refl
  | step :: steps, d, distinct, k + 1 => by
      obtain ⟨apart, distinct⟩ := List.nodup_cons.mp distinct
      rw [List.map_cons, List.take_succ_cons]
      cases did : stepAction violations on step d with
      | error message =>
          rw [perform_cons_error did]
          exact Migrated.refl
      | ok d' =>
          rw [perform_cons_ok did]
          obtain ⟨done, isPrefix, isData, isIds⟩ := migrated_of_perform distinct k (d := d')
          obtain ⟨ids, isThere, ⟨recorded, rfl⟩ | ⟨fresh, isNow, isNext⟩⟩ := stepAction_ok did
          · refine ⟨done, ?_, isData, isIds⟩
            have skipped : pending d' (step :: steps) = pending d' steps := by
              rw [pending, List.filter_cons_of_neg]
              · rfl
              · simpa [Database.ids, isThere] using recorded
            rw [skipped]
            exact isPrefix
          · have grown : d'.ids = d.ids ++ [step.id] := by
              rw [Database.ids, Database.ids, isNext, isThere]
              rfl
            have first : pending d (step :: steps) = step :: pending d steps := by
              rw [pending, List.filter_cons_of_pos]
              · rfl
              · simpa [Database.ids, isThere] using fresh
            rw [pending_append grown apart] at isPrefix
            refine ⟨step :: done, ?_, ?_, ?_⟩
            · rw [first]
              exact List.cons_prefix_cons.mpr ⟨rfl, isPrefix⟩
            · rw [effects, List.foldlM_cons]
              exact except_bind_eq_ok.mpr ⟨_, isNow, isData⟩
            · rw [isIds, grown, List.map_cons, List.append_assoc]
              rfl

theorem migrated_afterRuns (runs : List (List Event)) :
    Migrated violations on steps d (afterRuns violations on steps runs d) := by
  by_cases unique : UniqueStepIds steps
  · obtain ⟨i, same⟩ := afterRuns_eq violations on steps d runs 0
    rw [List.take_zero, perform_nil] at same
    rw [same]
    cases i with
    | zero => exact Migrated.refl
    | succ i => exact migrated_of_perform unique.2 i (d := { d with migrations := some d.ids })
  · rw [afterRuns_of_not_unique unique]
    exact Migrated.refl

/-- Every step has been recorded by actions that were performed to their end. -/
theorem recorded_of_perform (performed : perform (actions violations on steps) d = (.ok (), d')) :
    ∀ step ∈ steps, step.id ∈ d'.ids := by
  intro step isStep
  have settled := resumable_actions.settled trivial performed (stepAction violations on step)
    (List.mem_cons_of_mem _ (List.mem_map_of_mem isStep))
  obtain ⟨ids, isThere, mem⟩ := recorded_of_stepAction settled
  rw [Database.ids, isThere]
  exact mem

/-- Whatever has interrupted the runs before, a run that returns ends as one alone would, with every step
recorded. -/
theorem runSqliteMigrations_resumes {runs : List (List Event)} {events left : List Event}
    {applied : List String} {c : Connection (Database δ)}
    (ran : runSqliteMigrations violations steps (connect on (afterRuns violations on steps runs d)) events =
      (.returned applied, c, left)) :
    (∀ step ∈ steps, step.id ∈ c.committed.ids) ∧
      ∃ all, runSqliteMigrations violations steps (connect on d) [] = (.returned all, c, []) := by
  by_cases unique : UniqueStepIds steps
  · have ended := runSqliteMigrations_ends violations on steps
      (afterRuns violations on steps runs d) events
    rw [ran] at ended
    obtain ⟨d', performed, _, rfl⟩ := ended
    obtain ⟨i, same⟩ := afterRuns_eq violations on steps d runs 0
    rw [List.take_zero, perform_nil] at same
    rw [same, perform_resume resumable_actions i trivial] at performed
    exact ⟨recorded_of_perform performed, runSqliteMigrations_calm unique performed⟩
  · rw [runSqliteMigrations_of_not_unique unique] at ran
    cases ran

/-- After any runs, interrupted anywhere or not, each pending step up to one of them has had its effect
once, in order and together with its record; a run that returns then leaves every step recorded and the
database as one run alone, never interrupted, would; and where the process goes on behind a run, no
transaction is open and foreign keys are set as they were. -/
theorem runSqliteMigrations_interrupted (violations : δ → Bool) (steps : List (SqliteMigrationStep δ))
    (on : Bool) (d : Database δ) (runs : List (List Event)) :
    Migrated violations on steps d (afterRuns violations on steps runs d) ∧
    (∀ events applied c left,
      runSqliteMigrations violations steps (connect on (afterRuns violations on steps runs d)) events =
          (.returned applied, c, left) →
        (∀ step ∈ steps, step.id ∈ c.committed.ids) ∧
          ∃ all, runSqliteMigrations violations steps (connect on d) [] = (.returned all, c, [])) ∧
    ∀ events out c left,
      runSqliteMigrations violations steps (connect on (afterRuns violations on steps runs d)) events =
          (out, c, left) →
        out ≠ .crashed → c = connect on c.committed := by
  refine ⟨migrated_afterRuns runs, ?_, ?_⟩
  · intro events applied c left ran
    exact runSqliteMigrations_resumes ran
  · intro events out c left ran goesOn
    have ended := runSqliteMigrations_ends violations on steps
      (afterRuns violations on steps runs d) events
    rw [ran] at ended
    cases out with
    | returned applied =>
        obtain ⟨d', _, _, rfl⟩ := ended
        rfl
    | threw message =>
        obtain ⟨k, rfl⟩ := ended
        rfl
    | crashed => exact absurd rfl goesOn

end Runs

namespace Sample

/-- The rows of a table and of its rebuild, and whether it has an index. -/
structure Tables where
  rows : Option (List Nat)
  rebuilt : Option (List Nat)
  indexed : Bool
  deriving DecidableEq

/-- `DROP TABLE IF EXISTS`, `CREATE TABLE`, `INSERT`, `DROP TABLE`, `ALTER TABLE` and `CREATE INDEX`. -/
def sql : List (Tables → Except String Tables) := [
  fun tables => .ok { tables with rebuilt := none },
  fun tables => .ok { tables with rebuilt := some [] },
  fun tables => .ok { tables with rebuilt := tables.rows },
  fun tables => .ok { tables with rows := none, indexed := false },
  fun tables => .ok { tables with rows := tables.rebuilt, rebuilt := none },
  fun tables => .ok { tables with indexed := true }]

/-- No row refers to another table. -/
def violations : Tables → Bool := fun _ => false

def seedStep : SqliteMigrationStep Tables where
  id := "seed"
  up := statement (onData fun _ tables => .ok { tables with rows := tables.rows.map (· ++ [1]) })
  disableForeignKeys := false
  effect _ tables := .ok { tables with rows := tables.rows.map (· ++ [1]) }
  inStep := InStep.statement _

def steps : List (SqliteMigrationStep Tables) := [seedStep, rebuildStep violations sql "rebuild"]

def opened : Database Tables := ⟨⟨some [0], none, false⟩, none⟩

/-- The first run is cut off when the old table has been dropped, in the second one the rows are not copied. -/
def runs : List (List Event) :=
  [List.replicate 15 .proceeds ++ [.cutBehind], List.replicate 12 .proceeds ++ [.fails "disk full"]]

end Sample

/-- The table is rebuilt by the third run. -/
theorem runSqliteMigrations_interrupted_rebuild :
    afterRuns Sample.violations true Sample.steps Sample.runs Sample.opened
        = ⟨⟨some [0, 1], none, false⟩, some ["seed"]⟩ ∧
      (∀ step ∈ Sample.steps, step.id ∈ ["seed", "rebuild"]) ∧
      ∃ all, runSqliteMigrations Sample.violations Sample.steps (connect true Sample.opened) []
        = (.returned all, connect true ⟨⟨some [0, 1], none, true⟩, some ["seed", "rebuild"]⟩, []) := by
  have third : runSqliteMigrations Sample.violations Sample.steps
      (connect true (afterRuns Sample.violations true Sample.steps Sample.runs Sample.opened)) []
        = (.returned ["rebuild"], connect true ⟨⟨some [0, 1], none, true⟩, some ["seed", "rebuild"]⟩, []) := by
    decide +kernel
  exact ⟨by decide +kernel, (runSqliteMigrations_interrupted Sample.violations Sample.steps true Sample.opened
    Sample.runs).2.1 _ _ _ _ third⟩

end GhcpConsole.Migrations
