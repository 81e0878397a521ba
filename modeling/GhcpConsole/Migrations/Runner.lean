import GhcpConsole.Lib.Session

/-!
# The runner of SQLite migrations

`sqliteService.ts`: `runSqliteMigrations` with `applyStep`, and the table rebuild a step may call. The
database is what the service keeps in it, with the records of `schema_migrations`; a record's time is
left out. That no step writes `schema_migrations` itself is part of the type of its effect.
-/

namespace GhcpConsole.Migrations

open Session

variable {δ : Type}

structure Database (δ : Type) where
  data : δ
  /-- The ids in `schema_migrations`, once the table is there. -/
  migrations : Option (List String)
  deriving DecidableEq, Repr

/-- The ids that are recorded. -/
def Database.ids (d : Database δ) : List String := d.migrations.getD []

/-- The effect on what the service keeps, as one on the database. -/
def onData (effect : Bool → δ → Except String δ) (on : Bool) : StateT (Database δ) (Except String) Unit :=
  fun d => (effect on d.data).map fun data => ((), { d with data })

/-- A step, whose `up` has its effect in the step's own transaction. What it does may depend on
whether foreign keys are on. -/
structure SqliteMigrationStep (δ : Type) where
  id : String
  up : Session (Database δ) Unit
  disableForeignKeys : Bool
  effect : Bool → δ → Except String δ
  inStep : InStep up (onData effect)

section Runner

-- What `PRAGMA foreign_key_check` reports is a violation.
variable (violations : δ → Bool)

def foreignKeysEnabled : Session (Database δ) Bool := statement fun on d => .ok (on, d)

def assertNoForeignKeyViolations : Session (Database δ) Unit :=
  statement fun _ d => if violations d.data then .error "foreign key violation" else .ok ((), d)

def withForeignKeysOff {α : Type} (action : Session (Database δ) α) : Session (Database δ) α := do
  setForeignKeys false
  tryFinally action (setForeignKeys true)

/-- `CREATE TABLE IF NOT EXISTS schema_migrations` -/
def createMigrations : Session (Database δ) Unit :=
  statement fun _ d => .ok ((), { d with migrations := some d.ids })

def isApplied (id : String) : Session (Database δ) Bool :=
  statement fun _ d =>
    match d.migrations with
    | none => .error "no such table: schema_migrations"
    | some ids => .ok (decide (id ∈ ids), d)

/-- The `INSERT` of a step's record. -/
def recordStep (id : String) : Session (Database δ) Unit :=
  statement fun _ d =>
    match d.migrations with
    | none => .error "no such table: schema_migrations"
    | some ids =>
        if id ∈ ids then .error "UNIQUE constraint failed: schema_migrations.id"
        else .ok ((), { d with migrations := some (ids ++ [id]) })

/-- The body of the transaction in `applyStep`. -/
def stepBody (step : SqliteMigrationStep δ) : Session (Database δ) Bool := do
  if ← isApplied step.id then pure false
  else
    step.up
    if step.disableForeignKeys then assertNoForeignKeyViolations violations else pure ()
    recordStep step.id
    pure true

def applyStep (step : SqliteMigrationStep δ) : Session (Database δ) Bool := do
  let run := transaction (stepBody violations step)
  if step.disableForeignKeys then
    if ← foreignKeysEnabled then withForeignKeysOff run else run
  else run

/-- The loop over the steps. -/
def applySteps : List (SqliteMigrationStep δ) → Session (Database δ) (List String)
  | [] => pure []
  | step :: steps => do
      let now ← applyStep violations step
      let applied ← applySteps steps
      pure (if now then step.id :: applied else applied)

def assertUniqueStepIds (steps : List (SqliteMigrationStep δ)) : Session (Database δ) Unit :=
  if steps.all (fun step => step.id ≠ "") && decide (steps.map (·.id)).Nodup then pure ()
  else throw "invalid or duplicate migration id"

def runSqliteMigrations (steps : List (SqliteMigrationStep δ)) : Session (Database δ) (List String) := do
  assertUniqueStepIds steps
  createMigrations
  applySteps violations steps

/-! ## Rebuilding a table -/

/-- The statements of `rebuildTable`, one by one. -/
def rebuildTable : List (δ → Except String δ) → Session (Database δ) Unit
  | [] => pure ()
  | sql :: rest => do
      statement (onData fun _ => sql)
      rebuildTable rest

def rebuildSqliteTable (sql : List (δ → Except String δ)) : Session (Database δ) Unit := do
  if ← foreignKeysEnabled then
    if ← inTransaction then throw "rebuildSqliteTable needs foreign_keys OFF inside a transaction"
    else withForeignKeysOff (transaction do
      rebuildTable sql
      assertNoForeignKeyViolations violations)
  else transaction (rebuildTable sql)

end Runner

/-! ## What a step does -/

section Step

variable (violations : δ → Bool) (step : SqliteMigrationStep δ) (on : Bool)

/-- The effect of a step, under the setting that its transaction is run with. -/
def stepEffect (data : δ) : Except String δ := do
  let data ← step.effect on data
  if step.disableForeignKeys && violations data then .error "foreign key violation" else .ok data

/-- The transaction of a step: whether the step was applied now, and the database behind it. -/
def bodyEffect (d : Database δ) : Except String (Bool × Database δ) :=
  match d.migrations with
  | none => .error "no such table: schema_migrations"
  | some ids =>
      if step.id ∈ ids then .ok (false, d)
      else (stepEffect violations step on d.data).map fun data =>
        (true, { data, migrations := some (ids ++ [step.id]) })

theorem stepBody_inStep : InStep (stepBody violations step) (bodyEffect violations step) := by
  unfold stepBody
  refine InStep.congr ((InStep.statement _).bind fun applied => InStep.ite applied (InStep.pure false)
    (step.inStep.bind fun _ => InStep.ite step.disableForeignKeys
      ((InStep.statement _).bind fun _ => (InStep.statement _).bind fun _ => InStep.pure true)
      ((InStep.statement _).bind fun _ => InStep.pure true))) fun on d => ?_
  obtain ⟨data, migrations⟩ := d
  cases migrations with
  | none => rfl
  | some ids =>
      unfold bodyEffect stepEffect
      by_cases recorded : step.id ∈ ids
      · simp [bind, StateT.bind, Except.bind, recorded, pure]
        rfl
      · cases did : step.effect on data with
        | error message => simp [bind, StateT.bind, Except.bind, recorded, onData, did, Except.map]
        | ok data' =>
            cases disable : step.disableForeignKeys <;> cases broken : violations data' <;>
              simp [bind, StateT.bind, Except.bind, recorded, onData, did, Except.map, broken, pure] <;> rfl

end Step

section Rebuild

variable (violations : δ → Bool) (sql : List (δ → Except String δ))

theorem rebuildTable_inStep : ∀ sql : List (δ → Except String δ),
    InStep (rebuildTable sql) (onData fun _ data => sql.foldlM (fun data f => f data) data)
  | [] => InStep.pure ()
  | f :: rest => by
      refine InStep.congr ((InStep.statement _).bind fun _ => rebuildTable_inStep rest) fun on d => ?_
      cases did : f d.data <;>
        simp [bind, StateT.bind, Except.bind, onData, did, Except.map]

/-- In a step, a table is rebuilt where the step has foreign keys off. -/
theorem rebuildSqliteTable_inStep : InStep (rebuildSqliteTable violations sql)
    (onData fun on data =>
      if on then .error "rebuildSqliteTable needs foreign_keys OFF inside a transaction"
      else sql.foldlM (fun data f => f data) data) := by
  unfold rebuildSqliteTable
  refine InStep.congr ((InStep.statement _).bind fun on => InStep.ite on
    (InStep.inside (InStep.throw _)) (rebuildTable_inStep sql).nested) fun on d => ?_
  cases on <;> rfl

/-- A step that rebuilds a table. -/
def rebuildStep (id : String) : SqliteMigrationStep δ where
  id := id
  up := rebuildSqliteTable violations sql
  disableForeignKeys := true
  effect on data :=
    if on then .error "rebuildSqliteTable needs foreign_keys OFF inside a transaction"
    else sql.foldlM (fun data f => f data) data
  inStep := rebuildSqliteTable_inStep violations sql

end Rebuild

end GhcpConsole.Migrations
