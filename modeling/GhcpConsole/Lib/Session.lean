import GhcpConsole.Lib.Tx

/-!
# Sessions of a transactional database

A session is a program on one connection. Before each statement it is decided from outside what
befalls it: it runs, it fails, or the process is cut off, before it or right behind it. Statements
outside a transaction commit at once; what a transaction has written is gone when the process is cut
off before its commit.

`InStep m effect` says of a program that in a transaction it has `effect` or no lasting one, and a
transaction around it then happens as a whole or not at all (`InStep.transaction`).
-/

namespace GhcpConsole

/-- What befalls a statement. -/
inductive Event where
  | proceeds
  | fails (message : String)
  | cutBefore
  | cutBehind
  deriving DecidableEq, Repr

inductive Outcome (α : Type) where
  | returned (a : α)
  | threw (message : String)
  | crashed
  deriving DecidableEq, Repr

structure Connection (δ : Type) where
  committed : δ
  /-- The database as the open transaction sees it. -/
  working : Option δ
  foreignKeys : Bool
  deriving DecidableEq, Repr

/-- A connection that has been opened. -/
def connect {δ : Type} (foreignKeys : Bool) (d : δ) : Connection δ where
  committed := d
  working := none
  foreignKeys := foreignKeys

def Session (δ α : Type) : Type :=
  Connection δ → List Event → Outcome α × Connection δ × List Event

namespace Session

variable {δ α β : Type}

instance : Monad (Session δ) where
  pure a := fun c events => (.returned a, c, events)
  bind m f := fun c events =>
    match m c events with
    | (.returned a, c, events) => f a c events
    | (.threw message, c, events) => (.threw message, c, events)
    | (.crashed, c, events) => (.crashed, c, events)

def throw (message : String) : Session δ α := fun c events => (.threw message, c, events)

def tryCatch (m : Session δ α) (handler : String → Session δ α) : Session δ α := fun c events =>
  match m c events with
  | (.threw message, c, events) => handler message c events
  | result => result

/-- The `finally` part runs behind a return and behind a throw. -/
def tryFinally (m : Session δ α) (finally_ : Session δ Unit) : Session δ α := do
  let result ← tryCatch m fun message => do
    finally_
    throw message
  finally_
  pure result

/-- One statement. -/
def stmt (act : Connection δ → Outcome α × Connection δ) : Session δ α := fun c events =>
  match events with
  | [] => ((act c).1, (act c).2, [])
  | .proceeds :: events => ((act c).1, (act c).2, events)
  | .fails message :: events => (.threw message, c, events)
  | .cutBefore :: events => (.crashed, c, events)
  | .cutBehind :: events => (.crashed, (act c).2, events)

/-- A statement that never fails. -/
def surely (act : Connection δ → Connection δ) : Session δ Unit := fun c events =>
  match events with
  | .fails _ :: events => (.returned (), act c, events)
  | events => stmt (fun c => (.returned (), act c)) c events

/-- A statement on the database: what it does may depend on whether foreign keys are on. -/
def statement (effect : Bool → StateT δ (Except String) α) : Session δ α :=
  stmt fun c =>
    match c.working with
    | some d =>
        match effect c.foreignKeys d with
        | .ok (a, d') => (.returned a, { c with working := some d' })
        | .error message => (.threw message, c)
    | none =>
        match effect c.foreignKeys c.committed with
        | .ok (a, d') => (.returned a, { c with committed := d' })
        | .error message => (.threw message, c)

def inTransaction : Session δ Bool := fun c events => (.returned c.working.isSome, c, events)

/-- `PRAGMA foreign_keys`, which does nothing in a transaction. -/
def setForeignKeys (on : Bool) : Session δ Unit :=
  surely fun c => if c.working.isSome then c else { c with foreignKeys := on }

/-- `BEGIN IMMEDIATE` -/
def begin_ : Session δ Unit :=
  stmt fun c =>
    match c.working with
    | some _ => (.threw "cannot start a transaction within a transaction", c)
    | none => (.returned (), { c with working := some c.committed })

def commit : Session δ Unit :=
  stmt fun c =>
    match c.working with
    | some d => (.returned (), { c with committed := d, working := none })
    | none => (.threw "cannot commit - no transaction is active", c)

def rollback : Session δ Unit := surely fun c => { c with working := none }

def savepoint : Session δ (Option δ) := stmt fun c => (.returned c.working, c)

def rollbackTo (saved : Option δ) : Session δ Unit := surely fun c => { c with working := saved }

def release : Session δ Unit := stmt fun c => (.returned (), c)

/-- `db.transaction(fn)`: a savepoint when it is nested. -/
def transaction (body : Session δ α) : Session δ α := do
  if ← inTransaction then
    let saved ← savepoint
    tryCatch (do
        let result ← body
        release
        pure result) fun message => do
      if ← inTransaction then rollbackTo saved
      throw message
  else
    begin_
    tryCatch (do
        let result ← body
        commit
        pure result) fun message => do
      if ← inTransaction then rollback
      throw message

/-! ## What a program may end with -/

/-- Whatever befalls its statements, the program ends in one of these ways. -/
def Ends (m : Session δ α) (c : Connection δ) (post : Outcome α → Connection δ → Prop) : Prop :=
  ∀ events, post (m c events).1 (m c events).2.1

section Ends

variable {m : Session δ α} {f : α → Session δ β} {c : Connection δ}
variable {post : Outcome α → Connection δ → Prop} {post' : Outcome β → Connection δ → Prop}

theorem Ends.mono {weaker : Outcome α → Connection δ → Prop} (h : Ends m c post)
    (imp : ∀ out c', post out c' → weaker out c') : Ends m c weaker :=
  fun events => imp _ _ (h events)

theorem Ends.pure {a : α} (h : post (.returned a) c) : Ends (Pure.pure a : Session δ α) c post :=
  fun _ => h

theorem Ends.throw {message : String} (h : post (.threw message) c) :
    Ends (Session.throw message : Session δ α) c post :=
  fun _ => h

theorem Ends.bind (h : Ends m c post) (returned : ∀ a c', post (.returned a) c' → Ends (f a) c' post')
    (threw : ∀ message c', post (.threw message) c' → post' (.threw message) c')
    (crashed : ∀ c', post .crashed c' → post' .crashed c') : Ends (m >>= f) c post' := by
  intro events
  have first := h events
  simp only [Bind.bind]
  split
  · rename_i a c' rest ran
    rw [ran] at first
    exact returned a c' first rest
  · rename_i message c' rest ran
    rw [ran] at first
    exact threw message c' first
  · rename_i c' rest ran
    rw [ran] at first
    exact crashed c' first

theorem Ends.tryCatch {handler : String → Session δ α} {before : Outcome α → Connection δ → Prop}
    (h : Ends m c before) (returned : ∀ a c', before (.returned a) c' → post (.returned a) c')
    (threw : ∀ message c', before (.threw message) c' → Ends (handler message) c' post)
    (crashed : ∀ c', before .crashed c' → post .crashed c') :
    Ends (Session.tryCatch m handler) c post := by
  intro events
  have first := h events
  unfold Session.tryCatch
  rcases ran : m c events with ⟨out, c', rest⟩
  rw [ran] at first
  cases out with
  | returned a => exact returned a c' first
  | threw message => exact threw message c' first rest
  | crashed => exact crashed c' first

theorem Ends.stmt {act : Connection δ → Outcome α × Connection δ} (done : post (act c).1 (act c).2)
    (fails : ∀ message, post (.threw message) c) (before : post .crashed c)
    (behind : post .crashed (act c).2) : Ends (Session.stmt act) c post := by
  intro events
  match events with
  | [] => exact done
  | .proceeds :: _ => exact done
  | .fails message :: _ => exact fails message
  | .cutBefore :: _ => exact before
  | .cutBehind :: _ => exact behind

theorem Ends.surely {post : Outcome Unit → Connection δ → Prop} {act : Connection δ → Connection δ}
    (done : post (.returned ()) (act c)) (before : post .crashed c) (behind : post .crashed (act c)) :
    Ends (Session.surely act) c post := by
  intro events
  match events with
  | [] => exact done
  | .proceeds :: _ => exact done
  | .fails message :: _ => exact done
  | .cutBefore :: _ => exact before
  | .cutBehind :: _ => exact behind

/-- A statement that returns, with the program behind it. -/
theorem Ends.stmt_bind {act : Connection δ → Outcome α × Connection δ} {a : α} {c' : Connection δ}
    (does : act c = (.returned a, c')) (next : Ends (f a) c' post')
    (fails : ∀ message, post' (.threw message) c) (before : post' .crashed c)
    (behind : post' .crashed c') : Ends (Session.stmt act >>= f) c post' := by
  have first : Ends (Session.stmt act) c fun out last => (out = .returned a ∧ last = c') ∨
      (∃ message, out = .threw message ∧ last = c) ∨ (out = .crashed ∧ (last = c ∨ last = c')) := by
    refine Ends.stmt ?_ ?_ ?_ ?_
    · exact Or.inl (by simp [does])
    · exact fun message => Or.inr (Or.inl ⟨message, rfl, rfl⟩)
    · exact Or.inr (Or.inr ⟨rfl, Or.inl rfl⟩)
    · exact Or.inr (Or.inr ⟨rfl, Or.inr (by simp [does])⟩)
  refine first.bind ?_ ?_ ?_
  · rintro b last (⟨⟨⟩, rfl⟩ | ⟨_, ⟨⟩, _⟩ | ⟨⟨⟩, _⟩)
    exact next
  · rintro message last (⟨⟨⟩, _⟩ | ⟨_, _, rfl⟩ | ⟨⟨⟩, _⟩)
    exact fails message
  · rintro last (⟨⟨⟩, _⟩ | ⟨_, ⟨⟩, _⟩ | ⟨_, rfl | rfl⟩)
    · exact before
    · exact behind

theorem Ends.surely_bind {f : Unit → Session δ β} {act : Connection δ → Connection δ}
    (next : Ends (f ()) (act c) post') (before : post' .crashed c) (behind : post' .crashed (act c)) :
    Ends (Session.surely act >>= f) c post' := by
  have first : Ends (Session.surely act) c fun out last => (out = .returned () ∧ last = act c) ∨
      (out = .crashed ∧ (last = c ∨ last = act c)) :=
    Ends.surely (Or.inl ⟨rfl, rfl⟩) (Or.inr ⟨rfl, Or.inl rfl⟩) (Or.inr ⟨rfl, Or.inr rfl⟩)
  refine first.bind ?_ ?_ ?_
  · rintro _ last (⟨_, rfl⟩ | ⟨⟨⟩, _⟩)
    exact next
  · rintro message last (⟨⟨⟩, _⟩ | ⟨⟨⟩, _⟩)
  · rintro last (⟨⟨⟩, _⟩ | ⟨_, rfl | rfl⟩)
    · exact before
    · exact behind

theorem Ends.inTransaction {f : Bool → Session δ β} (h : Ends (f c.working.isSome) c post') :
    Ends (Session.inTransaction >>= f) c post' := h

end Ends

/-! ## Without interruption -/

/-- The program returns when nothing befalls it. -/
def Calm (m : Session δ α) (c : Connection δ) (a : α) (c' : Connection δ) : Prop :=
  m c [] = (.returned a, c', [])

section Calm

variable {m : Session δ α} {f : α → Session δ β} {c c' c'' : Connection δ} {a : α} {b : β}

theorem Calm.bind (first : Calm m c a c') (second : Calm (f a) c' b c'') : Calm (m >>= f) c b c'' := by
  unfold Calm at first second ⊢
  simp only [Bind.bind, first, second]

theorem Calm.tryCatch {handler : String → Session δ α} (h : Calm m c a c') :
    Calm (Session.tryCatch m handler) c a c' := by
  unfold Calm at h ⊢
  simp only [Session.tryCatch, h]

theorem Calm.tryFinally {finally_ : Session δ Unit} (h : Calm m c a c') (after : Calm finally_ c' () c'') :
    Calm (Session.tryFinally m finally_) c a c'' :=
  (h.tryCatch).bind (after.bind rfl)

end Calm

/-! ## Programs in a transaction -/

/-- What there is behind a program with the effect, begun in a transaction that sees `d`. -/
def StepPost (effect : Bool → StateT δ (Except String) α) (c : Connection δ) (d : δ) :
    Outcome α → Connection δ → Prop
  | .returned a, c' => ∃ d', effect c.foreignKeys d = .ok (a, d') ∧ c' = { c with working := some d' }
  | .threw _, c' => ∃ d', c' = { c with working := some d' }
  | .crashed, c' => c'.committed = c.committed

/-- In a transaction, the program does to the database what `effect` does, or leaves the transaction
without having done it. -/
structure InStep (m : Session δ α) (effect : Bool → StateT δ (Except String) α) : Prop where
  ends : ∀ c d, c.working = some d → Ends m c (StepPost effect c d)
  calm : ∀ c d a d', c.working = some d → effect c.foreignKeys d = .ok (a, d') →
    Calm m c a { c with working := some d' }

/-- What there is behind a transaction: it has happened, or nothing has. -/
def TransactionPost (effect : Bool → StateT δ (Except String) α) (c : Connection δ) :
    Outcome α → Connection δ → Prop
  | .returned a, c' => ∃ d', effect c.foreignKeys c.committed = .ok (a, d') ∧ c' = { c with committed := d' }
  | .threw _, c' => c' = c
  | .crashed, c' => c'.committed = c.committed ∨
      ∃ a d', effect c.foreignKeys c.committed = .ok (a, d') ∧ c'.committed = d'

namespace InStep

variable {m : Session δ α} {f : α → Session δ β} {c : Connection δ} {d : δ}
variable {effect : Bool → StateT δ (Except String) α} {next : α → Bool → StateT δ (Except String) β}

theorem working_eq (isOpen : c.working = some d) : { c with working := some d } = c := by
  rw [← isOpen]

theorem congr {effect' : Bool → StateT δ (Except String) α} (h : InStep m effect)
    (same : ∀ on d, effect on d = effect' on d) : InStep m effect' := by
  have equal : effect = effect' := by
    funext on d
    exact same on d
  exact equal ▸ h

theorem pure (a : α) : InStep (Pure.pure a : Session δ α) fun _ => Pure.pure a where
  ends c d isOpen := Ends.pure ⟨d, rfl, (working_eq isOpen).symm⟩
  calm c d a' d' isOpen returned := by
    cases returned
    rw [working_eq isOpen]
    rfl

theorem throw (message : String) :
    InStep (Session.throw message : Session δ α) fun _ _ => .error message where
  ends c d isOpen := Ends.throw ⟨d, (working_eq isOpen).symm⟩
  calm c d a d' isOpen returned := by cases returned

theorem bind (first : InStep m effect) (second : ∀ a, InStep (f a) (next a)) :
    InStep (m >>= f) fun on => effect on >>= fun a => next a on where
  ends c d isOpen := by
    refine (first.ends c d isOpen).bind ?_ (fun _ _ ended => ended) (fun _ ended => ended)
    rintro a c' ⟨d', did, rfl⟩
    refine ((second a).ends _ d' rfl).mono fun out c'' ended => ?_
    cases out with
    | returned b =>
        obtain ⟨d'', didNext, rfl⟩ := ended
        exact ⟨d'', except_bind_eq_ok.mpr ⟨_, did, didNext⟩, rfl⟩
    | threw message => exact ended
    | crashed => exact ended
  calm c d b d'' isOpen returned := by
    obtain ⟨⟨a, d'⟩, did, didNext⟩ := except_bind_eq_ok.mp returned
    exact (first.calm c d a d' isOpen did).bind ((second a).calm _ d' b d'' rfl didNext)

theorem ite (condition : Bool) {m' : Session δ α} {effect' : Bool → StateT δ (Except String) α}
    (first : InStep m effect) (second : InStep m' effect') :
    InStep (if condition then m else m') (if condition then effect else effect') := by
  cases condition
  · exact second
  · exact first

theorem statement (effect : Bool → StateT δ (Except String) α) :
    InStep (Session.statement effect) effect where
  ends c d isOpen := by
    have same := working_eq isOpen
    refine Ends.stmt ?_ (fun message => ⟨d, same.symm⟩) rfl ?_
    · simp only [isOpen]
      rcases did : effect c.foreignKeys d with message | ⟨a, d'⟩
      · exact ⟨d, same.symm⟩
      · exact ⟨d', did, rfl⟩
    · simp only [isOpen]
      cases effect c.foreignKeys d <;> rfl
  calm c d a d' isOpen returned := by
    unfold Calm Session.statement stmt
    simp only [isOpen, returned]

theorem inside {f : Bool → Session δ β} {effect : Bool → StateT δ (Except String) β}
    (h : InStep (f true) effect) : InStep (Session.inTransaction >>= f) effect where
  ends c d isOpen := by
    refine Ends.inTransaction ?_
    rw [isOpen]
    exact h.ends c d isOpen
  calm c d b d' isOpen returned := by
    have asks : Calm Session.inTransaction c true c := by
      rw [← Option.isSome_some (a := d), ← isOpen]
      rfl
    exact asks.bind (h.calm c d b d' isOpen returned)

/-- A nested transaction is undone when the program throws. -/
theorem nested (body : InStep m effect) : InStep (transaction m) effect where
  ends c d isOpen := by
    have same := working_eq isOpen
    unfold transaction
    refine Ends.inTransaction ?_
    rw [isOpen, Option.isSome_some, if_pos rfl]
    have runs : Ends (m >>= fun result => release >>= fun _ => Pure.pure result) c
        (StepPost effect c d) := by
      refine (body.ends c d isOpen).bind ?_ (fun _ _ ended => ended) (fun _ ended => ended)
      rintro a _ ⟨d', did, rfl⟩
      exact Ends.stmt_bind rfl (Ends.pure ⟨d', did, rfl⟩) (fun _ => ⟨d', rfl⟩) rfl rfl
    refine Ends.stmt_bind rfl ?_ (fun _ => ⟨d, same.symm⟩) rfl rfl
    refine runs.tryCatch (fun _ _ ended => ended) ?_ (fun _ ended => ended)
    rintro message _ ⟨d', rfl⟩
    exact Ends.inTransaction (Ends.surely_bind (Ends.throw ⟨d, by rw [isOpen]⟩) rfl rfl)
  calm c d a d' isOpen returned := by
    have isSome : c.working.isSome = true := by rw [isOpen, Option.isSome_some]
    have saves : Calm savepoint c (some d) c := by
      rw [← isOpen]
      rfl
    have runs : Calm (m >>= fun result => release >>= fun _ => Pure.pure result) c a
        { c with working := some d' } := (body.calm c d a d' isOpen returned).bind rfl
    have asks : Calm inTransaction c true c := by
      rw [← isSome]
      rfl
    unfold transaction
    refine asks.bind ?_
    rw [if_pos rfl]
    exact saves.bind runs.tryCatch

/-- A transaction around the program happens as a whole or not at all. -/
theorem transaction_ends (body : InStep m effect) (isClosed : c.working = none) :
    Ends (transaction m) c (TransactionPost effect c) := by
  obtain ⟨committed, working, foreignKeys⟩ := c
  cases isClosed
  unfold transaction
  have runs : Ends (m >>= fun result => commit >>= fun _ => Pure.pure result)
      { committed, working := some committed, foreignKeys } fun out c' => match out with
        | .threw _ => ∃ working, c' = { committed, working, foreignKeys }
        | out => TransactionPost effect { committed, working := none, foreignKeys } out c' := by
    refine (body.ends _ committed rfl).bind ?_ ?_ (fun _ ended => Or.inl ended)
    · rintro a _ ⟨d', did, rfl⟩
      exact Ends.stmt_bind rfl (Ends.pure ⟨d', did, rfl⟩) (fun _ => ⟨_, rfl⟩) (Or.inl rfl)
        (Or.inr ⟨a, d', did, rfl⟩)
    · rintro message _ ⟨d', rfl⟩
      exact ⟨_, rfl⟩
  refine Ends.inTransaction (Ends.stmt_bind rfl ?_ (fun _ => rfl) (Or.inl rfl) (Or.inl rfl))
  refine runs.tryCatch (fun _ _ ended => ended) ?_ (fun _ ended => ended)
  rintro message _ ⟨working, rfl⟩
  refine Ends.inTransaction ?_
  cases working with
  | none => exact Ends.throw rfl
  | some d' => exact Ends.surely_bind (Ends.throw rfl) (Or.inl rfl) (Or.inl rfl)

theorem transaction_calm (body : InStep m effect) (isClosed : c.working = none) {a : α} {d' : δ}
    (did : effect c.foreignKeys c.committed = .ok (a, d')) :
    Calm (transaction m) c a { c with committed := d' } := by
  obtain ⟨committed, working, foreignKeys⟩ := c
  cases isClosed
  have runs : Calm (m >>= fun result => commit >>= fun _ => Pure.pure result)
      { committed, working := some committed, foreignKeys } a
      { committed := d', working := none, foreignKeys } :=
    (body.calm { committed, working := some committed, foreignKeys } committed a d' rfl did).bind rfl
  have asks : Calm inTransaction { committed, working := none, foreignKeys } false
      { committed, working := none, foreignKeys } := rfl
  have begins : Calm begin_ { committed, working := none, foreignKeys } ()
      { committed, working := some committed, foreignKeys } := rfl
  unfold transaction
  exact asks.bind (begins.bind runs.tryCatch)

end InStep

end Session

end GhcpConsole
