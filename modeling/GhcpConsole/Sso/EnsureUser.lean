import GhcpConsole.Sso.SsoUserNames

/-!
# The SSO user of an identity

`service.ts`: `ensureUser`, with what `usersRepo.ts` reads and writes for it. A call looks the
identity up, hashes the password of a new user, and looks it up again before it creates the user.
Any number of calls may hash at the same time. They settle on one user unless the name that is
looked up is not the name that is created.
-/

namespace GhcpConsole.Sso

structure SsoUserRecord where
  ssoUser : Name
  passwordHash : String
  salt : String
  email : List Char
  ghLogin : Option (List Char)
  deriving DecidableEq

/-- What the calls read of the enterprise and its settings. -/
structure EnsureSettings where
  shortcode : List Char
  defaultUserPassword : Option String
  userPrefix : Name
  emailDomain : List Char
  maxSsoUsers : Option Nat

/-- `lower` of SQLite, and what `COLLATE NOCASE` compares: only ASCII letters change. -/
def sqlLower (text : List Char) : List Char := text.map Char.toLower

/-- The rows of the enterprise. -/
abbrev Users := List SsoUserRecord

def getUser (users : Users) (ssoUser : Name) : Option SsoUserRecord :=
  users.find? fun user => sqlLower user.ssoUser = sqlLower ssoUser

def getUserByGhLogin (users : Users) (ghLogin : List Char) : Option SsoUserRecord :=
  if trim ghLogin = [] then none
  else users.find? fun user => user.ghLogin.map sqlLower = some (sqlLower (trim ghLogin))

def MAX_NAME_SUFFIX : Nat := 100000

/-- `<base>-<i>` -/
def suffixed (base : Name) (i : Nat) : Name := base ++ '-' :: Nat.toDigits 10 i

def nextAvailableSsoUser (letters : LowerCase) (users : Users) (raw userPrefix : List Char) : Name :=
  let base := if sanitizeSsoUser letters raw = [] then userPrefix else sanitizeSsoUser letters raw
  if (getUser users base).isNone then base
  else
    match (List.range' 2 (MAX_NAME_SUFFIX - 2)).find? fun i => (getUser users (suffixed base i)).isNone with
    | some i => suffixed base i
    | none => userPrefix ++ Nat.toDigits 10 (users.length + 1)

inductive EnsureError where
  | limitReached (current limit : Nat)
  | takenConcurrently (identity : List Char)
  deriving DecidableEq

/-- `createUser` with the limit it checks. -/
def createUser (maxSsoUsers : Option Nat) (users : Users) (user : SsoUserRecord) :
    Except EnsureError Users :=
  match maxSsoUsers with
  | some limit =>
      if limit ≤ users.length then .error (.limitReached users.length limit) else .ok (users ++ [user])
  | none => .ok (users ++ [user])

inductive EnsureCall where
  /-- The password of the name is being hashed. -/
  | hashing (attempt : Nat) (ssoUser : Name)
  | returned (user : SsoUserRecord) (passwordForLogin : Option String) (created : Bool)
  | failed (error : EnsureError)
  deriving DecidableEq

def ENSURE_USER_ATTEMPTS : Nat := 3

section Calls

-- Of every call: `verifyPassword`, the enterprise, the identity and the preferred name.
variable (letters : LowerCase) (verifyPassword : String → String → String → Bool)
  (settings : EnsureSettings) (identity : List Char) (preferred : Option (List Char))

def candidates : List Name := ensureSsoUserCandidates letters settings.shortcode identity preferred

def findExistingEnsureUser (users : Users) : Option SsoUserRecord :=
  ((candidates letters settings identity preferred).findSome? (getUser users)).or
    ((uniqueCandidates letters [some identity, preferred] trim).findSome? (getUserByGhLogin users))

/-- The name for a new user. -/
def newName (users : Users) : Name :=
  let base := (candidates letters settings identity preferred).head?.getD
    (ssoUserFromEnsureInput letters settings.shortcode identity)
  nextAvailableSsoUser letters users (if base = [] then identity else base) settings.userPrefix

def resolveInitialPassword (ssoUser : Name) : String :=
  settings.defaultUserPassword.getD (String.ofList ssoUser)

def knownDefaultPassword (user : SsoUserRecord) : Option String :=
  (settings.defaultUserPassword.toList ++ [String.ofList user.ssoUser]).find? fun candidate =>
    candidate ≠ "" && verifyPassword candidate user.passwordHash user.salt

def existingEnsureUserResult (user : SsoUserRecord) : EnsureCall :=
  .returned user (knownDefaultPassword verifyPassword settings user) false

/-- The loop from an attempt on, up to where it awaits a hash. -/
def ensureFrom (attempt : Nat) (users : Users) : EnsureCall :=
  if ENSURE_USER_ATTEMPTS < attempt then .failed (.takenConcurrently identity)
  else match findExistingEnsureUser letters settings identity preferred users with
    | some existing => existingEnsureUserResult verifyPassword settings existing
    | none => .hashing attempt (newName letters settings identity preferred users)

def newUser (ssoUser : Name) (passwordHash salt : String) : SsoUserRecord where
  ssoUser := ssoUser
  passwordHash := passwordHash
  salt := salt
  email := ssoUser ++ '@' :: settings.emailDomain
  ghLogin := none

/-- From the hash to the next await or to the end. -/
def hashed (attempt : Nat) (ssoUser : Name) (passwordHash salt : String) (users : Users) :
    Users × EnsureCall :=
  match findExistingEnsureUser letters settings identity preferred users with
  | some raced => (users, existingEnsureUserResult verifyPassword settings raced)
  | none =>
      if (getUser users ssoUser).isSome then
        (users, ensureFrom letters verifyPassword settings identity preferred (attempt + 1) users)
      else
        let user := newUser settings ssoUser passwordHash salt
        match createUser settings.maxSsoUsers users user with
        | .ok users => (users, .returned user (some (resolveInitialPassword settings ssoUser)) true)
        | .error error => (users, .failed error)

structure EnsureState where
  users : Users
  calls : List EnsureCall

inductive EnsureEvent where
  /-- One more call. -/
  | call
  /-- The hash that a call awaits is there. -/
  | hash (call : Nat) (passwordHash salt : String)

def EnsureState.step (s : EnsureState) : EnsureEvent → EnsureState
  | .call =>
      { s with calls := s.calls ++ [ensureFrom letters verifyPassword settings identity preferred 1 s.users] }
  | .hash call passwordHash salt =>
      match s.calls[call]? with
      | some (.hashing attempt ssoUser) =>
          let (users, after) := hashed letters verifyPassword settings identity preferred attempt
            ssoUser passwordHash salt s.users
          { users, calls := s.calls.set call after }
      | _ => s

def EnsureState.run (users : Users) (events : List EnsureEvent) : EnsureState :=
  events.foldl (EnsureState.step letters verifyPassword settings identity preferred) { users, calls := [] }

/-- However many calls there are, they return one user and create at most one. -/
def Idempotent (users : Users) : Prop :=
  ∀ events,
    let s := EnsureState.run letters verifyPassword settings identity preferred users events
    s.users.length ≤ users.length + 1 ∧
      ∀ user password created, .returned user password created ∈ s.calls →
        ∀ user' password' created', .returned user' password' created' ∈ s.calls → user = user'

/-- A call that finds nobody can create a user. -/
def CanCreate (users : Users) : Prop :=
  (∀ limit, settings.maxSsoUsers = some limit → users.length < limit) ∧
    getUser users (newName letters settings identity preferred users) = none

/-- The name is one of those the calls look up. -/
def LooksUp (ssoUser : Name) : Prop :=
  ∃ candidate ∈ candidates letters settings identity preferred, sqlLower ssoUser = sqlLower candidate

/-- Two calls come to create a user each: nobody is found for the arguments, the name looked up
first ends in a dash, the name created in its place is not looked up, and there is room for two. -/
structure Diverges (users : Users) : Prop where
  missing : findExistingEnsureUser letters settings identity preferred users = none
  dash : ∃ candidate, (candidates letters settings identity preferred).head? = some candidate ∧
    candidate.getLast? = some '-'
  unlisted : ¬ LooksUp letters settings identity preferred
    (newName letters settings identity preferred users)
  first : CanCreate letters settings identity preferred users
  second : ∃ passwordHash salt, CanCreate letters settings identity preferred
    (users ++ [newUser settings (newName letters settings identity preferred users) passwordHash salt])

end Calls

/-! ## Lookups after one more user -/

theorem getUser_append (users : Users) (user : SsoUserRecord) (name : Name) :
    getUser (users ++ [user]) name =
      (getUser users name).or (if sqlLower user.ssoUser = sqlLower name then some user else none) := by
  simp [getUser, List.find?_append, List.find?_singleton]

theorem getUserByGhLogin_append (users : Users) {user : SsoUserRecord} (noLogin : user.ghLogin = none)
    (ghLogin : List Char) :
    getUserByGhLogin (users ++ [user]) ghLogin = getUserByGhLogin users ghLogin := by
  unfold getUserByGhLogin
  split
  · rfl
  · simp [List.find?_append, noLogin]

section Lookups

variable {letters : LowerCase} {settings : EnsureSettings} {identity : List Char}
  {preferred : Option (List Char)} {users : Users}

theorem findExisting_eq_none (missing : findExistingEnsureUser letters settings identity preferred users = none) :
    (∀ candidate ∈ candidates letters settings identity preferred, getUser users candidate = none) ∧
      (uniqueCandidates letters [some identity, preferred] trim).findSome? (getUserByGhLogin users) =
        none := by
  have parts := Option.or_eq_none_iff.mp missing
  exact ⟨List.findSome?_eq_none_iff.mp parts.1, parts.2⟩

/-- A user that is new is found exactly under the names that are looked up. -/
theorem findExisting_append
    (missing : findExistingEnsureUser letters settings identity preferred users = none)
    (user : SsoUserRecord) (noLogin : user.ghLogin = none) :
    (LooksUp letters settings identity preferred user.ssoUser →
      findExistingEnsureUser letters settings identity preferred (users ++ [user]) = some user) ∧
    (¬ LooksUp letters settings identity preferred user.ssoUser →
      findExistingEnsureUser letters settings identity preferred (users ++ [user]) = none) := by
  obtain ⟨byName, byLogin⟩ := findExisting_eq_none missing
  have names : ∀ candidate ∈ candidates letters settings identity preferred,
      getUser (users ++ [user]) candidate =
        if sqlLower user.ssoUser = sqlLower candidate then some user else none := by
    intro candidate mem
    rw [getUser_append, byName candidate mem, Option.none_or]
  have logins : (uniqueCandidates letters [some identity, preferred] trim).findSome?
      (getUserByGhLogin (users ++ [user])) = none := by
    rw [show getUserByGhLogin (users ++ [user]) = getUserByGhLogin users from
      funext (getUserByGhLogin_append users noLogin)]
    exact byLogin
  rw [findExistingEnsureUser, logins, Option.or_none]
  cases found : (candidates letters settings identity preferred).findSome? (getUser (users ++ [user])) with
  | none =>
      refine ⟨fun ⟨candidate, mem, same⟩ => ?_, fun _ => rfl⟩
      have none := List.findSome?_eq_none_iff.mp found candidate mem
      rw [names candidate mem, if_pos same] at none
      cases none
  | some other =>
      obtain ⟨candidate, mem, isOther⟩ := List.exists_of_findSome?_eq_some found
      rw [names candidate mem] at isOther
      split at isOther
      · rename_i same
        exact ⟨fun _ => isOther.symm, fun unlisted => absurd ⟨candidate, mem, same⟩ unlisted⟩
      · cases isOther

/-- Without a dash at its end, the name that is looked up first is the name that is created. -/
theorem newName_of_no_dash
    (missing : findExistingEnsureUser letters settings identity preferred users = none)
    {candidate : Name} (first : (candidates letters settings identity preferred).head? = some candidate)
    (noDash : candidate.getLast? ≠ some '-') :
    newName letters settings identity preferred users = candidate := by
  have mem := List.mem_of_head? first
  have free := (findExisting_eq_none missing).1 candidate mem
  obtain ⟨nonempty, raw, _, rfl⟩ := mem_uniqueFrom letters _ _ mem
  have same : sanitizeSsoUser letters (ssoUserFromEnsureInput letters settings.shortcode raw) =
      ssoUserFromEnsureInput letters settings.shortcode raw := by
    rw [sanitize_candidate, List.rdropWhile_eq_self_iff]
    intro _ dash
    refine noDash ?_
    rw [List.getLast?_eq_getLast_of_ne_nil nonempty]
    simpa using dash
  simp [newName, first, nonempty, nextAvailableSsoUser, same, free]

end Lookups

/-! ## Runs -/

section Runs

variable (letters : LowerCase) (verifyPassword : String → String → String → Bool)
  (settings : EnsureSettings) (identity : List Char) (preferred : Option (List Char))

/-- With these users no call creates one more; `only` is whom the calls return. -/
def Closed (users : Users) (only : SsoUserRecord) : Prop :=
  findExistingEnsureUser letters settings identity preferred users = some only ∨
    (findExistingEnsureUser letters settings identity preferred users = none ∧
      ¬ CanCreate letters settings identity preferred users)

/-- A call that has hashed for this name does not create it. -/
def Stuck (users : Users) (ssoUser : Name) : Prop :=
  (findExistingEnsureUser letters settings identity preferred users).isSome ∨
    (getUser users ssoUser).isSome ∨ ∃ limit, settings.maxSsoUsers = some limit ∧ limit ≤ users.length

/-- A call that creates nobody any more and returns nobody else. -/
def CallSettled (users : Users) (only : SsoUserRecord) : EnsureCall → Prop
  | .hashing _ ssoUser => Stuck letters settings identity preferred users ssoUser
  | .returned user _ _ => user = only
  | .failed _ => True

/-- The users stay as they are from here on. -/
structure Settled (users : Users) (only : SsoUserRecord) (s : EnsureState) : Prop where
  users_eq : s.users = users
  calls : ∀ call ∈ s.calls, CallSettled letters settings identity preferred users only call

/-- Nobody is found, and nobody has been created. -/
structure Open (users : Users) (s : EnsureState) : Prop where
  users_eq : s.users = users
  hashing : ∀ call ∈ s.calls, ∃ attempt,
    call = .hashing attempt (newName letters settings identity preferred users)

variable {letters verifyPassword settings identity preferred} {users : Users} {only : SsoUserRecord}
  {s : EnsureState}

theorem Closed.newName_stuck (closed : Closed letters settings identity preferred users only) :
    Stuck letters settings identity preferred users
      (newName letters settings identity preferred users) := by
  rcases closed with found | ⟨_, full⟩
  · exact Or.inl (by simp [found])
  · refine Or.inr ?_
    by_cases free : getUser users (newName letters settings identity preferred users) = none
    · refine Or.inr ?_
      by_contra room
      refine full ⟨fun limit isLimit => ?_, free⟩
      by_contra reached
      exact room ⟨limit, isLimit, by omega⟩
    · exact Or.inl (Option.isSome_iff_ne_none.mpr free)

theorem Closed.ensureFrom_settled (closed : Closed letters settings identity preferred users only)
    (attempt : Nat) :
    CallSettled letters settings identity preferred users only
      (ensureFrom letters verifyPassword settings identity preferred attempt users) := by
  have stuck := closed.newName_stuck
  unfold ensureFrom
  split
  · trivial
  · rcases closed with found | missing
    · rw [found]
      rfl
    · rw [missing.1]
      exact stuck

variable (verifyPassword)

theorem Closed.hashed_settled (closed : Closed letters settings identity preferred users only)
    {ssoUser : Name} (stuck : Stuck letters settings identity preferred users ssoUser) (attempt : Nat)
    (passwordHash salt : String) :
    (hashed letters verifyPassword settings identity preferred attempt ssoUser passwordHash salt
        users).1 = users ∧
      CallSettled letters settings identity preferred users only
        (hashed letters verifyPassword settings identity preferred attempt ssoUser passwordHash salt
          users).2 := by
  unfold hashed
  cases found : findExistingEnsureUser letters settings identity preferred users with
  | some raced =>
      rcases closed with isOnly | missing
      · exact ⟨rfl, Option.some.inj (found.symm.trans isOnly)⟩
      · rw [missing.1] at found
        cases found
  | none =>
      by_cases taken : (getUser users ssoUser).isSome = true
      · dsimp only
        rw [if_pos taken]
        exact ⟨rfl, closed.ensureFrom_settled _⟩
      · rcases stuck with present | taken' | ⟨limit, isLimit, reached⟩
        · rw [found] at present
          cases present
        · exact absurd taken' taken
        · simp [taken, createUser, isLimit, reached, CallSettled]

variable {verifyPassword}

theorem Closed.step (closed : Closed letters settings identity preferred users only)
    (settled : Settled letters settings identity preferred users only s) (event : EnsureEvent) :
    Settled letters settings identity preferred users only
      (s.step letters verifyPassword settings identity preferred event) := by
  cases event with
  | call =>
      refine ⟨settled.users_eq, fun call mem => ?_⟩
      rcases List.mem_append.mp mem with mem | mem
      · exact settled.calls call mem
      · obtain rfl := List.mem_singleton.mp mem
        rw [settled.users_eq]
        exact closed.ensureFrom_settled 1
  | hash call passwordHash salt =>
      unfold EnsureState.step
      dsimp only
      split
      · rename_i attempt ssoUser isHashing
        obtain ⟨same, after⟩ := closed.hashed_settled verifyPassword
          (settled.calls _ (List.mem_of_getElem? isHashing)) attempt passwordHash salt
        rw [settled.users_eq]
        refine ⟨same, fun call' mem => ?_⟩
        rcases List.mem_or_eq_of_mem_set mem with mem | rfl
        · exact settled.calls call' mem
        · exact after
      · exact settled

theorem hashed_creates (missing : findExistingEnsureUser letters settings identity preferred users = none)
    (first : CanCreate letters settings identity preferred users) (attempt : Nat)
    (passwordHash salt : String) :
    hashed letters verifyPassword settings identity preferred attempt
        (newName letters settings identity preferred users) passwordHash salt users =
      (users ++ [newUser settings (newName letters settings identity preferred users) passwordHash salt],
        .returned
          (newUser settings (newName letters settings identity preferred users) passwordHash salt)
          (some (resolveInitialPassword settings (newName letters settings identity preferred users)))
          true) := by
  have created : ∀ user, createUser settings.maxSsoUsers users user = .ok (users ++ [user]) := by
    intro user
    unfold createUser
    split
    · rename_i limit isLimit
      have room := first.1 limit isLimit
      rw [if_neg (by omega)]
    · rfl
  simp [hashed, missing, first.2, created]

variable (verifyPassword)

/-- The hash that comes first while nobody is found creates the user. -/
theorem Open.step (opened : Open letters settings identity preferred users s)
    (missing : findExistingEnsureUser letters settings identity preferred users = none)
    (first : CanCreate letters settings identity preferred users) (event : EnsureEvent) :
    Open letters settings identity preferred users
        (s.step letters verifyPassword settings identity preferred event) ∨
      ∃ passwordHash salt,
        let user := newUser settings (newName letters settings identity preferred users)
          passwordHash salt
        Settled letters settings identity preferred (users ++ [user]) user
          (s.step letters verifyPassword settings identity preferred event) := by
  cases event with
  | call =>
      refine Or.inl ⟨opened.users_eq, fun call mem => ?_⟩
      rcases List.mem_append.mp mem with mem | mem
      · exact opened.hashing call mem
      · obtain rfl := List.mem_singleton.mp mem
        exact ⟨1, by rw [opened.users_eq, ensureFrom, missing]; rfl⟩
  | hash call passwordHash salt =>
      unfold EnsureState.step
      dsimp only
      split
      · rename_i attempt ssoUser isHashing
        obtain ⟨attempt', same⟩ := opened.hashing _ (List.mem_of_getElem? isHashing)
        obtain ⟨rfl, rfl⟩ := EnsureCall.hashing.inj same
        refine Or.inr ⟨passwordHash, salt, ?_⟩
        rw [opened.users_eq, hashed_creates missing first]
        refine ⟨rfl, fun call' mem => ?_⟩
        rcases List.mem_or_eq_of_mem_set mem with mem | rfl
        · obtain ⟨attempt', rfl⟩ := opened.hashing call' mem
          refine Or.inr (Or.inl ?_)
          rw [getUser_append, first.2]
          simp [newUser]
        · rfl
      · exact Or.inl opened

variable {verifyPassword} (letters settings identity preferred users)

/-- No call creates anybody any more, and at most one user more is there. -/
def Bounded (s : EnsureState) : Prop :=
  ∃ users' only, users'.length ≤ users.length + 1 ∧
    Closed letters settings identity preferred users' only ∧
    Settled letters settings identity preferred users' only s

variable {letters settings identity preferred users}

theorem Bounded.step (bounded : Bounded letters settings identity preferred users s)
    (event : EnsureEvent) :
    Bounded letters settings identity preferred users
      (s.step letters verifyPassword settings identity preferred event) := by
  obtain ⟨users', only, length, closed, settled⟩ := bounded
  exact ⟨users', only, length, closed, closed.step settled event⟩

/-- What keeps the calls from diverging is known when the first user has been created. -/
theorem closed_of_created (agrees : ¬ Diverges letters settings identity preferred users)
    (someName : candidates letters settings identity preferred ≠ [])
    (missing : findExistingEnsureUser letters settings identity preferred users = none)
    (first : CanCreate letters settings identity preferred users) (passwordHash salt : String) :
    let user := newUser settings (newName letters settings identity preferred users) passwordHash salt
    Closed letters settings identity preferred (users ++ [user]) user := by
  intro user
  obtain ⟨found, notFound⟩ := findExisting_append missing user rfl
  by_cases listed : LooksUp letters settings identity preferred user.ssoUser
  · exact Or.inl (found listed)
  · refine Or.inr ⟨notFound listed, fun second => agrees ⟨missing, ?_, listed, first, _, _, second⟩⟩
    obtain ⟨candidate, rest, isCons⟩ := List.exists_cons_of_ne_nil someName
    have isFirst : (candidates letters settings identity preferred).head? = some candidate := by
      rw [isCons]
      rfl
    refine ⟨candidate, isFirst, ?_⟩
    by_contra noDash
    have agree := newName_of_no_dash missing isFirst noDash
    exact listed ⟨candidate, List.mem_of_head? isFirst, congrArg sqlLower agree⟩

theorem run_invariant {I : EnsureState → Prop} (start : I { users, calls := [] })
    (step : ∀ s event, I s → I (s.step letters verifyPassword settings identity preferred event))
    (events : List EnsureEvent) :
    I (.run letters verifyPassword settings identity preferred users events) := by
  unfold EnsureState.run
  generalize ({ users, calls := [] } : EnsureState) = s at start
  induction events generalizing s with
  | nil => exact start
  | cons event events ih => exact ih _ (step s event start)

theorem idempotent_of_invariant
    (holds : ∀ events, Open letters settings identity preferred users
        (.run letters verifyPassword settings identity preferred users events) ∨
      Bounded letters settings identity preferred users
        (.run letters verifyPassword settings identity preferred users events)) :
    Idempotent letters verifyPassword settings identity preferred users := by
  intro events
  rcases holds events with opened | ⟨users', only, length, _, settled⟩
  · refine ⟨by rw [opened.users_eq]; omega, fun user _ _ mem => ?_⟩
    obtain ⟨_, isHashing⟩ := opened.hashing _ mem
    cases isHashing
  · refine ⟨by rw [settled.users_eq]; exact length, fun user _ _ mem user' _ _ mem' => ?_⟩
    exact (settled.calls _ mem).trans (settled.calls _ mem').symm

theorem bounded_of_closed {only : SsoUserRecord}
    (closed : Closed letters settings identity preferred users only) :
    Bounded letters settings identity preferred users { users, calls := [] } :=
  ⟨users, only, Nat.le_succ _, closed, rfl, fun _ mem => by cases mem⟩

theorem idempotent_of_agreement (agrees : ¬ Diverges letters settings identity preferred users)
    (someName : candidates letters settings identity preferred ≠ []) :
    Idempotent letters verifyPassword settings identity preferred users := by
  by_cases closed : ∃ only, Closed letters settings identity preferred users only
  · obtain ⟨only, closed⟩ := closed
    exact idempotent_of_invariant fun events => Or.inr
      (run_invariant (bounded_of_closed closed) (fun _ event bounded => bounded.step event) events)
  · have missing : findExistingEnsureUser letters settings identity preferred users = none :=
      Option.eq_none_iff_forall_ne_some.mpr fun only found => closed ⟨only, Or.inl found⟩
    have first : CanCreate letters settings identity preferred users := by
      by_contra full
      exact closed ⟨newUser settings [] "" "", Or.inr ⟨missing, full⟩⟩
    refine idempotent_of_invariant (run_invariant (I := fun s =>
      Open letters settings identity preferred users s ∨
        Bounded letters settings identity preferred users s) (Or.inl ⟨rfl, fun _ mem => by cases mem⟩) ?_)
    rintro s event (opened | bounded)
    · rcases opened.step verifyPassword missing first event with
        opened | ⟨passwordHash, salt, settled⟩
      · exact Or.inl opened
      · exact Or.inr ⟨_, _, by simp,
          closed_of_created agrees someName missing first passwordHash salt, settled⟩
    · exact Or.inr (bounded.step event)

variable (verifyPassword)

/-- Two calls one after the other that diverge. -/
theorem two_users_of_diverges (diverges : Diverges letters settings identity preferred users) :
    ∃ events, (EnsureState.run letters verifyPassword settings identity preferred users
      events).users.length = users.length + 2 := by
  obtain ⟨missing, _, unlisted, first, passwordHash, salt, second⟩ := diverges
  have missing' := (findExisting_append missing (newUser settings
    (newName letters settings identity preferred users) passwordHash salt) rfl).2 unlisted
  have starts : ∀ {users}, findExistingEnsureUser letters settings identity preferred users = none →
      ensureFrom letters verifyPassword settings identity preferred 1 users =
        .hashing 1 (newName letters settings identity preferred users) := by
    intro users missing
    rw [ensureFrom, missing]
    rfl
  refine ⟨[.call, .hash 0 passwordHash salt, .call, .hash 1 passwordHash salt], ?_⟩
  simp [EnsureState.run, EnsureState.step, starts missing, hashed_creates missing first,
    starts missing', hashed_creates missing' second]

end Runs

def octoSettings : EnsureSettings where
  shortcode := "octo".toList
  defaultUserPassword := none
  userPrefix := "user".toList
  emailDomain := "example.com".toList
  maxSsoUsers := none

end GhcpConsole.Sso
