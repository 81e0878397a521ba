import GhcpConsole.Readiness.Client

/-!
# What calls are answered

Where the answer of a call comes from, over every run: from a refresh that was in flight at the call or that
the call started, or, if the call is not fresh, from a snapshot of a refresh that is not older than its time
to live (`Answer`). Refreshes only ever gain (`Refresh.Later`), so what is known of an answer stays true.

No step reads the result of a call but those that settle this call. So taking the abortion of a call out of
a run changes nothing but this call (`run_without_abort`).
-/

namespace GhcpConsole.Readiness

variable {ν : Type} {letters : LowerCase} {options : EnterpriseReadinessOptions}
variable {s s' : ReadinessState ν} {r c : Nat}

/-! ## Refreshes -/

/-- What can become of a refresh, at `time`. -/
structure Refresh.Later (time : Nat) (old new : Refresh ν) : Prop where
  startedAt : new.startedAt = old.startedAt
  sso : ∀ answer, old.sso = some answer → new.sso = some answer
  login : ∀ answer, old.login = some answer → new.login = some answer
  snapshot : ∀ snapshot, old.snapshot = some snapshot → new.snapshot = some snapshot
  settledAt : new.settledAt = old.settledAt ∨ old.settledAt = none ∧ new.settledAt = some time

theorem Refresh.Later.refl (time : Nat) (refresh : Refresh ν) : refresh.Later time refresh :=
  ⟨rfl, fun _ => id, fun _ => id, fun _ => id, .inl rfl⟩

theorem Refresh.later_answer (time : Nat) (refresh : Refresh ν) (peer : ReadinessPeer) (answer : PeerAnswer ν) :
    refresh.Later time (refresh.answer peer answer) := by
  cases peer with
  | sso => exact ⟨rfl, fun _ h => by rw [Refresh.answer, h, Option.some_or], fun _ => id, fun _ => id, .inl rfl⟩
  | login => exact ⟨rfl, fun _ => id, fun _ h => by rw [Refresh.answer, h, Option.some_or], fun _ => id, .inl rfl⟩

/-- The snapshot is what the answers of the peers come to. -/
structure Computed (letters : LowerCase) (options : EnterpriseReadinessOptions) (refresh : Refresh ν)
    (snapshot : ReadinessSnapshot) (sso login : PeerAnswer ν) : Prop where
  readSso : refresh.sso = some sso
  readLogin : refresh.login = some login
  results : snapshot.results = resultsOf letters options sso.listing login.listing snapshot.checkedAt

theorem Computed.later {time : Nat} {old new : Refresh ν} {snapshot : ReadinessSnapshot}
    {sso login : PeerAnswer ν} (later : old.Later time new)
    (h : Computed letters options old snapshot sso login) : Computed letters options new snapshot sso login :=
  ⟨later.sso _ h.readSso, later.login _ h.readLogin, h.results⟩

/-- The refresh was in flight when the call was made, or the call has started it. -/
structure Running (refresh : Refresh ν) (r : Nat) (call : Call) : Prop where
  since : call.inFlight = some r ∨ call.startedAt ≤ refresh.startedAt
  unsettled : ∀ time, refresh.settledAt = some time → call.startedAt < time

theorem Running.later {time : Nat} {old new : Refresh ν} {call : Call} (later : old.Later time new)
    (before : call.startedAt < time) (h : Running old r call) : Running new r call where
  since := later.startedAt ▸ h.since
  unsettled at_ settled := by
    rcases later.settledAt with same | ⟨_, now⟩
    · exact h.unsettled at_ (same ▸ settled)
    · rw [now] at settled
      exact Option.some.inj settled ▸ before

/-! ## Answers -/

/-- Where the answer of a call comes from. -/
structure Answer (options : EnterpriseReadinessOptions) (s : ReadinessState ν) (call : Call)
    (result : EnterpriseReadinessDto) (r : Nat) (snapshot : ReadinessSnapshot) : Prop where
  known : r < s.refreshes
  landed : (s.refresh r).snapshot = some snapshot
  isResult : result = snapshot.result call.enterpriseId
  source : (call.refresh = some r ∧ Running (s.refresh r) r call) ∨
    (call.fresh = false ∧ call.clock < snapshot.checkedAt + ttlMs options result)

/-- What is known of a call. -/
structure CallKnown (options : EnterpriseReadinessOptions) (s : ReadinessState ν) (c : Nat) : Prop where
  past : ∀ r, (s.call c).refresh = some r → (s.call c).startedAt < s.time
  waiting : ∀ r, (s.call c).refresh = some r → r < s.refreshes ∧ Running (s.refresh r) r (s.call c)
  answered : ∀ result, (s.call c).result = some (.answered result) →
    ∃ r snapshot, Answer options s (s.call c) result r snapshot

/-- What holds of the client after any events. -/
structure Inv (letters : LowerCase) (options : EnterpriseReadinessOptions) (s : ReadinessState ν) : Prop where
  refreshing : ∀ r, s.refreshing = some r → r < s.refreshes ∧ (s.refresh r).settledAt = none
  cache : ∀ snapshot, s.snapshot = some snapshot → snapshot.origin < s.refreshes ∧
    (s.refresh snapshot.origin).snapshot = some snapshot
  computed : ∀ r snapshot, (s.refresh r).snapshot = some snapshot →
    ∃ sso login, Computed letters options (s.refresh r) snapshot sso login
  read : ∀ r answer, (s.refresh r).sso = some answer → r < s.refreshes
  calls : ∀ c, CallKnown options s c

/-! ## What one event leaves true -/

/-- The refreshes there were have only gained. -/
structure Grows (s s' : ReadinessState ν) : Prop where
  refreshes : s.refreshes ≤ s'.refreshes
  later : ∀ r < s.refreshes, (s.refresh r).Later s.time (s'.refresh r)
  time : s.time ≤ s'.time

theorem grows_setRefresh {refresh : Refresh ν} (later : (s.refresh r).Later s.time refresh)
    (same : s'.refresh = Function.update s.refresh r refresh) (count : s'.refreshes = s.refreshes)
    (time : s.time ≤ s'.time) : Grows s s' where
  refreshes := count.ge
  later r' _ := by
    rw [same]
    by_cases here : r' = r
    · rw [here, Function.update_self]
      exact later
    · rw [Function.update_of_ne here]
      exact .refl _ _
  time := time

theorem Answer.grows {call : Call} {result : EnterpriseReadinessDto} {snapshot : ReadinessSnapshot}
    (grows : Grows s s') (past : ∀ r, call.refresh = some r → call.startedAt < s.time)
    (h : Answer options s call result r snapshot) : Answer options s' call result r snapshot where
  known := Nat.lt_of_lt_of_le h.known grows.refreshes
  landed := (grows.later r h.known).snapshot _ h.landed
  isResult := h.isResult
  source := h.source.imp (fun ⟨waits, running⟩ => ⟨waits, running.later (grows.later r h.known) (past r waits)⟩) id

theorem CallKnown.grows (grows : Grows s s') (same : s'.call c = s.call c) (h : CallKnown options s c) :
    CallKnown options s' c where
  past r waits := Nat.lt_of_lt_of_le (same ▸ h.past r (same ▸ waits)) grows.time
  waiting r waits := by
    rw [same] at waits ⊢
    obtain ⟨known, running⟩ := h.waiting r waits
    exact ⟨Nat.lt_of_lt_of_le known grows.refreshes, running.later (grows.later r known) (h.past r waits)⟩
  answered result isResult := by
    rw [same] at isResult ⊢
    obtain ⟨r, snapshot, answer⟩ := h.answered result isResult
    exact ⟨r, snapshot, answer.grows grows h.past⟩

theorem grows_same (refresh : s'.refresh = s.refresh) (refreshes : s'.refreshes = s.refreshes)
    (time : s.time ≤ s'.time) : Grows s s' where
  refreshes := refreshes.ge
  later _ _ := refresh ▸ .refl _ _
  time := time

@[simp] theorem answer_snapshot (refresh : Refresh ν) (peer : ReadinessPeer) (answer : PeerAnswer ν) :
    (refresh.answer peer answer).snapshot = refresh.snapshot := by cases peer <;> rfl

@[simp] theorem answer_settledAt (refresh : Refresh ν) (peer : ReadinessPeer) (answer : PeerAnswer ν) :
    (refresh.answer peer answer).settledAt = refresh.settledAt := by cases peer <;> rfl

/-- A refresh that has landed is one of those that were started. -/
theorem Inv.known (h : Inv letters options s) {snapshot : ReadinessSnapshot}
    (landed : (s.refresh r).snapshot = some snapshot) : r < s.refreshes := by
  obtain ⟨sso, login, computed⟩ := h.computed r snapshot landed
  exact h.read r sso computed.readSso

theorem Inv.clear (h : Inv letters options s) : Inv letters options s.clear where
  refreshing := h.refreshing
  cache _ isSnapshot := by cases isSnapshot
  computed := h.computed
  read := h.read
  calls c :=
    have grows : Grows s s.clear := grows_same rfl rfl le_rfl
    (h.calls c).grows grows rfl

theorem Inv.clock (h : Inv letters options s) (now : Nat) : Inv letters options { s with now } where
  refreshing := h.refreshing
  cache := h.cache
  computed := h.computed
  read := h.read
  calls c :=
    have grows : Grows s { s with now } := grows_same rfl rfl le_rfl
    (h.calls c).grows grows rfl

theorem Inv.answer (h : Inv letters options s) (known : r < s.refreshes) (peer : ReadinessPeer)
    (answer : PeerAnswer ν) : Inv letters options (s.setRefresh r ((s.refresh r).answer peer answer)) := by
  have later := (s.refresh r).later_answer s.time peer answer
  have grows : Grows s (s.setRefresh r ((s.refresh r).answer peer answer)) :=
    grows_setRefresh later rfl rfl le_rfl
  have snapshots : ∀ r', ((s.setRefresh r ((s.refresh r).answer peer answer)).refresh r').snapshot =
      (s.refresh r').snapshot ∧ ((s.setRefresh r ((s.refresh r).answer peer answer)).refresh r').settledAt =
      (s.refresh r').settledAt := by
    intro r'
    by_cases here : r' = r
    · simp [ReadinessState.setRefresh, here]
    · simp [ReadinessState.setRefresh, Function.update_of_ne here]
  refine ⟨fun r' isRefreshing => ?_, fun snapshot isSnapshot => ?_, fun r' snapshot landed => ?_,
    fun r' answer' isAnswer => ?_, fun c => (h.calls c).grows grows rfl⟩
  · rw [(snapshots r').2]
    exact h.refreshing r' isRefreshing
  · rw [(snapshots snapshot.origin).1]
    exact h.cache snapshot isSnapshot
  · rw [(snapshots r').1] at landed
    obtain ⟨sso, login, computed⟩ := h.computed r' snapshot landed
    exact ⟨sso, login, computed.later (grows.later r' (h.known landed))⟩
  · by_cases here : r' = r
    · exact here ▸ known
    · simp only [ReadinessState.setRefresh, Function.update_of_ne here] at isAnswer
      exact h.read r' answer' isAnswer

/-- What `compare` changes, if it changes anything. -/
theorem compare_cases (s : ReadinessState ν) (r : Nat) :
    s.compare letters options r = s ∨
      ∃ sso login snapshot, (s.refresh r).snapshot = none ∧ snapshot.origin = r ∧
        Computed letters options { s.refresh r with snapshot := some snapshot } snapshot sso login ∧
        s.compare letters options r =
          { s.setRefresh r { s.refresh r with snapshot := some snapshot } with snapshot := some snapshot } := by
  rw [ReadinessState.compare]
  split
  · rename_i sso login fresh readSso readLogin
    exact .inr ⟨sso, login, _, fresh, rfl, ⟨readSso, readLogin, rfl⟩, rfl⟩
  · exact .inl rfl

theorem Inv.compare (h : Inv letters options s) (r : Nat) : Inv letters options (s.compare letters options r) := by
  rcases compare_cases s r with same | ⟨sso, login, snapshot, fresh, origin, computed, changed⟩
  · rw [same]
    exact h
  · rw [changed]
    have later : (s.refresh r).Later s.time { s.refresh r with snapshot := some snapshot } :=
      ⟨rfl, fun _ => id, fun _ => id, fun _ landed => (nomatch fresh.symm.trans landed), .inl rfl⟩
    have known : r < s.refreshes := h.read r sso computed.readSso
    refine ⟨fun r' isRefreshing => ?_, ?_, fun r' snapshot' landed => ?_, fun r' answer isAnswer => ?_,
      fun c => (h.calls c).grows (grows_setRefresh later rfl rfl le_rfl) rfl⟩
    · obtain ⟨known', unsettled⟩ := h.refreshing r' isRefreshing
      refine ⟨known', ?_⟩
      by_cases here : r' = r
      · simp [ReadinessState.setRefresh, here ▸ unsettled, here]
      · simp [ReadinessState.setRefresh, Function.update_of_ne here, unsettled]
    · rintro _ ⟨⟩
      simp [ReadinessState.setRefresh, origin, known]
    · by_cases here : r' = r
      · subst here
        simp only [ReadinessState.setRefresh, Function.update_self, Option.some.injEq] at landed ⊢
        exact ⟨sso, login, landed ▸ computed⟩
      · simp only [ReadinessState.setRefresh, Function.update_of_ne here] at landed ⊢
        exact h.computed r' snapshot' landed
    · by_cases here : r' = r
      · exact here ▸ known
      · simp only [ReadinessState.setRefresh, Function.update_of_ne here] at isAnswer
        exact h.read r' answer isAnswer

theorem Inv.settle (h : Inv letters options s) (r : Nat) : Inv letters options (s.settle r) := by
  rw [ReadinessState.settle]
  split
  · rename_i lands
    simp only [Bool.and_eq_true, Option.isNone_iff_eq_none] at lands
    have later : (s.refresh r).Later s.time { s.refresh r with settledAt := some s.time } :=
      ⟨rfl, fun _ => id, fun _ => id, fun _ => id, .inr ⟨lands.2, rfl⟩⟩
    have same : ∀ r', ((s.setRefresh r { s.refresh r with settledAt := some s.time }).refresh r').snapshot =
        (s.refresh r').snapshot := by
      intro r'
      by_cases here : r' = r
      · simp [ReadinessState.setRefresh, here]
      · simp [ReadinessState.setRefresh, Function.update_of_ne here]
    have grows : Grows s { s.setRefresh r { s.refresh r with settledAt := some s.time } with
        refreshing := if s.refreshing = some r then none else s.refreshing
        time := s.time + 1 } := grows_setRefresh later rfl rfl (Nat.le_succ _)
    refine ⟨fun r' isRefreshing => ?_, fun snapshot isSnapshot => ?_, fun r' snapshot landed => ?_,
      fun r' answer isAnswer => ?_, fun c => (h.calls c).grows grows rfl⟩
    · dsimp only at isRefreshing
      split at isRefreshing
      · cases isRefreshing
      · rename_i other
        have here : r' ≠ r := fun same => other (same ▸ isRefreshing)
        obtain ⟨known, unsettled⟩ := h.refreshing r' isRefreshing
        exact ⟨known, by simp [ReadinessState.setRefresh, Function.update_of_ne here, unsettled]⟩
    · exact ⟨(h.cache snapshot isSnapshot).1, (same _).trans (h.cache snapshot isSnapshot).2⟩
    · have landed : (s.refresh r').snapshot = some snapshot := (same r').symm.trans landed
      obtain ⟨sso, login, computed⟩ := h.computed r' snapshot landed
      exact ⟨sso, login, computed.later (grows.later r' (h.known landed))⟩
    · by_cases here : r' = r
      · subst here
        obtain ⟨snapshot, landed⟩ := Option.isSome_iff_exists.mp lands.1
        exact h.known landed
      · simp only [ReadinessState.setRefresh, Function.update_of_ne here] at isAnswer
        exact h.read r' answer isAnswer
  · exact h

/-- One call changes, and the refreshes stay as they are. -/
theorem Inv.setCall (h : Inv letters options s) {call : Call} (known : CallKnown options (s.setCall c call) c) :
    Inv letters options (s.setCall c call) where
  refreshing := h.refreshing
  cache := h.cache
  computed := h.computed
  read := h.read
  calls c' := by
    by_cases here : c' = c
    · exact here ▸ known
    · have grows : Grows s (s.setCall c call) := grows_same rfl rfl le_rfl
      exact (h.calls c').grows grows (Function.update_of_ne here ..)

theorem CallKnown.abort (h : CallKnown options s c) : CallKnown options (s.abort c) c := by
  have grows : Grows s (s.abort c) := grows_same rfl rfl le_rfl
  have here : (s.abort c).call c = (s.call c).abort := Function.update_self ..
  unfold Call.abort at here
  split at here
  · rename_i r unanswered waits
    obtain ⟨known, running⟩ := h.waiting r waits
    refine ⟨fun r' _ => ?_, fun r' waits' => ?_, fun result isResult => ?_⟩
    · rw [here]
      exact h.past r waits
    · rw [here] at waits' ⊢
      obtain rfl := Option.some.inj (waits.symm.trans waits')
      exact ⟨known, running.since, running.unsettled⟩
    · rw [here] at isResult
      cases isResult
  · exact h.grows grows here

theorem Inv.abort (h : Inv letters options s) (c : Nat) : Inv letters options (s.abort c) :=
  h.setCall (h.calls c).abort

theorem CallKnown.deliver (h : CallKnown options s c) : CallKnown options (s.deliver c) c := by
  have grows : Grows s (s.deliver c) := grows_same rfl rfl le_rfl
  have here : (s.deliver c).call c = s.awaited (s.call c) := Function.update_self ..
  unfold ReadinessState.awaited at here
  split at here
  · rename_i r unanswered waits
    split at here
    · rename_i settledAt snapshot settled landed
      obtain ⟨known, running⟩ := h.waiting r waits
      refine ⟨fun r' _ => ?_, fun r' waits' => ?_, fun result isResult => ?_⟩
      · rw [here]
        exact h.past r waits
      · rw [here] at waits' ⊢
        obtain rfl := Option.some.inj (waits.symm.trans waits')
        exact ⟨known, running.since, running.unsettled⟩
      · rw [here] at isResult ⊢
        obtain rfl := CallResult.answered.inj (Option.some.inj isResult)
        exact ⟨r, snapshot, known, landed, rfl, .inl ⟨waits, running.since, running.unsettled⟩⟩
    · exact h.grows grows here
  · exact h.grows grows here

theorem Inv.deliver (h : Inv letters options s) (c : Nat) : Inv letters options (s.deliver c) :=
  h.setCall (h.calls c).deliver

theorem Inv.newCall (h : Inv letters options s) {call : Call}
    (known : CallKnown options (s.newCall call) s.calls) : Inv letters options (s.newCall call) where
  refreshing := h.refreshing
  cache := h.cache
  computed := h.computed
  read := h.read
  calls c := by
    by_cases here : c = s.calls
    · exact here ▸ known
    · have grows : Grows s (s.newCall call) := grows_same rfl rfl (Nat.le_succ _)
      exact (h.calls c).grows grows (Function.update_of_ne here ..)

theorem newCall_call (s : ReadinessState ν) (call : Call) : (s.newCall call).call s.calls = call :=
  Function.update_self ..

/-- A new call that waits for the refresh in flight. -/
theorem Inv.wait (h : Inv letters options s) (isRefreshing : s.refreshing = some r) {call : Call}
    (since : call.inFlight = some r ∨ call.startedAt ≤ (s.refresh r).startedAt) (now : call.startedAt = s.time)
    (waits : call.refresh = some r) (unanswered : call.result = none) :
    Inv letters options (s.newCall call) := by
  obtain ⟨known, unsettled⟩ := h.refreshing r isRefreshing
  refine h.newCall ⟨fun r' waits' => ?_, fun r' waits' => ?_, fun result isResult => ?_⟩
  · rw [newCall_call, now]
    exact Nat.lt_succ_self _
  · rw [newCall_call, waits] at waits'
    obtain rfl := Option.some.inj waits'
    rw [newCall_call]
    exact ⟨known, since, fun _ settled => (nomatch unsettled.symm.trans settled)⟩
  · rw [newCall_call, unanswered] at isResult
    cases isResult

theorem Inv.startRefresh (h : Inv letters options s) : Inv letters options s.startRefresh := by
  have same : ∀ r ≠ s.refreshes, s.startRefresh.refresh r = s.refresh r := fun r other =>
    Function.update_of_ne other ..
  have new : s.startRefresh.refresh s.refreshes = { startedAt := s.time } := Function.update_self ..
  have old : ∀ r < s.refreshes, s.startRefresh.refresh r = s.refresh r := fun r known => same r (by omega)
  have grows : Grows s s.startRefresh := ⟨Nat.le_succ _, fun r known => old r known ▸ .refl _ _, le_rfl⟩
  refine ⟨?_, fun snapshot isSnapshot => ?_, fun r snapshot landed => ?_, fun r answer isAnswer => ?_,
    fun c => (h.calls c).grows grows rfl⟩
  · rintro _ ⟨⟩
    exact ⟨Nat.lt_succ_self _, by rw [new]⟩
  · obtain ⟨known, landed⟩ := h.cache snapshot isSnapshot
    exact ⟨Nat.lt_succ_of_lt known, old _ known ▸ landed⟩
  · by_cases here : r = s.refreshes
    · rw [here, new] at landed
      cases landed
    · rw [same r here] at landed ⊢
      exact h.computed r snapshot landed
  · by_cases here : r = s.refreshes
    · rw [here, new] at isAnswer
      cases isAnswer
    · rw [same r here] at isAnswer
      exact Nat.lt_succ_of_lt (h.read r answer isAnswer)

/-- What is found in the cache. -/
theorem cached_eq_some {enterpriseId : String} {result : EnterpriseReadinessDto}
    (found : s.cached options enterpriseId = some result) : ∃ snapshot, s.snapshot = some snapshot ∧
      result = snapshot.result enterpriseId ∧ s.now < snapshot.checkedAt + ttlMs options result := by
  obtain ⟨snapshot, isSnapshot, fresh⟩ := Option.bind_eq_some_iff.mp found
  obtain ⟨isResult, live⟩ := Option.filter_eq_some_iff.mp fresh
  refine ⟨snapshot, isSnapshot, by rw [ReadinessSnapshot.result, isResult, Option.getD_some], ?_⟩
  simpa [ReadinessState.isStale] using live

theorem Inv.readiness (h : Inv letters options s) (enterpriseId : String) (fresh : Bool) :
    Inv letters options (s.readiness options enterpriseId fresh) := by
  unfold ReadinessState.readiness
  dsimp only
  split
  · rename_i result found
    have notFresh : fresh = false := by
      cases fresh with
      | false => rfl
      | true => cases found
    rw [notFresh, if_neg Bool.false_ne_true] at found
    obtain ⟨snapshot, isSnapshot, isResult, live⟩ := cached_eq_some found
    obtain ⟨known, landed⟩ := h.cache snapshot isSnapshot
    refine h.newCall ⟨fun r waits => ?_, fun r waits => ?_, fun result' isResult' => ?_⟩
    · rw [newCall_call] at waits
      cases waits
    · rw [newCall_call] at waits
      cases waits
    · rw [newCall_call] at isResult' ⊢
      obtain rfl := CallResult.answered.inj (Option.some.inj isResult')
      exact ⟨snapshot.origin, snapshot, known, landed, isResult, .inr ⟨notFresh, live⟩⟩
  · split
    · rename_i r isRefreshing
      exact h.wait isRefreshing (.inl isRefreshing) rfl rfl rfl
    · have new : s.startRefresh.refresh s.refreshes = { startedAt := s.time } := Function.update_self ..
      exact h.startRefresh.wait rfl (.inr (by rw [new])) rfl rfl rfl

theorem Inv.step (h : Inv letters options s) (event : ReadinessEvent ν) :
    Inv letters options (step letters options s event) := by
  cases event with
  | readiness enterpriseId fresh => exact h.readiness enterpriseId fresh
  | answer r peer answer =>
      unfold Readiness.step
      dsimp only
      split
      · rename_i known
        exact h.answer known peer answer
      · exact h
  | compare r => exact h.compare r
  | settle r => exact h.settle r
  | deliver c => exact h.deliver c
  | abort c => exact h.abort c
  | clear => exact h.clear
  | clock now => exact h.clock now

theorem inv_initial : Inv letters options ({} : ReadinessState ν) where
  refreshing _ isRefreshing := by cases isRefreshing
  cache _ isSnapshot := by cases isSnapshot
  computed _ _ landed := by cases landed
  read _ _ isAnswer := by cases isAnswer
  calls _ := by
    constructor
    · intro _ waits
      cases waits
    · intro _ waits
      cases waits
    · intro _ isResult
      cases isResult

theorem inv_run (events : List (ReadinessEvent ν)) : Inv letters options (run letters options events) := by
  induction events using List.reverseRecOn with
  | nil => exact inv_initial
  | append_singleton events event ih =>
      rw [run, List.foldl_append]
      exact ih.step event

/-! ## Callers that give up -/

theorem setCall_setCall (s : ReadinessState ν) (a b : Call) : (s.setCall c a).setCall c b = s.setCall c b := by
  simp only [ReadinessState.setCall, Function.update_idem]

theorem setCall_comm (s : ReadinessState ν) {c' : Nat} (other : c' ≠ c) (a b : Call) :
    (s.setCall c a).setCall c' b = (s.setCall c' b).setCall c a := by
  simp only [ReadinessState.setCall, Function.update_comm other]

theorem setCall_self (s : ReadinessState ν) (c : Nat) : s.setCall c (s.call c) = s := by
  simp only [ReadinessState.setCall, Function.update_eq_self]

theorem setCall_call (s : ReadinessState ν) (a : Call) {c' : Nat} (other : c' ≠ c) :
    (s.setCall c a).call c' = s.call c' := Function.update_of_ne other ..

theorem newCall_setCall (s : ReadinessState ν) (c : Nat) (a new : Call) :
    ∃ b, (s.setCall c a).newCall new = (s.newCall new).setCall c b := by
  by_cases here : c = s.calls
  · refine ⟨new, ?_⟩
    subst here
    simp only [ReadinessState.newCall, ReadinessState.setCall, Function.update_idem]
  · refine ⟨a, ?_⟩
    simp only [ReadinessState.newCall, ReadinessState.setCall, Function.update_comm here]

/-- What settles call `c'`, from a state in which call `c` is another. -/
theorem settle_setCall (s : ReadinessState ν) (c : Nat) (a : Call) (c' : Nat) (f : Call → Call) :
    ∃ b, (s.setCall c a).setCall c' (f ((s.setCall c a).call c')) =
      (s.setCall c' (f (s.call c'))).setCall c b := by
  by_cases here : c' = c
  · subst here
    exact ⟨_, by rw [setCall_setCall, setCall_setCall]⟩
  · exact ⟨a, by rw [setCall_call s a here, setCall_comm s here]⟩

variable (letters options) in
/-- What a step does to the rest does not depend on the call `c`. -/
theorem step_setCall (s : ReadinessState ν) (c : Nat) (a : Call) (event : ReadinessEvent ν) :
    ∃ b, step letters options (s.setCall c a) event = (step letters options s event).setCall c b := by
  cases event with
  | readiness enterpriseId fresh =>
      unfold Readiness.step ReadinessState.readiness
      dsimp only
      rw [show (s.setCall c a).cached options enterpriseId = s.cached options enterpriseId from rfl]
      split
      · exact newCall_setCall s c a _
      · rw [show (s.setCall c a).refreshing = s.refreshing from rfl]
        split
        · exact newCall_setCall s c a _
        · exact newCall_setCall s.startRefresh c a _
  | answer r peer answer =>
      unfold Readiness.step
      dsimp only
      rw [show (s.setCall c a).refreshes = s.refreshes from rfl]
      split
      · exact ⟨a, rfl⟩
      · exact ⟨a, rfl⟩
  | compare r =>
      unfold Readiness.step ReadinessState.compare
      dsimp only
      rw [show (s.setCall c a).refresh = s.refresh from rfl]
      split
      · exact ⟨a, rfl⟩
      · exact ⟨a, rfl⟩
  | settle r =>
      unfold Readiness.step ReadinessState.settle
      dsimp only
      rw [show (s.setCall c a).refresh = s.refresh from rfl]
      split
      · exact ⟨a, rfl⟩
      · exact ⟨a, rfl⟩
  | deliver c' => exact settle_setCall s c a c' s.awaited
  | abort c' => exact settle_setCall s c a c' Call.abort
  | clear => exact ⟨a, rfl⟩
  | clock now => exact ⟨a, rfl⟩

/-- Without the abortion of a call, a run comes to the same for everything but this call. -/
theorem run_without_abort (events : List (ReadinessEvent ν)) (c : Nat) :
    ∃ a, run letters options (events.filter fun event => !event.isAbort c) =
      (run letters options events).setCall c a := by
  induction events using List.reverseRecOn with
  | nil => exact ⟨{}, by rw [List.filter_nil]; exact (setCall_self _ c).symm⟩
  | append_singleton events event ih =>
      obtain ⟨a, same⟩ := ih
      have last : run letters options (events ++ [event]) =
          step letters options (run letters options events) event := by
        rw [run, List.foldl_append]
        rfl
      rw [last, List.filter_append]
      cases isAbort : event.isAbort c with
      | true =>
          obtain ⟨b, aborted⟩ : ∃ b, step letters options (run letters options events) event =
              (run letters options events).setCall c b := by
            cases event with
            | abort c' =>
                obtain rfl : c' = c := by simpa [ReadinessEvent.isAbort] using isAbort
                exact ⟨_, rfl⟩
            | _ => cases isAbort
          refine ⟨a, ?_⟩
          rw [List.filter_cons_of_neg (by simp [isAbort]), List.filter_nil, List.append_nil, same, aborted,
            setCall_setCall]
      | false =>
          obtain ⟨b, stepped⟩ := step_setCall letters options (run letters options events) c a event
          refine ⟨b, ?_⟩
          rw [List.filter_cons_of_pos (by simp [isAbort]), List.filter_nil, ← stepped, ← same, run,
            List.foldl_append]
          rfl

/-! ## Runs -/

theorem mem_resultsOf {sso login : PeerListing} {checkedAt : Nat} {entry : String × EnterpriseReadinessDto}
    (mem : entry ∈ resultsOf letters options sso login checkedAt) :
    ∃ enterprise ∈ options.enterprises,
      entry = (enterprise.id, compareEnterprise letters enterprise sso login checkedAt) := by
  rw [resultsOf] at mem
  generalize options.enterprises = enterprises at mem ⊢
  induction enterprises using List.reverseRecOn with
  | nil => cases mem
  | append_singleton enterprises enterprise ih =>
      rw [List.foldl_append] at mem
      rcases OrderedMap.mem_set mem with rfl | before
      · exact ⟨enterprise, by simp, rfl⟩
      · obtain ⟨other, inBefore, isEntry⟩ := ih before
        exact ⟨other, by simp [inBefore], isEntry⟩

/-- The listing of a peer is well formed as a whole and has the enterprise, configured and without blockers,
with the Proxy's GitHub. -/
structure Confirms (letters : LowerCase) (answer : PeerAnswer ν) (enterprise : ProxyEnterprise)
    (row : EnterpriseServiceReadinessDto) : Prop where
  wellFormed : ∃ json rows, answer = .body json ∧ WellFormed json rows ∧ row ∈ rows
  id : row.id = enterprise.id
  configured : row.configured = true
  unblocked : row.blockers = []
  baseUrl : normalizeOrigin letters row.githubBaseUrl =
    normalizeOrigin letters (some enterprise.githubBaseUrl)

theorem PeerAgrees.confirms {answer : PeerAnswer ν} {enterprise : ProxyEnterprise}
    {row : EnterpriseServiceReadinessDto} (agrees : PeerAgrees letters answer.listing enterprise row) :
    Confirms letters answer enterprise row := by
  obtain ⟨rows, isListing, found⟩ := agrees.listed
  cases answer with
  | failed failure => cases isListing
  | threw => cases isListing
  | body json =>
      obtain ⟨list, wellFormed, rfl⟩ := parseListing_eq_ok.mp isListing
      obtain ⟨other, inList, isEntry⟩ := List.mem_map.mp (OrderedMap.get_mem found)
      obtain ⟨isId, rfl⟩ := Prod.mk.inj isEntry
      exact ⟨⟨json, list, rfl, wellFormed, inList⟩, isId, agrees.configured, agrees.unblocked, agrees.baseUrl⟩

/-- The answer of a call, from what the peers have answered in refresh `r`. -/
structure Sound (letters : LowerCase) (options : EnterpriseReadinessOptions) (s : ReadinessState ν)
    (call : Call) (result : EnterpriseReadinessDto) (r : Nat) (snapshot : ReadinessSnapshot)
    (sso login : PeerAnswer ν) : Prop where
  computed : Computed letters options (s.refresh r) snapshot sso login
  isResult : result = snapshot.result call.enterpriseId
  fresh : call.fresh = true → Running (s.refresh r) r call
  cached : result.ready = true →
    Running (s.refresh r) r call ∨ call.clock < snapshot.checkedAt + options.readyTtlMs
  ready : result.ready = true → ∃ enterprise ∈ options.enterprises, enterprise.id = call.enterpriseId ∧
    enterprise.blockers = [] ∧ ∃ ssoRow loginRow, Confirms letters sso enterprise ssoRow ∧
      Confirms letters login enterprise loginRow ∧
      ssoRow.shortcode.getD "" = enterprise.shortcode.getD "" ∧
      (loginRow.slug = none ∨ loginRow.slug = ssoRow.slug)

theorem Answer.sound {call : Call} {result : EnterpriseReadinessDto} {snapshot : ReadinessSnapshot}
    {sso login : PeerAnswer ν} (h : Answer options s call result r snapshot)
    (computed : Computed letters options (s.refresh r) snapshot sso login) :
    Sound letters options s call result r snapshot sso login where
  computed := computed
  isResult := h.isResult
  fresh isFresh := by
    rcases h.source with ⟨_, running⟩ | ⟨notFresh, _⟩
    · exact running
    · rw [isFresh] at notFresh
      cases notFresh
  cached isReady := by
    refine h.source.imp (·.2) fun ⟨_, live⟩ => ?_
    rw [ttlMs, if_pos isReady] at live
    exact live
  ready isReady := by
    have isResult := h.isResult
    rw [ReadinessSnapshot.result] at isResult
    cases found : snapshot.results.get call.enterpriseId with
    | none =>
        rw [found] at isResult
        rw [isResult] at isReady
        cases isReady
    | some entry =>
        rw [found, Option.getD_some] at isResult
        subst isResult
        have mem := OrderedMap.get_mem found
        rw [computed.results] at mem
        obtain ⟨enterprise, inOptions, isEntry⟩ := mem_resultsOf mem
        obtain ⟨isId, rfl⟩ := Prod.mk.inj isEntry
        obtain ⟨unblocked, ssoRow, loginRow, ssoAgrees, loginAgrees, cross⟩ := compareEnterprise_ready.mp isReady
        exact ⟨enterprise, inOptions, isId.symm, unblocked, ssoRow, loginRow, ssoAgrees.confirms,
          loginAgrees.confirms, cross⟩

/-- Every answer of every run is sound, and a caller that gives up changes nothing for the others. -/
theorem readiness_runs (letters : LowerCase) (options : EnterpriseReadinessOptions)
    (events : List (ReadinessEvent ν)) :
    (∀ c result, ((run letters options events).call c).result = some (.answered result) →
      ∃ r snapshot sso login, Sound letters options (run letters options events)
        ((run letters options events).call c) result r snapshot sso login) ∧
    ∀ c, ∃ call, run letters options (events.filter fun event => !event.isAbort c) =
      (run letters options events).setCall c call := by
  refine ⟨fun c result isResult => ?_, run_without_abort events⟩
  have inv : Inv letters options (run letters options events) := inv_run events
  obtain ⟨r, snapshot, answer⟩ := (inv.calls c).answered result isResult
  obtain ⟨sso, login, computed⟩ := inv.computed r snapshot answer.landed
  exact ⟨r, snapshot, sso, login, answer.sound computed⟩

/-! ## A fresh call that joins -/

def oneEnterprise : EnterpriseReadinessOptions where
  enterprises := [{ id := "default", githubBaseUrl := "https://github.com", slug := none, shortcode := some "octo",
                    blockers := [] }]

/-- A listing with the enterprise and the slug that SSO and Login have of it. -/
def slugListing (shortcode : Json Int) : Json Int :=
  .arr [.obj [("id", .str "default"), ("githubBaseUrl", .str "https://github.com"), ("slug", .str "acme"),
    ("shortcode", shortcode), ("configured", .bool true), ("blockers", .arr [])]]

/-- A fresh call is made when SSO has answered the refresh of another call. -/
def joiningEvents : List (ReadinessEvent Int) :=
  [.readiness "default" false, .answer 0 .sso (.body (slugListing (.str "octo"))), .readiness "default" true,
    .answer 0 .login (.body (slugListing .null)), .compare 0, .settle 0, .deliver 1]

/-- The fresh call is answered as ready out of listings that were requested before it, and with a slug that is
not the Proxy's. -/
theorem fresh_call_joins :
    let s := run asciiLetters oneEnterprise joiningEvents
    (s.call 1).fresh = true ∧ (s.call 1).refresh = some 0 ∧
      (s.refresh 0).startedAt < (s.call 1).startedAt ∧
      ∃ result, (s.call 1).result = some (.answered result) ∧ result.ready = true ∧
        result.services.sso.map (·.slug) ≠ result.services.proxy.map (·.slug) ∧
        result.services.login.map (·.shortcode) ≠ result.services.proxy.map (·.shortcode) := by
  refine ⟨rfl, rfl, by decide, _, rfl, ?_⟩
  decide

end GhcpConsole.Readiness
