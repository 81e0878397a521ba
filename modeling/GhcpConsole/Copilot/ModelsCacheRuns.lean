import GhcpConsole.Lib.Machine
import GhcpConsole.Copilot.ModelsCacheWaiters

/-!
# Every run of the models cache

Each event keeps `Sound`; so the cache is sound after every run.
-/

namespace GhcpConsole.Copilot

namespace ModelsState

variable {T : Type} {digest : List String → String} {used : CopilotAuthContext → Prop}
  {s s' : ModelsState T} {r l : Nat}

/-! ## Fetches -/

/-- An entry that is not retired is given the snapshot of its refresh. -/
theorem Sound.store (h : Sound digest used s) {e : Nat} {snapshot : ModelsSnapshot T}
    (hlive : (s.entry e).retired = false) (hr : snapshot.origin < s.refreshes)
    (he : (s.refresh snapshot.origin).entry = e) :
    Sound digest used (s.setEntry e { s.entry e with snapshot := some snapshot }) := by
  have hentry : ∀ e', (s.setEntry e { s.entry e with snapshot := some snapshot }).entry e'
      = { s.entry e' with
        snapshot := if e' = e then some snapshot else (s.entry e').snapshot } := fun e' => by
    rw [setEntry_entry]
    split
    · rename_i he'
      rw [he']
    · rfl
  refine ⟨{
    unique := h.entries.unique
    old := h.entries.old
    owned := fun p hp => ?_
    single := fun p hp q hq => ?_
    blank := fun e' => ?_ }, {
    joined := fun e' r' => ?_
    target := h.refreshes.target
    running := h.refreshes.running
    source := fun e' snapshot' => ?_
    credential := h.refreshes.credential
    after := fun p hp r' => ?_
    past := h.refreshes.past }, h.lookups.rest ⟨rfl, rfl, rfl, Nat.le_refl _, Nat.le_refl _, rfl⟩⟩
  · rw [hentry]
    exact h.entries.owned p hp
  · rw [hentry p.2, hentry q.2]
    exact h.entries.single p hp q hq
  · rw [hentry]
    intro hretired
    by_cases he' : e' = e
    · rw [he'] at hretired
      exact absurd (hlive.symm.trans hretired) (by decide)
    · exact (if_neg he').trans (h.entries.blank e' hretired)
  · rw [hentry]
    exact h.refreshes.joined e' r'
  · rw [hentry]
    intro hsnapshot
    by_cases he' : e' = e
    · obtain rfl := Option.some.inj ((if_pos he').symm.trans hsnapshot)
      exact ⟨hr, he.trans he'.symm⟩
    · exact h.refreshes.source e' snapshot' ((if_neg he').symm.trans hsnapshot)
  · rw [hentry]
    exact h.refreshes.after p hp r'

/-- The promise of a fetch goes on. -/
theorem Sound.setFetch (h : Sound digest used s) (r : Nat) (fetch : Fetch)
    (hfetch : fetch ≠ .running) :
    Sound digest used (s.setRefresh r { s.refresh r with fetch }) :=
  h.change ⟨rfl, rfl, rfl, fun hrunning => absurd hrunning hfetch⟩ rfl rfl (.inl rfl)

theorem Sound.fetched [Identified T] (h : Sound digest used s) {now : Nat}
    {outcome : Except ModelsError (List T)} (hrunning : (s.refresh r).fetch = .running) :
    Sound digest used (s.fetched r now outcome) := by
  have hr := h.refreshes.running r hrunning
  unfold ModelsState.fetched
  dsimp only
  split
  · exact h.setFetch r _ (by simp)
  · exact h.setFetch r _ (by simp)
  · split
    · exact h.setFetch r _ (by simp)
    · have hended := h.setFetch r .ended (by decide)
      split
      · refine (hended.settleModelsRefresh r _ fun snapshot hok => ?_).1
        obtain rfl := Except.ok.inj hok
        exact ⟨rfl, hr⟩
      · rename_i hlive
        refine ((hended.store (Bool.eq_false_iff.mpr hlive) hr ?_).settleModelsRefresh r _
          fun snapshot hok => ?_).1
        · rw [setRefresh_refresh, if_pos rfl]
        · obtain rfl := Except.ok.inj hok
          exact ⟨rfl, hr⟩

theorem Sound.timedOut (h : Sound digest used s) : Sound digest used (s.timedOut r) := by
  obtain ⟨hsettled, hfree⟩ := h.settleModelsRefresh r (.error refreshTimedOut)
    fun _ hok => by cases hok
  exact hsettled.change ⟨rfl, rfl, rfl, id⟩ rfl rfl (.inr hfree)

/-! ## Signals, answers and clears -/

theorem Sound.abort (h : Sound digest used s) (l : Nat) (signal : Option Bool) :
    Sound digest used (s.setLookup l
      { s.lookup l with options := { (s.lookup l).options with signal } }) :=
  h.changeLookup ⟨rfl, rfl, rfl, rfl, rfl, rfl, fun _ => id⟩

/-- What a lookup answers it has been given, or fell back on. -/
theorem finish_ok {lookup : ModelsLookup T} {settled : Except ModelsError (ModelsSnapshot T)}
    {snapshot : ModelsSnapshot T} {status : CacheStatus}
    (h : lookup.finish settled = .ok (snapshot, status)) :
    settled = .ok snapshot ∨ lookup.snapshot = some snapshot := by
  unfold ModelsLookup.finish at h
  split at h
  · obtain ⟨rfl, -⟩ := Prod.mk.inj (Except.ok.inj h)
    exact .inl rfl
  · split at h
    · cases h
    · split at h
      · cases h
      · split at h
        · rename_i hstale
          split at h
          · obtain ⟨rfl, -⟩ := Prod.mk.inj (Except.ok.inj h)
            exact .inr hstale
          · cases h
        · cases h

theorem Sound.resume (h : Sound digest used s) {settled : Except ModelsError (ModelsSnapshot T)}
    (hsettled : (s.lookup l).settled.head? = some settled) :
    Sound digest used (s.setLookup l
      { s.lookup l with result := some ((s.lookup l).finish settled) }) := by
  refine h.changeLookup ⟨rfl, rfl, rfl, rfl, rfl, rfl, fun snapshot hsees => ?_⟩
  rcases hsees with hstale | hmem | ⟨status, hresult⟩
  · exact .inl hstale
  · exact .inr (.inl hmem)
  · rcases finish_ok (Option.some.inj hresult) with rfl | hstale
    · exact .inr (.inl (List.mem_of_mem_head? hsettled))
    · exact .inl hstale

theorem Sound.deleteKey (h : Sound digest used s) {cacheKey : String} :
    Sound digest used (s.deleteKey cacheKey) := by
  have hq : Quiet s (s.deleteKey cacheKey) := {
    cache := fun _ => OrderedMap.mem_erase
    entry := fun _ => rfl
    joined := fun _ _ hjoined => ⟨hjoined, rfl, rfl⟩
    entries := rfl
    refreshes := rfl
    lookups := rfl
    time := rfl
    clears := rfl
    copilot := fun _ => rfl
    target := fun _ => rfl
    startedAt := fun _ => rfl
    running := fun _ => id }
  exact ⟨h.entries.quiet hq, h.refreshes.quiet hq,
    h.lookups.quiet hq (fun _ => .refl _) fun _ => ⟨rfl, rfl⟩⟩

/-- An event is over. -/
theorem Sound.tick (h : Sound digest used s) : Sound digest used { s with time := s.time + 1 } where
  entries := { h.entries with }
  refreshes := { h.refreshes with
    past := fun c hc => Nat.lt_succ_of_lt (h.refreshes.past c hc) }
  lookups := h.lookups.rest ⟨rfl, rfl, rfl, Nat.le_refl _, Nat.le_succ _, rfl⟩

/-- Only entries of other identities are left, and no lookup starts after the clear but before the
event is over. -/
theorem Sound.clear (h : Sound digest used s) (identity : String) :
    Sound digest used { s.clearModelsCache identity with time := s.time + 1 } := by
  have hcache : ∀ p ∈ s.modelsCache.filter fun p => (s.entry p.2).identity ≠ identity,
      p ∈ s.modelsCache ∧ (s.entry p.2).identity ≠ identity := fun p hp => by
    obtain ⟨hp, hother⟩ := List.mem_filter.mp hp
    exact ⟨hp, of_decide_eq_true hother⟩
  have hserves : ∀ r l, s.Serves r l →
      Serves { s.clearModelsCache identity with time := s.time + 1 } r l := fun r l hs => by
    refine hs.keep rfl rfl rfl rfl fun c hc => ?_
    rcases List.mem_cons.mp hc with rfl | hc
    · exact .inr (h.lookups.past l)
    · exact .inl hc
  exact {
    entries := {
      unique := fun p hp q hq => h.entries.unique p (hcache p hp).1 q (hcache q hq).1
      old := fun p hp => h.entries.old p (hcache p hp).1
      owned := fun p hp => h.entries.owned p (hcache p hp).1
      single := fun p hp q hq => h.entries.single p (hcache p hp).1 q (hcache q hq).1
      blank := h.entries.blank }
    refreshes := { h.refreshes with
      credential := fun p hp => h.refreshes.credential p (hcache p hp).1
      after := fun p hp r hr hentry c hc hidentity => by
        rcases List.mem_cons.mp hc with rfl | hc
        · exact absurd hidentity.symm (hcache p hp).2
        · exact h.refreshes.after p (hcache p hp).1 r hr hentry c hc hidentity
      past := fun c hc => by
        rcases List.mem_cons.mp hc with rfl | hc
        · exact Nat.lt_succ_self _
        · exact Nat.lt_succ_of_lt (h.refreshes.past c hc) }
    lookups := { h.lookups with
      serves := fun l r hr => by
        obtain ⟨hl, hr', hentry, hs⟩ := h.lookups.serves l r hr
        exact ⟨hl, hr', hentry, hserves r l hs⟩
      sees := fun l snapshot hsees => (h.lookups.sees l snapshot hsees).imp_right (hserves _ l)
      past := fun l => Nat.le_succ_of_le (h.lookups.past l) } }

/-! ## The entry of a lookup -/

/-- What the loop of `modelsCacheEntry` leaves of the state. -/
structure Retired (cacheKey : String) (s s' : ModelsState T) : Prop where
  rest : s' = { s with modelsCache := s'.modelsCache, entry := s'.entry }
  cache : ∀ p ∈ s'.modelsCache, p ∈ s.modelsCache
  own : ∀ p ∈ s.modelsCache, p.1 = cacheKey → p ∈ s'.modelsCache
  entry : ∀ e, s'.entry e = s.entry e
    ∨ s'.entry e = { s.entry e with retired := true, snapshot := none }

theorem Retired.refl (cacheKey : String) (s : ModelsState T) : Retired cacheKey s s :=
  ⟨rfl, fun _ => id, fun _ hp _ => hp, fun _ => .inl rfl⟩

theorem Retired.trans {cacheKey : String} {s₁ s₂ s₃ : ModelsState T} (h : Retired cacheKey s₁ s₂)
    (h' : Retired cacheKey s₂ s₃) : Retired cacheKey s₁ s₃ where
  rest := by
    rw [h'.rest, h.rest]
  cache p hp := h.cache p (h'.cache p hp)
  own p hp hkey := h'.own p (h.own p hp hkey) hkey
  entry e := by
    rcases h'.entry e with h₂ | h₂ <;> rcases h.entry e with h₁ | h₁ <;> simp [h₁, h₂]

theorem Retired.identity {cacheKey : String} (h : Retired cacheKey s s') (e : Nat) :
    (s'.entry e).identity = (s.entry e).identity := by
  rcases h.entry e with he | he <;> rw [he]

theorem Retired.joined {cacheKey : String} (h : Retired cacheKey s s') (e : Nat) :
    (s'.entry e).refresh = (s.entry e).refresh := by
  rcases h.entry e with he | he <;> rw [he]

theorem Retired.retired {cacheKey : String} (h : Retired cacheKey s s') {e : Nat}
    (he : (s.entry e).retired = true) : (s'.entry e).retired = true := by
  rcases h.entry e with hsame | hsame
  · rw [hsame, he]
  · rw [hsame]

theorem retire_retired (s : ModelsState T) (cacheKey identity : String) (p : String × Nat) :
    Retired cacheKey s (s.retire cacheKey identity p)
      ∧ (p.1 ≠ cacheKey → (s.entry p.2).identity = identity →
        ((s.retire cacheKey identity p).entry p.2).retired = true) := by
  unfold retire
  split
  · rename_i hskip
    refine ⟨.refl cacheKey s, fun hkey hidentity => ?_⟩
    rcases hskip with hother | hown
    · exact absurd hidentity hother
    · exact absurd hown hkey
  · rename_i hothers
    obtain ⟨-, hkey⟩ := not_or.mp hothers
    have hentry : ∀ e, (s.setEntry p.2
        { s.entry p.2 with retired := true, snapshot := none }).entry e = s.entry e
        ∨ (s.setEntry p.2 { s.entry p.2 with retired := true, snapshot := none }).entry e
          = { s.entry e with retired := true, snapshot := none } := fun e => by
      rw [setEntry_entry]
      split
      · rename_i he
        rw [he]
        exact .inr rfl
      · exact .inl rfl
    have hretired : ((s.setEntry p.2
        { s.entry p.2 with retired := true, snapshot := none }).entry p.2).retired = true := by
      rw [setEntry_entry, if_pos rfl]
    dsimp only
    split
    · refine ⟨⟨rfl, fun _ => OrderedMap.mem_erase, fun q hq hown => ?_, hentry⟩, fun _ _ => hretired⟩
      exact List.mem_filter.mpr ⟨hq, decide_eq_true fun hsame => hkey (hsame.symm.trans hown)⟩
    · exact ⟨⟨rfl, fun _ => id, fun _ hq _ => hq, hentry⟩, fun _ _ => hretired⟩

theorem foldl_retire (cacheKey identity : String) (ps : List (String × Nat)) (s : ModelsState T) :
    Retired cacheKey s (ps.foldl (fun s p => s.retire cacheKey identity p) s)
      ∧ ∀ p ∈ ps, p.1 ≠ cacheKey → (s.entry p.2).identity = identity →
        ((ps.foldl (fun s p => s.retire cacheKey identity p) s).entry p.2).retired = true := by
  induction ps generalizing s with
  | nil => exact ⟨.refl cacheKey s, fun p hp => by cases hp⟩
  | cons p ps ih =>
      obtain ⟨hfirst, hretired⟩ := retire_retired s cacheKey identity p
      obtain ⟨hrest, hothers⟩ := ih (s.retire cacheKey identity p)
      refine ⟨hfirst.trans hrest, fun q hq hkey hidentity => ?_⟩
      rcases List.mem_cons.mp hq with rfl | hq
      · exact hrest.retired (hretired hkey hidentity)
      · exact hothers q hq hkey ((hfirst.identity q.2).trans hidentity)

/-- After the loop an entry of the identity that is not retired is the lookup's own. -/
theorem retireOthers_retired (s : ModelsState T) (cacheKey identity : String) :
    Retired cacheKey s (s.retireOthers cacheKey identity)
      ∧ ∀ p ∈ (s.retireOthers cacheKey identity).modelsCache,
        ((s.retireOthers cacheKey identity).entry p.2).identity = identity →
        ((s.retireOthers cacheKey identity).entry p.2).retired = false → p.1 = cacheKey := by
  obtain ⟨h, hothers⟩ := foldl_retire cacheKey identity s.modelsCache s
  refine ⟨h, fun p hp hidentity hlive => ?_⟩
  by_contra hkey
  have hretired := hothers p (h.cache p hp) hkey ((h.identity p.2).symm.trans hidentity)
  exact absurd (hlive.symm.trans hretired) (by decide)

theorem Sound.retired {cacheKey : String} (h : Sound digest used s) (hs : Retired cacheKey s s') :
    Sound digest used s' := by
  rw [hs.rest]
  exact {
    entries := {
      unique := fun p hp q hq => h.entries.unique p (hs.cache p hp) q (hs.cache q hq)
      old := fun p hp => h.entries.old p (hs.cache p hp)
      owned := fun p hp => by
        rw [hs.identity]
        exact h.entries.owned p (hs.cache p hp)
      single := fun p hp q hq => by
        rw [hs.identity p.2, hs.identity q.2]
        rcases hs.entry p.2 with hp' | hp' <;> rcases hs.entry q.2 with hq' | hq' <;> rw [hp', hq']
        · exact h.entries.single p (hs.cache p hp) q (hs.cache q hq)
        · exact fun _ _ hlive => by cases hlive
        · exact fun _ hlive => by cases hlive
        · exact fun _ hlive => by cases hlive
      blank := fun e => by
        rcases hs.entry e with he | he <;> rw [he]
        · exact h.entries.blank e
        · exact fun _ => rfl }
    refreshes := { h.refreshes with
      joined := fun e r => by
        rw [hs.joined]
        exact h.refreshes.joined e r
      source := fun e snapshot => by
        rcases hs.entry e with he | he <;> rw [he]
        · exact h.refreshes.source e snapshot
        · exact fun hnone => by cases hnone
      credential := fun p hp => h.refreshes.credential p (hs.cache p hp)
      after := fun p hp r => by
        rw [hs.identity]
        exact h.refreshes.after p (hs.cache p hp) r }
    lookups := h.lookups.rest ⟨rfl, rfl, rfl, Nat.le_refl _, Nat.le_refl _, rfl⟩ }

/-- The retired entry of a lookup comes back, once no other of its identity is left. -/
theorem Sound.revive (h : Sound digest used s) {cacheKey : String} {e : Nat}
    (hmem : (cacheKey, e) ∈ s.modelsCache)
    (halone : ∀ p ∈ s.modelsCache, (s.entry p.2).identity = (s.entry e).identity →
      (s.entry p.2).retired = false → p.1 = cacheKey) :
    Sound digest used (s.setEntry e { s.entry e with retired := false }) := by
  have hentry : ∀ e', (s.setEntry e { s.entry e with retired := false }).entry e'
      = { s.entry e' with retired := if e' = e then false else (s.entry e').retired } := fun e' => by
    rw [setEntry_entry]
    split
    · rename_i he'
      rw [he']
    · rfl
  have hlast : ∀ p ∈ s.modelsCache, (s.entry p.2).identity = (s.entry e).identity →
      (if p.2 = e then false else (s.entry p.2).retired) = false → p.2 = e := by
    intro p hp hidentity hlive
    by_contra hother
    rw [if_neg hother] at hlive
    exact hother ((h.entries.unique p hp _ hmem).mp (halone p hp hidentity hlive))
  exact {
    entries := { h.entries with
      owned := fun p hp => by
        rw [hentry]
        exact h.entries.owned p hp
      single := fun p hp q hq => by
        rw [hentry p.2, hentry q.2]
        intro hidentity hlive hlive'
        have hidentity : (s.entry p.2).identity = (s.entry q.2).identity := hidentity
        by_cases hp' : p.2 = e
        · rw [hp'] at hidentity
          rw [hp', hlast q hq hidentity.symm hlive']
        · by_cases hq' : q.2 = e
          · rw [hq'] at hidentity
            rw [hq', hlast p hp hidentity hlive]
          · exact h.entries.single p hp q hq hidentity ((if_neg hp').symm.trans hlive)
              ((if_neg hq').symm.trans hlive')
      blank := fun e' => by
        rw [hentry]
        intro hretired
        by_cases he' : e' = e
        · exact absurd ((if_pos he').symm.trans hretired) (by decide)
        · exact h.entries.blank e' ((if_neg he').symm.trans hretired) }
    refreshes := { h.refreshes with
      joined := fun e' r => by
        rw [hentry]
        exact h.refreshes.joined e' r
      source := fun e' snapshot => by
        rw [hentry]
        exact h.refreshes.source e' snapshot
      after := fun p hp r => by
        rw [hentry]
        exact h.refreshes.after p hp r }
    lookups := h.lookups.rest ⟨rfl, rfl, rfl, Nat.le_refl _, Nat.le_refl _, rfl⟩ }

/-- A new entry belongs to no refresh. -/
theorem Sound.create (h : Sound digest used s) {copilot : CopilotAuthContext} (hused : used copilot)
    (hnew : modelsCacheKey digest copilot ∉ s.modelsCache.map (·.1))
    (halone : ∀ p ∈ s.modelsCache, (s.entry p.2).identity = copilot.identity →
      (s.entry p.2).retired = false → p.1 = modelsCacheKey digest copilot) :
    Sound digest used (s.create (modelsCacheKey digest copilot) copilot.identity)
      ∧ (modelsCacheKey digest copilot, s.entries)
        ∈ (s.create (modelsCacheKey digest copilot) copilot.identity).modelsCache := by
  have hcache : (s.create (modelsCacheKey digest copilot) copilot.identity).modelsCache
      = s.modelsCache ++ [(modelsCacheKey digest copilot, s.entries)] :=
    OrderedMap.set_of_not_mem hnew
  have hmem : ∀ p ∈ (s.create (modelsCacheKey digest copilot) copilot.identity).modelsCache,
      p ∈ s.modelsCache ∧ p.1 ≠ modelsCacheKey digest copilot ∧ p.2 ≠ s.entries
        ∨ p = (modelsCacheKey digest copilot, s.entries) := by
    intro p hp
    rw [hcache] at hp
    rcases List.mem_append.mp hp with hp | hp
    · refine .inl ⟨hp, fun hkey => hnew ?_, Nat.ne_of_lt (h.entries.old p hp)⟩
      exact hkey ▸ List.mem_map_of_mem hp
    · exact .inr (List.mem_singleton.mp hp)
  have hold : ∀ e, e ≠ s.entries →
      (s.create (modelsCacheKey digest copilot) copilot.identity).entry e = s.entry e :=
    fun e he => Function.update_of_ne he ..
  have hfresh : (s.create (modelsCacheKey digest copilot) copilot.identity).entry s.entries
      = { identity := copilot.identity } := Function.update_self ..
  have hretired : ∀ p ∈ s.modelsCache, (s.entry p.2).identity = copilot.identity →
      (s.entry p.2).retired ≠ false := fun p hp hidentity hlive =>
    hnew (halone p hp hidentity hlive ▸ List.mem_map_of_mem hp)
  refine ⟨{
    entries := {
      unique := fun p hp q hq => ?_
      old := fun p hp => ?_
      owned := fun p hp => ?_
      single := fun p hp q hq => ?_
      blank := fun e => ?_ }
    refreshes := {
      joined := fun e r => ?_
      target := fun r hr => Nat.lt_succ_of_lt (h.refreshes.target r hr)
      running := h.refreshes.running
      source := fun e snapshot => ?_
      credential := fun p hp r hr hentry => ?_
      after := fun p hp r hr hentry => ?_
      past := h.refreshes.past }
    lookups := h.lookups.rest ⟨rfl, rfl, rfl, Nat.le_refl _, Nat.le_refl _, rfl⟩ }, ?_⟩
  · rcases hmem p hp with ⟨hp, hkey, hne⟩ | rfl <;> rcases hmem q hq with ⟨hq, hkey', hne'⟩ | rfl
    · exact h.entries.unique p hp q hq
    · exact ⟨fun hsame => absurd hsame hkey, fun hsame => absurd hsame hne⟩
    · exact ⟨fun hsame => absurd hsame.symm hkey', fun hsame => absurd hsame.symm hne'⟩
    · exact ⟨fun _ => rfl, fun _ => rfl⟩
  · rcases hmem p hp with ⟨hp, -⟩ | rfl
    · exact Nat.lt_succ_of_lt (h.entries.old p hp)
    · exact Nat.lt_succ_self _
  · rcases hmem p hp with ⟨hp, -, hne⟩ | rfl
    · rw [hold p.2 hne]
      exact h.entries.owned p hp
    · exact ⟨copilot, hused, rfl, congrArg ModelsCacheEntry.identity hfresh⟩
  · rcases hmem p hp with ⟨hp, -, hne⟩ | rfl <;> rcases hmem q hq with ⟨hq, -, hne'⟩ | rfl
    · rw [hold p.2 hne, hold q.2 hne']
      exact h.entries.single p hp q hq
    · rw [hold p.2 hne, hfresh]
      exact fun hidentity hlive => absurd hlive (hretired p hp hidentity)
    · rw [hold q.2 hne', hfresh]
      exact fun hidentity _ hlive => absurd hlive (hretired q hq hidentity.symm)
    · exact fun _ _ _ => rfl
  · by_cases he : e = s.entries
    · rw [he, hfresh]
      exact fun hfalse => by cases hfalse
    · rw [hold e he]
      exact h.entries.blank e
  · by_cases he : e = s.entries
    · rw [he, hfresh]
      exact fun hnone => by cases hnone
    · rw [hold e he]
      exact h.refreshes.joined e r
  · by_cases he : e = s.entries
    · rw [he, hfresh]
      exact fun hnone => by cases hnone
    · rw [hold e he]
      exact h.refreshes.source e snapshot
  · rcases hmem p hp with ⟨hp, -⟩ | rfl
    · exact h.refreshes.credential p hp r hr hentry
    · exact absurd (h.refreshes.target r hr) (Nat.not_lt_of_le (Nat.le_of_eq hentry.symm))
  · rcases hmem p hp with ⟨hp, -, hne⟩ | rfl
    · rw [hold p.2 hne]
      exact h.refreshes.after p hp r hr hentry
    · exact absurd (h.refreshes.target r hr) (Nat.not_lt_of_le (Nat.le_of_eq hentry.symm))
  · rw [hcache]
    exact List.mem_append_right _ (List.mem_singleton_self _)

/-- No two credentials have one key. -/
def Distinct (digest : List String → String) (used : CopilotAuthContext → Prop) : Prop :=
  ∀ a b, used a → used b → modelsCacheKey digest a = modelsCacheKey digest b → a.parts = b.parts

theorem Retired.same {cacheKey : String} (h : Retired cacheKey s s') : SameRest s s' := by
  rw [h.rest]
  exact ⟨rfl, rfl, rfl, Nat.le_refl _, Nat.le_refl _, rfl⟩

theorem identity_of_parts {a b : CopilotAuthContext} (h : a.parts = b.parts) :
    a.identity = b.identity := by
  simp only [CopilotAuthContext.parts, List.cons.injEq] at h
  exact h.2.1

/-- The identity of an entry is that of every credential that its key is of. -/
theorem Sound.identity (h : Sound digest used s) (hdistinct : Distinct digest used)
    {copilot : CopilotAuthContext} (hused : used copilot) {e : Nat}
    (hmem : (modelsCacheKey digest copilot, e) ∈ s.modelsCache) :
    (s.entry e).identity = copilot.identity := by
  obtain ⟨owner, howner, hkey, hidentity⟩ := h.entries.owned _ hmem
  rw [hidentity, identity_of_parts (hdistinct owner copilot howner hused hkey)]

theorem Sound.modelsCacheEntry (h : Sound digest used s) (hdistinct : Distinct digest used)
    {copilot : CopilotAuthContext} (hused : used copilot) :
    Sound digest used (s.modelsCacheEntry (modelsCacheKey digest copilot) copilot.identity).1
      ∧ (modelsCacheKey digest copilot,
          (s.modelsCacheEntry (modelsCacheKey digest copilot) copilot.identity).2)
        ∈ (s.modelsCacheEntry (modelsCacheKey digest copilot) copilot.identity).1.modelsCache
      ∧ SameRest s (s.modelsCacheEntry (modelsCacheKey digest copilot) copilot.identity).1 := by
  obtain ⟨hretired, halone⟩ :=
    retireOthers_retired s (modelsCacheKey digest copilot) copilot.identity
  have hothers := h.retired hretired
  unfold ModelsState.modelsCacheEntry
  split
  · rename_i e hexisting
    have hmem := OrderedMap.get_mem hexisting
    split
    · have hkept := hretired.own _ hmem rfl
      refine ⟨hothers.revive hkept fun p hp hidentity => halone p hp ?_, hkept, ?_⟩
      · rw [hidentity, hothers.identity hdistinct hused hkept]
      · exact { hretired.same with }
    · exact ⟨h, hmem, ⟨rfl, rfl, rfl, Nat.le_refl _, Nat.le_refl _, rfl⟩⟩
  · rename_i hnone
    have hnew : modelsCacheKey digest copilot
        ∉ (s.retireOthers (modelsCacheKey digest copilot) copilot.identity).modelsCache.map (·.1) := by
      intro hkey
      obtain ⟨p, hp, hsame⟩ := List.mem_map.mp hkey
      exact OrderedMap.get_eq_none.mp hnone (hsame ▸ List.mem_map_of_mem (hretired.cache p hp))
    obtain ⟨hcreated, hmem⟩ := hothers.create hused hnew halone
    exact ⟨hcreated, hmem, { hretired.same with }⟩

/-! ## Lookups -/

/-- Refresh `r` is for the credential, and its identity has not been cleared since. -/
structure Current (s : ModelsState T) (r : Nat) (copilot : CopilotAuthContext) : Prop where
  started : r < s.refreshes
  parts : (s.refresh r).copilot.parts = copilot.parts
  clears : ∀ c ∈ s.clears, c.2 = copilot.identity → c.1 < (s.refresh r).startedAt

theorem Current.serves (h : s.Current r (s.lookup l).copilot) : s.Serves r l where
  parts := h.parts
  clears c hc hidentity hbetween := by
    have hafter := h.clears c hc hidentity
    omega

/-- Every refresh of an entry that a lookup finds is current. -/
theorem Sound.current (h : Sound digest used s) (hdistinct : Distinct digest used)
    {copilot : CopilotAuthContext} (hused : used copilot) {e : Nat}
    (hmem : (modelsCacheKey digest copilot, e) ∈ s.modelsCache) (hr : r < s.refreshes)
    (hentry : (s.refresh r).entry = e) : s.Current r copilot where
  started := hr
  parts := by
    obtain ⟨hown, hkey⟩ := h.refreshes.credential _ hmem r hr hentry
    exact hdistinct _ _ hown hused hkey
  clears c hc hidentity :=
    h.refreshes.after _ hmem r hr hentry c hc
      (hidentity.trans (h.identity hdistinct hused hmem).symm)

/-- A lookup without a waiter. -/
theorem Sound.record (h : Sound digest used s) (hl : ∀ r, l ∉ (s.refresh r).waiters)
    {lookup : ModelsLookup T} (hrefresh : lookup.refresh = none) (hsettled : lookup.settled = [])
    (hlistening : lookup.listening = false) (hstarted : lookup.startedAt ≤ s.time)
    (hsees : ∀ snapshot, lookup.Sees snapshot → s.Current snapshot.origin lookup.copilot) :
    Sound digest used (s.setLookup l lookup) := by
  have hserves : ∀ r l', l' ≠ l → s.Serves r l' → (s.setLookup l lookup).Serves r l' := by
    intro r l' hl' hs
    refine hs.keep rfl rfl ?_ ?_ fun _ => .inl <;> rw [setLookup_lookup, if_neg hl']
  refine ⟨{ h.entries with }, { h.refreshes with }, {
    serves := fun l' r => ?_
    waits := fun l' r => ?_
    once := fun l' => ?_
    nodup := h.lookups.nodup
    listens := fun l' => ?_
    armed := h.lookups.armed
    sees := fun l' snapshot => ?_
    past := fun l' => ?_ }⟩
  all_goals
    rw [setLookup_lookup]
    split
  · rw [hrefresh]
    exact fun hnone => by cases hnone
  · rename_i hl'
    intro hr
    obtain ⟨hlt, hr', hsame, hs⟩ := h.lookups.serves l' r hr
    exact ⟨hlt, hr', hsame, hserves r l' hl' hs⟩
  · rename_i hl'
    rw [hrefresh, hl']
    exact ⟨fun hmem => absurd hmem (hl r), fun hnone => by cases hnone.1⟩
  · exact h.lookups.waits l' r
  · rw [hsettled]
    exact Nat.zero_le 1
  · exact h.lookups.once l'
  · rw [hlistening]
    exact fun hfalse => by cases hfalse
  · exact h.lookups.listens l'
  · rename_i hl'
    intro hsee
    have hcurrent := hsees snapshot hsee
    refine ⟨hcurrent.started, Current.serves ?_⟩
    rw [setLookup_lookup, if_pos hl']
    exact ⟨hcurrent.started, hcurrent.parts, hcurrent.clears⟩
  · rename_i hl'
    exact fun hsee => (h.lookups.sees l' snapshot hsee).imp_right (hserves _ l' hl')
  · exact hstarted
  · exact h.lookups.past l'

/-- The lookup has found its entry, and nothing there that it may use. -/
structure Found (digest : List String → String) (used : CopilotAuthContext → Prop)
    (s : ModelsState T) (lookup : ModelsLookup T) : Prop where
  used : used lookup.copilot
  key : lookup.cacheKey = modelsCacheKey digest lookup.copilot
  mem : (lookup.cacheKey, lookup.entry) ∈ s.modelsCache
  refresh : lookup.refresh = none
  settled : lookup.settled = []
  result : lookup.result = none
  startedAt : lookup.startedAt ≤ s.time
  snapshot : ∀ snapshot, lookup.snapshot = some snapshot → s.Current snapshot.origin lookup.copilot

theorem Found.sees {lookup : ModelsLookup T} (h : Found digest used s lookup)
    {snapshot : ModelsSnapshot T} (hsees : lookup.Sees snapshot) :
    s.Current snapshot.origin lookup.copilot := by
  rcases hsees with hstale | hmem | ⟨status, hresult⟩
  · exact h.snapshot snapshot hstale
  · rw [h.settled] at hmem
    cases hmem
  · rw [h.result] at hresult
    cases hresult

theorem startRefresh_refresh {lookup : ModelsLookup T} (hr : r ≠ s.refreshes) :
    (s.startRefresh lookup).refresh r = s.refresh r := Function.update_of_ne hr ..

/-- The new refresh starts after all clears so far. -/
theorem Sound.startRefresh (h : Sound digest used s) {lookup : ModelsLookup T}
    (hfound : Found digest used s lookup) : Sound digest used (s.startRefresh lookup)
      ∧ ((s.startRefresh lookup).entry lookup.entry).refresh = some s.refreshes := by
  have hentry : ∀ e, (s.startRefresh lookup).entry e = { s.entry e with
      refresh := if e = lookup.entry then some s.refreshes else (s.entry e).refresh } := fun e => by
    show (setEntry _ _ _).entry e = _
    rw [setEntry_entry]
    split
    · rename_i he
      rw [he]
    · rfl
  have hold : ∀ r, r ≠ s.refreshes → (s.startRefresh lookup).refresh r = s.refresh r :=
    fun _ => startRefresh_refresh
  have hstarted : (s.startRefresh lookup).refresh s.refreshes = {
      cacheKey := lookup.cacheKey
      copilot := lookup.copilot
      entry := lookup.entry
      timer := some modelsRefreshTimeoutMs
      fetch := .running
      startedAt := s.time } := Function.update_self ..
  have hserves : ∀ r l, r < s.refreshes → s.Serves r l → (s.startRefresh lookup).Serves r l := by
    intro r l hr hs
    refine hs.keep ?_ ?_ rfl rfl fun _ => .inl <;> rw [hold r (Nat.ne_of_lt hr)]
  refine ⟨⟨{
    unique := h.entries.unique
    old := h.entries.old
    owned := fun p hp => ?_
    single := fun p hp q hq => ?_
    blank := fun e => ?_ }, {
    joined := fun e r => ?_
    target := fun r hr => ?_
    running := fun r => ?_
    source := fun e snapshot => ?_
    credential := fun p hp r hr => ?_
    after := fun p hp r hr => ?_
    past := h.refreshes.past }, { h.lookups with
    serves := fun l r hr => ?_
    waits := fun l r => ?_
    nodup := fun r => ?_
    armed := fun r => ?_
    sees := fun l snapshot hsees => ?_ }⟩, ?_⟩
  · rw [hentry]
    exact h.entries.owned p hp
  · rw [hentry p.2, hentry q.2]
    exact h.entries.single p hp q hq
  · rw [hentry]
    exact h.entries.blank e
  · rw [hentry]
    intro hjoined
    by_cases he : e = lookup.entry
    · obtain rfl := Option.some.inj ((if_pos he).symm.trans hjoined)
      rw [hstarted]
      exact ⟨Nat.lt_succ_self _, he.symm, rfl, rfl⟩
    · obtain ⟨hr, hbefore⟩ := h.refreshes.joined e r ((if_neg he).symm.trans hjoined)
      rw [hold r (Nat.ne_of_lt hr)]
      exact ⟨Nat.lt_succ_of_lt hr, hbefore⟩
  · by_cases hnew : r = s.refreshes
    · rw [hnew, hstarted]
      exact h.entries.old _ hfound.mem
    · rw [hold r hnew]
      exact h.refreshes.target r (by have : r < s.refreshes + 1 := hr; omega)
  · by_cases hnew : r = s.refreshes
    · exact fun _ => hnew ▸ Nat.lt_succ_self _
    · rw [hold r hnew]
      exact fun hrunning => Nat.lt_succ_of_lt (h.refreshes.running r hrunning)
  · rw [hentry]
    intro hsnapshot
    obtain ⟨hr, hsame⟩ := h.refreshes.source e snapshot hsnapshot
    rw [hold _ (Nat.ne_of_lt hr)]
    exact ⟨Nat.lt_succ_of_lt hr, hsame⟩
  · by_cases hnew : r = s.refreshes
    · rw [hnew, hstarted]
      intro hsame
      have hkey := (h.entries.unique _ hfound.mem p hp).mpr hsame
      exact ⟨hfound.used, hfound.key.symm.trans hkey⟩
    · rw [hold r hnew]
      exact h.refreshes.credential p hp r (by have : r < s.refreshes + 1 := hr; omega)
  · by_cases hnew : r = s.refreshes
    · rw [hnew, hstarted]
      exact fun _ c hc _ => h.refreshes.past c hc
    · rw [hold r hnew, hentry]
      exact h.refreshes.after p hp r (by have : r < s.refreshes + 1 := hr; omega)
  · obtain ⟨hl, hr', hsame, hs⟩ := h.lookups.serves l r hr
    rw [hold r (Nat.ne_of_lt hr')]
    exact ⟨hl, Nat.lt_succ_of_lt hr', hsame, hserves r l hr' hs⟩
  · by_cases hnew : r = s.refreshes
    · rw [hnew, hstarted]
      refine ⟨fun hnone => (by cases hnone), fun hwaiting => ?_⟩
      exact absurd (h.lookups.serves l _ hwaiting.1).2.1 (Nat.lt_irrefl _)
    · rw [hold r hnew]
      exact h.lookups.waits l r
  · by_cases hnew : r = s.refreshes
    · rw [hnew, hstarted]
      exact List.nodup_nil
    · rw [hold r hnew]
      exact h.lookups.nodup r
  · by_cases hnew : r = s.refreshes
    · rw [hnew, hstarted]
      exact fun _ => rfl
    · rw [hold r hnew]
      exact h.lookups.armed r
  · obtain ⟨hr, hs⟩ := h.lookups.sees l snapshot hsees
    exact ⟨Nat.lt_succ_of_lt hr, hserves _ l hr hs⟩
  · rw [hentry]
    exact if_pos rfl

theorem Sound.join (h : Sound digest used s) (hdistinct : Distinct digest used)
    {lookup : ModelsLookup T} (hfound : Found digest used s lookup) (hl : l < s.lookups)
    (hnew : ∀ r, l ∉ (s.refresh r).waiters) (hjoined : (s.entry lookup.entry).refresh = some r) :
    Sound digest used (s.join l r lookup) := by
  obtain ⟨hr, hentry, -, htimer⟩ := h.refreshes.joined _ _ hjoined
  have hmem : (modelsCacheKey digest lookup.copilot, lookup.entry) ∈ s.modelsCache :=
    hfound.key ▸ hfound.mem
  have hrefresh : ∀ r', (s.join l r lookup).refresh r' = if r' = r
      then { s.refresh r with waiters := (s.refresh r).waiters ++ [l] } else s.refresh r' :=
    fun _ => Function.update_apply ..
  have hlookup : ∀ l', (s.join l r lookup).lookup l' = if l' = l
      then { lookup with refresh := some r, listening := lookup.options.signal.isSome }
      else s.lookup l' := fun _ => Function.update_apply ..
  have hq : Quiet s (s.join l r lookup) :=
    .update ⟨rfl, rfl, rfl, rfl, rfl⟩ (fun _ => id) (fun _ => rfl) hrefresh ⟨rfl, rfl, rfl, id⟩
      fun _ _ hsame => ⟨hsame, fun _ => ⟨rfl, rfl⟩⟩
  have hserves : ∀ r' l', l' ≠ l → s.Serves r' l' → (s.join l r lookup).Serves r' l' := by
    intro r' l' hl' hs
    refine hs.keep (hq.copilot r') (hq.startedAt r') ?_ ?_ fun _ => .inl <;> rw [hlookup, if_neg hl']
  have hown : ∀ r', s.Current r' lookup.copilot → (s.join l r lookup).Serves r' l := by
    refine fun r' hcurrent => Current.serves ?_
    rw [hlookup, if_pos rfl]
    exact ⟨hcurrent.started, by rw [hq.copilot]; exact hcurrent.parts,
      by rw [hq.startedAt]; exact hcurrent.clears⟩
  refine ⟨h.entries.quiet hq, h.refreshes.quiet hq, {
    serves := fun l' r' => ?_
    waits := fun l' r' => ?_
    once := fun l' => ?_
    nodup := fun r' => ?_
    listens := fun l' => ?_
    armed := fun r' => ?_
    sees := fun l' snapshot => ?_
    past := fun l' => ?_ }⟩
  · rw [hlookup, hq.target]
    split
    · rename_i hl'
      rintro hr'
      obtain rfl := Option.some.inj hr'
      rw [hl']
      exact ⟨hl, hr, hentry, hown r (h.current hdistinct hfound.used hmem hr hentry)⟩
    · rename_i hl'
      intro hr'
      obtain ⟨hlt, hr'', hsame, hs⟩ := h.lookups.serves l' r' hr'
      exact ⟨hlt, hr'', hsame, hserves r' l' hl' hs⟩
  · have hwaiters : l' ∈ ((s.join l r lookup).refresh r').waiters
        ↔ l' ∈ (s.refresh r').waiters ∨ r' = r ∧ l' = l := by
      rw [hrefresh]
      split
      · rename_i hsame
        rw [hsame]
        simp
      · rename_i hne
        simp [hne]
    rw [hwaiters, hlookup]
    split
    · rename_i hl'
      rw [hl']
      constructor
      · rintro (hmem' | ⟨hsame, -⟩)
        · exact absurd hmem' (hnew r')
        · exact ⟨congrArg some hsame.symm, hfound.settled⟩
      · exact fun hwaiting => .inr ⟨(Option.some.inj hwaiting.1).symm, rfl⟩
    · rename_i hl'
      rw [← h.lookups.waits]
      exact ⟨fun hor => hor.resolve_right fun hown => hl' hown.2, .inl⟩
  · rw [hlookup]
    split
    · exact le_of_eq_of_le (congrArg List.length hfound.settled) (Nat.zero_le 1)
    · exact h.lookups.once l'
  · rw [hrefresh]
    split
    · refine List.nodup_append.mpr ⟨h.lookups.nodup r, List.nodup_singleton l, ?_⟩
      rintro a ha b hb rfl
      exact hnew r (List.mem_singleton.mp hb ▸ ha)
    · exact h.lookups.nodup r'
  · rw [hlookup]
    split
    · exact fun _ => hfound.settled
    · exact h.lookups.listens l'
  · rw [hrefresh]
    split
    · exact fun _ => htimer
    · exact h.lookups.armed r'
  · rw [hlookup]
    split
    · rename_i hl'
      intro hsees
      have hcurrent := hfound.sees hsees
      exact ⟨hcurrent.started, hl' ▸ hown _ hcurrent⟩
    · rename_i hl'
      exact fun hsees => (h.lookups.sees l' snapshot hsees).imp_right (hserves _ l' hl')
  · rw [hlookup]
    split
    · exact hfound.startedAt
    · exact h.lookups.past l'

theorem Sound.refreshModelsSnapshot (h : Sound digest used s) (hdistinct : Distinct digest used)
    {lookup : ModelsLookup T} (hfound : Found digest used s lookup) (hl : l < s.lookups)
    (hnew : ∀ r, l ∉ (s.refresh r).waiters) :
    Sound digest used (s.refreshModelsSnapshot l lookup) := by
  unfold ModelsState.refreshModelsSnapshot
  split
  · rename_i r hjoined
    exact h.join hdistinct hfound hl hnew hjoined
  · obtain ⟨hstarted, hjoined⟩ := h.startRefresh hfound
    refine hstarted.join hdistinct ⟨hfound.used, hfound.key, hfound.mem, hfound.refresh,
      hfound.settled, hfound.result, hfound.startedAt, fun snapshot hsnapshot => ?_⟩ hl
      (fun r hmem => ?_) hjoined
    · obtain ⟨hr, hparts, hclears⟩ := hfound.snapshot snapshot hsnapshot
      have hold : (s.startRefresh lookup).refresh snapshot.origin = s.refresh snapshot.origin :=
        startRefresh_refresh (Nat.ne_of_lt hr)
      exact ⟨Nat.lt_succ_of_lt hr, hold ▸ hparts, hold ▸ hclears⟩
    · exact hnew r ((h.lookups.waits l r).mpr ((hstarted.lookups.waits l r).mp hmem))

theorem Sound.lookupModelsSnapshot (h : Sound digest used s) (hdistinct : Distinct digest used)
    {copilot : CopilotAuthContext} (hused : used copilot) {options : ModelsLookupOptions}
    {now : Nat} : Sound digest used (s.lookupModelsSnapshot digest copilot options now) := by
  have hnext : Sound digest used { s with lookups := s.lookups + 1 } := {
    entries := { h.entries with }
    refreshes := { h.refreshes with }
    lookups := h.lookups.rest ⟨rfl, rfl, rfl, Nat.le_succ _, Nat.le_refl _, rfl⟩ }
  have hnew : ∀ r, s.lookups ∉ (s.refresh r).waiters := fun r hmem =>
    absurd (h.lookups.serves _ r ((h.lookups.waits _ r).mp hmem).1).1 (Nat.lt_irrefl _)
  unfold ModelsState.lookupModelsSnapshot
  dsimp only
  split
  · refine hnext.record hnew rfl rfl rfl (Nat.le_refl _) fun snapshot hsees => ?_
    rcases hsees with hnone | hnone | ⟨_, hnone⟩ <;> cases hnone
  · obtain ⟨hsound, hmem, hrest⟩ := hnext.modelsCacheEntry hdistinct hused
    generalize ModelsState.modelsCacheEntry { s with lookups := s.lookups + 1 }
      (modelsCacheKey digest copilot) copilot.identity = found at hsound hmem hrest
    have hcurrent : ∀ snapshot, (found.1.entry found.2).snapshot = some snapshot →
        found.1.Current snapshot.origin copilot := fun snapshot hsnapshot => by
      obtain ⟨hr, hentry⟩ := hsound.refreshes.source found.2 snapshot hsnapshot
      exact hsound.current hdistinct hused hmem hr hentry
    have hnew' : ∀ r, s.lookups ∉ (found.1.refresh r).waiters := by
      rw [hrest.refresh]
      exact hnew
    have htime : s.time ≤ found.1.time := hrest.time
    split
    · rename_i snapshot hcached
      have hsnapshot : (found.1.entry found.2).snapshot = some snapshot := by
        split at hcached
        · cases hcached
        · exact (Option.filter_eq_some_iff.mp hcached).1
      refine hsound.record hnew' rfl rfl rfl htime fun snapshot' hsees => ?_
      rcases hsees with hstale | hmem | ⟨status, hresult⟩
      · exact hcurrent snapshot' hstale
      · cases hmem
      · cases hresult
        exact hcurrent snapshot hsnapshot
    · refine hsound.refreshModelsSnapshot hdistinct
        ⟨hused, rfl, hmem, rfl, rfl, rfl, htime, hcurrent⟩ ?_ hnew'
      exact Nat.lt_of_lt_of_le (Nat.lt_succ_self _) hrest.lookups

/-! ## Every event, every run -/

theorem Sound.event [Identified T] (h : Sound digest used s) (hdistinct : Distinct digest used)
    {e : ModelsEvent T} (hused : ∀ copilot, e.copilot = some copilot → used copilot)
    (he : s.event digest e = some s') : Sound digest used { s' with time := s'.time + 1 } := by
  cases e with
  | lookup copilot options now =>
      obtain rfl := Option.some.inj he
      exact (h.lookupModelsSnapshot hdistinct (hused copilot rfl)).tick
  | abort l =>
      simp only [ModelsState.event] at he
      split at he
      · have haborted := h.abort l (some true)
        split at he
        · rename_i r hr
          obtain rfl := Option.some.inj he
          split
          · rename_i hlistening
            refine (haborted.leave ?_).tick
            exact (h.lookups.waits l r).mpr ⟨hr, h.lookups.listens l hlistening⟩
          · exact haborted.tick
        · obtain rfl := Option.some.inj he
          exact haborted.tick
      · cases he
  | fetched r now outcome =>
      simp only [ModelsState.event] at he
      split at he
      · rename_i hrunning
        obtain rfl := Option.some.inj he
        exact (h.fetched hrunning).tick
      · cases he
  | failed r =>
      simp only [ModelsState.event] at he
      split at he
      · obtain rfl := Option.some.inj he
        refine ((h.setFetch r .ended (by decide)).settleModelsRefresh r _ ?_).1.tick
        exact fun _ hok => by cases hok
      · cases he
  | timeout r =>
      simp only [ModelsState.event] at he
      split at he
      · obtain rfl := Option.some.inj he
        exact h.timedOut.tick
      · cases he
  | resume l =>
      simp only [ModelsState.event] at he
      split at he
      · rename_i hsettled
        obtain rfl := Option.some.inj he
        exact (h.resume hsettled).tick
      · cases he
  | rejected l =>
      simp only [ModelsState.event] at he
      split at he
      · split at he
        · obtain rfl := Option.some.inj he
          exact h.deleteKey.tick
        · cases he
      · cases he
  | clear identity =>
      obtain rfl := Option.some.inj he
      exact h.clear identity

theorem Sound.initial : Sound digest used ({} : ModelsState T) := by
  have hsees : ∀ snapshot : ModelsSnapshot T, ¬({} : ModelsLookup T).Sees snapshot := by
    rintro snapshot (hnone | hnone | ⟨_, hnone⟩) <;> cases hnone
  exact {
    entries := {
      unique := fun p hp => by cases hp
      old := fun p hp => by cases hp
      owned := fun p hp => by cases hp
      single := fun p hp => by cases hp
      blank := fun e hretired => by cases hretired }
    refreshes := {
      joined := fun e r hnone => by cases hnone
      target := fun r hr => by cases hr
      running := fun r hrunning => by cases hrunning
      source := fun e snapshot hnone => by cases hnone
      credential := fun p hp => by cases hp
      after := fun p hp => by cases hp
      past := fun c hc => by cases hc }
    lookups := {
      serves := fun l r hnone => by cases hnone
      waits := fun l r => ⟨fun hmem => (by cases hmem), fun hnone => (by cases hnone.1)⟩
      once := fun l => Nat.zero_le 1
      nodup := fun r => List.nodup_nil
      listens := fun l hfalse => by cases hfalse
      armed := fun r hnone => absurd rfl hnone
      sees := fun l snapshot hsee => absurd hsee (hsees snapshot)
      past := fun l => Nat.le_refl 0 } }

theorem Sound.run [Identified T] (hdistinct : Distinct digest used) {events : List (ModelsEvent T)}
    (hused : ∀ e ∈ events, ∀ copilot, e.copilot = some copilot → used copilot)
    (hrun : events.foldlM (ModelsState.step digest) {} = some s) : Sound digest used s := by
  refine foldlM_invariant hrun .initial fun e he s s' h hstep => ?_
  obtain ⟨s₁, hevent, rfl⟩ := Option.map_eq_some_iff.mp hstep
  exact h.event hdistinct (hused e he) hevent

/-! ## What the cache promises -/

theorem refreshModelsSnapshot_joined {lookup : ModelsLookup T}
    (h : ((s.refreshModelsSnapshot l lookup).lookup l).refresh = some r) :
    ((s.refreshModelsSnapshot l lookup).entry lookup.entry).refresh = some r := by
  have hjoin : ∀ (s : ModelsState T) (r' : Nat), ((s.join l r' lookup).lookup l).refresh = some r' :=
    fun s r' => by rw [ModelsState.join, setLookup_lookup, if_pos rfl]
  unfold ModelsState.refreshModelsSnapshot at h ⊢
  split at h
  · rename_i r' hjoined
    obtain rfl := Option.some.inj ((hjoin s r').symm.trans h)
    exact hjoined
  · obtain rfl := Option.some.inj ((hjoin _ s.refreshes).symm.trans h)
    show ((setEntry _ _ _).entry lookup.entry).refresh = _
    rw [setEntry_entry, if_pos rfl]

/-- A lookup waits for the refresh of the entry that it has found. -/
theorem lookupModelsSnapshot_joined {copilot : CopilotAuthContext} {options : ModelsLookupOptions}
    {now : Nat} (h : ((s.lookupModelsSnapshot digest copilot options now).lookup s.lookups).refresh
      = some r) :
    ∃ e, ((s.lookupModelsSnapshot digest copilot options now).entry e).refresh = some r := by
  unfold ModelsState.lookupModelsSnapshot at h ⊢
  dsimp only at h ⊢
  split at h
  · rw [setLookup_lookup, if_pos rfl] at h
    cases h
  · rename_i hsignal
    rw [if_neg hsignal]
    split at h
    · rw [setLookup_lookup, if_pos rfl] at h
      cases h
    · exact ⟨_, refreshModelsSnapshot_joined h⟩

/-- A waiter that its refresh times out is settled by that. -/
theorem timedOut_settled (hmem : l ∈ (s.refresh r).waiters) (hsettled : (s.lookup l).settled = []) :
    ((s.timedOut r).lookup l).settled.length = 1 := by
  obtain ⟨modelsCache, -, heq⟩ := settleModelsRefresh_eq s r (.error refreshTimedOut)
  have hlookup : (s.timedOut r).lookup l = (s.lookup l).settle (.error refreshTimedOut) := by
    show (s.settleModelsRefresh r (.error refreshTimedOut)).lookup l = _
    rw [heq]
    exact if_pos hmem
  rw [hlookup]
  show ((s.lookup l).settled ++ [_]).length = 1
  rw [hsettled]
  rfl

/-- What the cache promises at every moment. -/
structure Reliable [Identified T] (digest : List String → String)
    (used : CopilotAuthContext → Prop) (s : ModelsState T) : Prop where
  /-- Of the entries of an identity one at most is not retired. -/
  single : ∀ p ∈ s.modelsCache, ∀ q ∈ s.modelsCache,
    (s.entry p.2).identity = (s.entry q.2).identity → (s.entry p.2).retired = false →
      (s.entry q.2).retired = false → p = q
  held : ∀ p ∈ s.modelsCache, (s.entry p.2).snapshot.isSome = true → (s.entry p.2).retired = false
  /-- A lookup sees a snapshot of its own credential only, and none from before a clear. -/
  visible : ∀ l snapshot, (s.lookup l).Sees snapshot →
    snapshot.origin < s.refreshes ∧ s.Serves snapshot.origin l
  /-- A refresh that the next lookup joins is not cancelled and has not timed out. -/
  joins : ∀ copilot options now s' r, used copilot →
    s.step digest (.lookup copilot options now) = some s' →
      (s'.lookup s.lookups).refresh = some r →
        (s'.refresh r).reason = none ∧ (s'.refresh r).timer.isSome = true
  /-- A waiter has been settled once, or the timer of its refresh does it. -/
  once : ∀ l r, (s.lookup l).refresh = some r → (s.lookup l).settled.length = 1
    ∨ (s.lookup l).settled = [] ∧ ∃ s', s.step digest (.timeout r) = some s'
      ∧ (s'.lookup l).settled.length = 1

theorem Sound.reliable [Identified T] (h : Sound digest used s) (hdistinct : Distinct digest used) :
    Reliable digest used s where
  single p hp q hq hidentity hlive hlive' := by
    have hentry := h.entries.single p hp q hq hidentity hlive hlive'
    exact Prod.ext ((h.entries.unique p hp q hq).mpr hentry) hentry
  held p _ hsnapshot := by
    by_contra hretired
    rw [h.entries.blank p.2 ((Bool.not_eq_false _).mp hretired)] at hsnapshot
    cases hsnapshot
  visible := h.lookups.sees
  joins copilot options now s' r hused hstep hr := by
    obtain rfl := Option.some.inj hstep
    obtain ⟨e, hjoined⟩ := lookupModelsSnapshot_joined hr
    exact ((h.lookupModelsSnapshot hdistinct hused).refreshes.joined e r hjoined).2.2
  once l r hr := by
    by_cases hsettled : (s.lookup l).settled = []
    · have hmem := (h.lookups.waits l r).mpr ⟨hr, hsettled⟩
      refine .inr ⟨hsettled, { s.timedOut r with time := (s.timedOut r).time + 1 }, ?_,
        timedOut_settled hmem hsettled⟩
      have htimer := h.lookups.armed r (List.ne_nil_of_mem hmem)
      show Option.map _ (if (s.refresh r).timer.isSome = true then _ else _) = _
      rw [if_pos htimer]
      rfl
    · have hpos := List.length_pos_iff.mpr hsettled
      have honce := h.lookups.once l
      exact .inl (by omega)

end ModelsState

/-- In every run over credentials that have keys of their own, the cache keeps its promises. -/
theorem models_cache {T : Type} [Identified T] (digest : List String → String)
    (used : CopilotAuthContext → Prop) (hdistinct : ModelsState.Distinct digest used)
    (events : List (ModelsEvent T))
    (hused : ∀ e ∈ events, ∀ copilot, e.copilot = some copilot → used copilot)
    (s : ModelsState T) (hrun : events.foldlM (ModelsState.step digest) {} = some s) :
    ModelsState.Reliable digest used s :=
  (ModelsState.Sound.run hdistinct hused hrun).reliable hdistinct

/-! ## A run -/

def firstToken : CopilotAuthContext where
  identity := "octocat"
  accessToken := "gho_first"
  api := "https://api.githubcopilot.com/"

def secondToken : CopilotAuthContext := { firstToken with accessToken := "gho_second" }

/-- SHA-256 of the parts of the two credentials. -/
def digestOfTokens (parts : List String) : String :=
  if parts = firstToken.parts then
    "d2b25f335c7785f065d1b44329fd041c63bd3ef1b8796812aa6d890938b03761"
  else if parts = secondToken.parts then
    "0061ca5eb5928c25efd084beba5e73f6ee4cfe291bfa948772e78e5ae9ebcdde"
  else ""

/-- The first credential is superseded while its refresh is on the way, the last waiter of the second
leaves, and a clear comes between two refreshes. -/
def tokenRun : List (ModelsEvent ModelInfo) := [
  .lookup firstToken {} 1000,
  .lookup firstToken { signal := some false } 1001,
  .lookup secondToken { signal := some false } 1002,
  .abort 1,
  .fetched 0 1200 (.ok [⟨"gpt-4o", "old"⟩]),
  .abort 2,
  .lookup secondToken {} 1300,
  .fetched 1 1350 (.ok []),
  .failed 1,
  .clear "octocat",
  .lookup secondToken {} 1400,
  .fetched 2 1500 (.ok [⟨"gpt-4o", "before"⟩]),
  .fetched 3 1600 (.ok [⟨"gpt-4o", "after"⟩]),
  .lookup secondToken {} 1700]

theorem models_cache_tokens : ∃ s, tokenRun.foldlM (ModelsState.step digestOfTokens) {} = some s
    ∧ ((s.lookup 5).result.bind Except.toOption).map (·.1.models.map (·.name)) = some ["after"]
    ∧ ModelsState.Reliable digestOfTokens (fun copilot => copilot ∈ [firstToken, secondToken]) s := by
  have hresult : (tokenRun.foldlM (ModelsState.step digestOfTokens) {}).bind (fun s =>
      ((s.lookup 5).result.bind Except.toOption).map (·.1.models.map (·.name)))
      = some ["after"] := by decide +kernel
  obtain ⟨s, hs, hafter⟩ := Option.bind_eq_some_iff.mp hresult
  refine ⟨s, hs, hafter, models_cache digestOfTokens _ ?_ tokenRun ?_ s hs⟩
  · have hkeys : ∀ a ∈ [firstToken, secondToken], ∀ b ∈ [firstToken, secondToken],
        modelsCacheKey digestOfTokens a = modelsCacheKey digestOfTokens b → a.parts = b.parts := by
      decide
    exact fun a b ha hb => hkeys a ha b hb
  · have hcredentials : ∀ copilot ∈ tokenRun.filterMap ModelsEvent.copilot,
        copilot ∈ [firstToken, secondToken] := by decide
    exact fun e he copilot hcopilot => hcredentials copilot
      (List.mem_filterMap.mpr ⟨e, he, hcopilot⟩)

end GhcpConsole.Copilot
