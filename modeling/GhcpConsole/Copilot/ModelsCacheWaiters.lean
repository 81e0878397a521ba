import GhcpConsole.Copilot.ModelsCache

/-!
# Waiters of the models cache

What a state of the cache is to satisfy, and that settling waiters keeps it. `Entries` is about what
the cache has, `Refreshes` about what entries and refreshes know of each other, `Lookups` about the
waiters. A refresh belongs to one entry for good, and an entry that has left the cache never comes
back; so whatever a closure still does to such an entry, no lookup finds it.
-/

namespace GhcpConsole.Copilot

variable {T : Type}

/-- The lookup has been given the snapshot, or falls back on it. -/
def ModelsLookup.Sees (lookup : ModelsLookup T) (snapshot : ModelsSnapshot T) : Prop :=
  lookup.snapshot = some snapshot ∨ .ok snapshot ∈ lookup.settled
    ∨ ∃ status, lookup.result = some (.ok (snapshot, status))

namespace ModelsState

/-! ## Single changes -/

section Changes

variable (s : ModelsState T) (e r l n : Nat) (cacheKey identity : String)

@[simp] theorem setEntry_entry (entry : ModelsCacheEntry T) :
    (s.setEntry e entry).entry n = if n = e then entry else s.entry n := Function.update_apply ..

@[simp] theorem setRefresh_refresh (refresh : ModelsRefresh) :
    (s.setRefresh r refresh).refresh n = if n = r then refresh else s.refresh n :=
  Function.update_apply ..

@[simp] theorem setLookup_lookup (lookup : ModelsLookup T) :
    (s.setLookup l lookup).lookup n = if n = l then lookup else s.lookup n :=
  Function.update_apply ..

theorem detach_eq : s.detach e r = { s with entry := (s.detach e r).entry } := by
  unfold detach
  split <;> rfl

theorem detach_rest : (s.detach e r).entry n
    = { s.entry n with refresh := ((s.detach e r).entry n).refresh } := by
  unfold detach
  split
  · rw [setEntry_entry]
    split
    · rename_i hn
      rw [hn]
    · rfl
  · rfl

theorem detach_joined {r' : Nat} (h : ((s.detach e r).entry n).refresh = some r') :
    (s.entry n).refresh = some r' ∧ ¬(n = e ∧ r' = r) := by
  unfold detach at h
  split at h
  · rw [setEntry_entry] at h
    by_cases hn : n = e
    · rw [if_pos hn] at h
      cases h
    · rw [if_neg hn] at h
      exact ⟨h, fun hboth => hn hboth.1⟩
  · rename_i hfree
    refine ⟨h, fun hboth => hfree ?_⟩
    rw [← hboth.1, ← hboth.2, h]

theorem detach_congr {s s' : ModelsState T} {e r : Nat} (h : s'.entry = s.entry) :
    (s'.detach e r).entry = (s.detach e r).entry := by
  unfold detach
  rw [h]
  split
  · show Function.update s'.entry e _ = Function.update s.entry e _
    rw [h]
  · exact h

theorem deleteEntry_eq : ∃ modelsCache, (∀ p ∈ modelsCache, p ∈ s.modelsCache)
    ∧ s.deleteEntry cacheKey e = { s with modelsCache } := by
  unfold deleteEntry
  split
  · exact ⟨s.modelsCache.erase cacheKey, fun _ => OrderedMap.mem_erase, rfl⟩
  · exact ⟨s.modelsCache, fun _ h => h, rfl⟩

/-- What a settled refresh leaves: its entry is free, its waiters are gone. -/
theorem settleModelsRefresh_eq (result : Except ModelsError (ModelsSnapshot T)) :
    ∃ modelsCache, (∀ p ∈ modelsCache, p ∈ s.modelsCache)
      ∧ s.settleModelsRefresh r result = { s with
          modelsCache
          entry := (s.detach (s.refresh r).entry r).entry
          refresh := Function.update s.refresh r { s.refresh r with timer := none, waiters := [] }
          lookup := fun l => if l ∈ (s.refresh r).waiters then (s.lookup l).settle result
            else s.lookup l } := by
  unfold settleModelsRefresh
  dsimp only
  rw [detach_eq]
  split
  · obtain ⟨modelsCache, hsub, heq⟩ := deleteEntry_eq
      { s with entry := (s.detach (s.refresh r).entry r).entry } (s.refresh r).entry
      (s.refresh r).cacheKey
    rw [heq]
    exact ⟨modelsCache, hsub, rfl⟩
  · exact ⟨s.modelsCache, fun _ h => h, rfl⟩

/-- What a waiter leaves that is not the last. -/
theorem leave_of_others (h : (s.refresh r).waiters.erase l ≠ []) : s.leave l r = { s with
    refresh := Function.update s.refresh r
      { s.refresh r with waiters := (s.refresh r).waiters.erase l }
    lookup := Function.update s.lookup l ((s.lookup l).settle (.error .aborted)) } := by
  unfold leave
  dsimp only
  rw [if_neg h]
  rfl

/-- What the last waiter leaves: its refresh is cancelled, and the entry is free. -/
theorem leave_of_last (h : (s.refresh r).waiters.erase l = []) :
    ∃ modelsCache, (∀ p ∈ modelsCache, p ∈ s.modelsCache)
      ∧ s.leave l r = { s with
          modelsCache
          entry := (s.detach (s.lookup l).entry r).entry
          refresh := Function.update s.refresh r
            (({ s.refresh r with waiters := [], timer := none } : ModelsRefresh).abort .aborted)
          lookup := Function.update s.lookup l ((s.lookup l).settle (.error .aborted)) } := by
  unfold leave
  dsimp only
  rw [if_pos h, h, detach_eq]
  have hentry : (((s.setRefresh r { s.refresh r with waiters := [] }).setLookup l
      ((s.lookup l).settle (.error .aborted))).detach (s.lookup l).entry r).entry
      = (s.detach (s.lookup l).entry r).entry := detach_congr rfl
  rw [hentry]
  split
  · obtain ⟨modelsCache, hsub, heq⟩ := deleteEntry_eq
      { (s.setRefresh r { s.refresh r with waiters := [] }).setLookup l
        ((s.lookup l).settle (.error .aborted)) with
        entry := (s.detach (s.lookup l).entry r).entry } (s.lookup l).entry (s.lookup l).cacheKey
    rw [heq]
    refine ⟨modelsCache, hsub, ?_⟩
    simp only [setRefresh, setLookup, Function.update_self, Function.update_idem]
  · refine ⟨s.modelsCache, fun _ h => h, ?_⟩
    simp only [setRefresh, setLookup, Function.update_self, Function.update_idem]

end Changes

/-! ## Invariants -/

/-- Refresh `r` is for the credential of lookup `l`, and its identity was not cleared between them. -/
structure Serves (s : ModelsState T) (r l : Nat) : Prop where
  parts : (s.refresh r).copilot.parts = (s.lookup l).copilot.parts
  clears : ∀ c ∈ s.clears, c.2 = (s.lookup l).copilot.identity →
    ¬((s.refresh r).startedAt ≤ c.1 ∧ c.1 < (s.lookup l).startedAt)

structure Entries (digest : List String → String) (used : CopilotAuthContext → Prop)
    (s : ModelsState T) : Prop where
  unique : ∀ p ∈ s.modelsCache, ∀ q ∈ s.modelsCache, p.1 = q.1 ↔ p.2 = q.2
  old : ∀ p ∈ s.modelsCache, p.2 < s.entries
  owned : ∀ p ∈ s.modelsCache, ∃ copilot, used copilot ∧ modelsCacheKey digest copilot = p.1
    ∧ (s.entry p.2).identity = copilot.identity
  single : ∀ p ∈ s.modelsCache, ∀ q ∈ s.modelsCache,
    (s.entry p.2).identity = (s.entry q.2).identity → (s.entry p.2).retired = false →
      (s.entry q.2).retired = false → p.2 = q.2
  blank : ∀ e, (s.entry e).retired = true → (s.entry e).snapshot = none

structure Refreshes (digest : List String → String) (used : CopilotAuthContext → Prop)
    (s : ModelsState T) : Prop where
  joined : ∀ e r, (s.entry e).refresh = some r → r < s.refreshes ∧ (s.refresh r).entry = e
    ∧ (s.refresh r).reason = none ∧ (s.refresh r).timer.isSome = true
  target : ∀ r < s.refreshes, (s.refresh r).entry < s.entries
  running : ∀ r, (s.refresh r).fetch = .running → r < s.refreshes
  source : ∀ e snapshot, (s.entry e).snapshot = some snapshot →
    snapshot.origin < s.refreshes ∧ (s.refresh snapshot.origin).entry = e
  credential : ∀ p ∈ s.modelsCache, ∀ r < s.refreshes, (s.refresh r).entry = p.2 →
    used (s.refresh r).copilot ∧ modelsCacheKey digest (s.refresh r).copilot = p.1
  after : ∀ p ∈ s.modelsCache, ∀ r < s.refreshes, (s.refresh r).entry = p.2 →
    ∀ c ∈ s.clears, c.2 = (s.entry p.2).identity → c.1 < (s.refresh r).startedAt
  past : ∀ c ∈ s.clears, c.1 < s.time

structure Lookups (s : ModelsState T) : Prop where
  serves : ∀ l r, (s.lookup l).refresh = some r → l < s.lookups ∧ r < s.refreshes
    ∧ (s.refresh r).entry = (s.lookup l).entry ∧ s.Serves r l
  waits : ∀ l r, l ∈ (s.refresh r).waiters
    ↔ (s.lookup l).refresh = some r ∧ (s.lookup l).settled = []
  once : ∀ l, (s.lookup l).settled.length ≤ 1
  nodup : ∀ r, (s.refresh r).waiters.Nodup
  listens : ∀ l, (s.lookup l).listening = true → (s.lookup l).settled = []
  armed : ∀ r, (s.refresh r).waiters ≠ [] → (s.refresh r).timer.isSome = true
  sees : ∀ l snapshot, (s.lookup l).Sees snapshot →
    snapshot.origin < s.refreshes ∧ s.Serves snapshot.origin l
  past : ∀ l, (s.lookup l).startedAt ≤ s.time

structure Sound (digest : List String → String) (used : CopilotAuthContext → Prop)
    (s : ModelsState T) : Prop where
  entries : Entries digest used s
  refreshes : Refreshes digest used s
  lookups : Lookups s

theorem Serves.keep {s s' : ModelsState T} {r l : Nat} (h : s.Serves r l)
    (hcopilot : (s'.refresh r).copilot = (s.refresh r).copilot)
    (hstarted : (s'.refresh r).startedAt = (s.refresh r).startedAt)
    (hcopilot' : (s'.lookup l).copilot = (s.lookup l).copilot)
    (hstarted' : (s'.lookup l).startedAt = (s.lookup l).startedAt)
    (hclears : ∀ c ∈ s'.clears, c ∈ s.clears ∨ (s.lookup l).startedAt ≤ c.1) : s'.Serves r l where
  parts := by rw [hcopilot, hcopilot', h.parts]
  clears c hc hidentity := by
    rw [hstarted, hstarted']
    rcases hclears c hc with hold | hlater
    · exact h.clears c hold (hidentity.trans (congrArg _ hcopilot'))
    · omega

/-- Refreshes and lookups are as they were. -/
structure SameRest (s s' : ModelsState T) : Prop where
  refresh : s'.refresh = s.refresh
  refreshes : s'.refreshes = s.refreshes
  lookup : s'.lookup = s.lookup
  lookups : s.lookups ≤ s'.lookups
  time : s.time ≤ s'.time
  clears : s'.clears = s.clears

theorem Lookups.rest {s s' : ModelsState T} (h : Lookups s) (hrest : SameRest s s') : Lookups s' := by
  obtain ⟨hrefresh, hrefreshes, hlookup, hlookups, htime, hclears⟩ := hrest
  have hserves : ∀ r l, s.Serves r l → s'.Serves r l := fun r l hs => by
    refine hs.keep ?_ ?_ ?_ ?_ fun c hc => .inl (hclears ▸ hc)
    · rw [hrefresh]
    · rw [hrefresh]
    · rw [hlookup]
    · rw [hlookup]
  refine {
    serves := fun l r hr => ?_
    waits := by rw [hrefresh, hlookup]; exact h.waits
    once := by rw [hlookup]; exact h.once
    nodup := by rw [hrefresh]; exact h.nodup
    listens := by rw [hlookup]; exact h.listens
    armed := by rw [hrefresh]; exact h.armed
    sees := fun l snapshot hsees => ?_
    past := by rw [hlookup]; exact fun l => Nat.le_trans (h.past l) htime }
  · rw [hlookup] at hr
    obtain ⟨hl, hr', hsame, hs⟩ := h.serves l r hr
    rw [hrefreshes, hrefresh, hlookup]
    exact ⟨Nat.lt_of_lt_of_le hl hlookups, hr', hsame, hserves r l hs⟩
  · rw [hlookup] at hsees
    rw [hrefreshes]
    exact (h.sees l snapshot hsees).imp_right (hserves _ l)

/-! ## Events that start nothing -/

/-- What most events leave as it is: they free entries, settle waiters and drop entries of the cache. -/
structure Quiet (s s' : ModelsState T) : Prop where
  cache : ∀ p ∈ s'.modelsCache, p ∈ s.modelsCache
  entry : ∀ e, s'.entry e = { s.entry e with refresh := (s'.entry e).refresh }
  joined : ∀ e r, (s'.entry e).refresh = some r → (s.entry e).refresh = some r
    ∧ (s'.refresh r).reason = (s.refresh r).reason ∧ (s'.refresh r).timer = (s.refresh r).timer
  entries : s'.entries = s.entries
  refreshes : s'.refreshes = s.refreshes
  lookups : s'.lookups = s.lookups
  time : s'.time = s.time
  clears : s'.clears = s.clears
  copilot : ∀ r, (s'.refresh r).copilot = (s.refresh r).copilot
  target : ∀ r, (s'.refresh r).entry = (s.refresh r).entry
  startedAt : ∀ r, (s'.refresh r).startedAt = (s.refresh r).startedAt
  running : ∀ r, (s'.refresh r).fetch = .running → (s.refresh r).fetch = .running

section Quiet

variable {digest : List String → String} {used : CopilotAuthContext → Prop} {s s' : ModelsState T}
  {r l : Nat}

theorem Entries.quiet (h : Entries digest used s) (hq : Quiet s s') : Entries digest used s' where
  unique p hp q hq' := h.unique p (hq.cache p hp) q (hq.cache q hq')
  old p hp := by
    rw [hq.entries]
    exact h.old p (hq.cache p hp)
  owned p hp := by
    rw [hq.entry]
    exact h.owned p (hq.cache p hp)
  single p hp q hq' := by
    rw [hq.entry p.2, hq.entry q.2]
    exact h.single p (hq.cache p hp) q (hq.cache q hq')
  blank e := by
    rw [hq.entry]
    exact h.blank e

theorem Refreshes.quiet (h : Refreshes digest used s) (hq : Quiet s s') :
    Refreshes digest used s' where
  joined e r hjoined := by
    obtain ⟨hbefore, hreason, htimer⟩ := hq.joined e r hjoined
    rw [hreason, htimer, hq.refreshes, hq.target]
    exact h.joined e r hbefore
  target r := by
    rw [hq.refreshes, hq.target, hq.entries]
    exact h.target r
  running r hr := by
    rw [hq.refreshes]
    exact h.running r (hq.running r hr)
  source e snapshot := by
    rw [hq.entry, hq.refreshes, hq.target]
    exact h.source e snapshot
  credential p hp r := by
    rw [hq.refreshes, hq.target, hq.copilot]
    exact h.credential p (hq.cache p hp) r
  after p hp r := by
    rw [hq.refreshes, hq.target, hq.clears, hq.entry, hq.startedAt]
    exact h.after p (hq.cache p hp) r
  past := by
    rw [hq.clears, hq.time]
    exact h.past

/-- Some of the waiters of a refresh are settled. -/
theorem Lookups.settled (h : Lookups s) (hq : Quiet s s') {gone : List Nat} {refresh : ModelsRefresh}
    {result : Except ModelsError (ModelsSnapshot T)}
    (hgone : ∀ l ∈ gone, l ∈ (s.refresh r).waiters)
    (hlookup : ∀ l, s'.lookup l = if l ∈ gone then (s.lookup l).settle result else s.lookup l)
    (hrefresh : ∀ r', s'.refresh r' = if r' = r then refresh else s.refresh r')
    (hwaiters : ∀ l, l ∈ refresh.waiters ↔ l ∈ (s.refresh r).waiters ∧ l ∉ gone)
    (hnodup : refresh.waiters.Nodup) (harmed : refresh.waiters ≠ [] → refresh.timer.isSome = true)
    (hresult : ∀ snapshot, result = .ok snapshot →
      snapshot.origin < s.refreshes ∧ ∀ l ∈ gone, s.Serves snapshot.origin l) : Lookups s' := by
  have hwaiting : ∀ l ∈ gone, (s.lookup l).refresh = some r ∧ (s.lookup l).settled = [] :=
    fun l hl => (h.waits l r).mp (hgone l hl)
  have hserves : ∀ r l, s.Serves r l → s'.Serves r l := fun r l hserves => by
    refine hserves.keep (hq.copilot r) (hq.startedAt r) ?_ ?_ fun c hc => .inl (hq.clears ▸ hc)
    all_goals
      rw [hlookup]
      split <;> rfl
  have hjoined : ∀ l, (s'.lookup l).refresh = (s.lookup l).refresh := fun l => by
    rw [hlookup]
    split <;> rfl
  have hleft : ∀ r' l, l ∈ (s'.refresh r').waiters
      ↔ l ∈ (s.refresh r').waiters ∧ ¬(r' = r ∧ l ∈ gone) := fun r' l => by
    rw [hrefresh]
    split
    · rename_i hr
      rw [hr, hwaiters]
      simp
    · rename_i hr
      simp [hr]
  refine {
    serves := fun l r hr => ?_
    waits := fun l r' => ?_
    once := fun l => ?_
    nodup := fun r' => ?_
    listens := fun l => ?_
    armed := fun r' => ?_
    sees := fun l snapshot hsees => ?_
    past := fun l => ?_ }
  · rw [hjoined] at hr
    obtain ⟨hl, hr', hentry, hs⟩ := h.serves l r hr
    rw [hq.lookups, hq.refreshes, hq.target, hentry]
    refine ⟨hl, hr', ?_, hserves r l hs⟩
    rw [hlookup]
    split <;> rfl
  · rw [hleft, h.waits, hjoined, hlookup]
    by_cases hl : l ∈ gone
    · rw [if_pos hl]
      constructor
      · rintro ⟨⟨hr', -⟩, hnot⟩
        have hsame : r' = r := by simpa [(hwaiting l hl).1] using hr'.symm
        exact absurd ⟨hsame, hl⟩ hnot
      · rintro ⟨-, hsettled⟩
        exact absurd hsettled (by simp [ModelsLookup.settle])
    · rw [if_neg hl]
      exact ⟨fun hboth => hboth.1, fun hboth => ⟨hboth, fun hnot => hl hnot.2⟩⟩
  · rw [hlookup]
    split
    · rename_i hl
      show ((s.lookup l).settled ++ [result]).length ≤ 1
      rw [(hwaiting l hl).2]
      exact Nat.le_refl 1
    · exact h.once l
  · rw [hrefresh]
    split
    · exact hnodup
    · exact h.nodup r'
  · rw [hlookup]
    split
    · exact fun hfalse => by cases hfalse
    · exact h.listens l
  · rw [hrefresh]
    split
    · exact harmed
    · exact h.armed r'
  · rw [hlookup] at hsees
    rw [hq.refreshes]
    split at hsees
    · rename_i hl
      rcases hsees with hstale | hmem | hresult'
      · exact (h.sees l snapshot (.inl hstale)).imp_right (hserves _ l)
      · rcases List.mem_append.mp hmem with hmem | hmem
        · exact (h.sees l snapshot (.inr (.inl hmem))).imp_right (hserves _ l)
        · have hok : result = .ok snapshot := (List.mem_singleton.mp hmem).symm
          exact ⟨(hresult snapshot hok).1, hserves _ l ((hresult snapshot hok).2 l hl)⟩
      · exact (h.sees l snapshot (.inr (.inr hresult'))).imp_right (hserves _ l)
    · exact (h.sees l snapshot hsees).imp_right (hserves _ l)
  · rw [hlookup, hq.time]
    split <;> exact h.past l

/-- What a lookup is for stays, and where its waiter is. -/
structure SameLookup (before after : ModelsLookup T) : Prop where
  copilot : after.copilot = before.copilot
  entry : after.entry = before.entry
  startedAt : after.startedAt = before.startedAt
  refresh : after.refresh = before.refresh
  settled : after.settled = before.settled
  listening : after.listening = before.listening
  sees : ∀ snapshot, after.Sees snapshot → before.Sees snapshot

theorem SameLookup.refl (lookup : ModelsLookup T) : SameLookup lookup lookup :=
  ⟨rfl, rfl, rfl, rfl, rfl, rfl, fun _ => id⟩

/-- No waiter comes or goes. -/
theorem Lookups.quiet (h : Lookups s) (hq : Quiet s s')
    (hlookup : ∀ l, SameLookup (s.lookup l) (s'.lookup l))
    (hrefresh : ∀ r, (s'.refresh r).waiters = (s.refresh r).waiters
      ∧ (s'.refresh r).timer = (s.refresh r).timer) : Lookups s' := by
  have hserves : ∀ r l, s.Serves r l → s'.Serves r l := fun r l hserves =>
    hserves.keep (hq.copilot r) (hq.startedAt r) (hlookup l).copilot (hlookup l).startedAt
      fun c hc => .inl (hq.clears ▸ hc)
  exact {
    serves := fun l r hr => by
      rw [(hlookup l).refresh] at hr
      obtain ⟨hl, hr', hentry, hs⟩ := h.serves l r hr
      rw [hq.lookups, hq.refreshes, hq.target, (hlookup l).entry]
      exact ⟨hl, hr', hentry, hserves r l hs⟩
    waits := fun l r => by
      rw [(hrefresh r).1, (hlookup l).refresh, (hlookup l).settled]
      exact h.waits l r
    once := fun l => by
      rw [(hlookup l).settled]
      exact h.once l
    nodup := fun r => by
      rw [(hrefresh r).1]
      exact h.nodup r
    listens := fun l => by
      rw [(hlookup l).listening, (hlookup l).settled]
      exact h.listens l
    armed := fun r => by
      rw [(hrefresh r).1, (hrefresh r).2]
      exact h.armed r
    sees := fun l snapshot hsees => by
      rw [hq.refreshes]
      exact (h.sees l snapshot ((hlookup l).sees snapshot hsees)).imp_right (hserves _ l)
    past := fun l => by
      rw [(hlookup l).startedAt, hq.time]
      exact h.past l }

/-- What a refresh is for stays. -/
structure SameRefresh (before after : ModelsRefresh) : Prop where
  copilot : after.copilot = before.copilot
  target : after.entry = before.entry
  startedAt : after.startedAt = before.startedAt
  running : after.fetch = .running → before.fetch = .running

/-- One refresh changes, and the entries that wait for it do not notice. -/
theorem Quiet.update {refresh : ModelsRefresh}
    (hrest : s'.entries = s.entries ∧ s'.refreshes = s.refreshes ∧ s'.lookups = s.lookups
      ∧ s'.time = s.time ∧ s'.clears = s.clears)
    (hcache : ∀ p ∈ s'.modelsCache, p ∈ s.modelsCache)
    (hentry : ∀ e, s'.entry e = { s.entry e with refresh := (s'.entry e).refresh })
    (hrefresh : ∀ r', s'.refresh r' = if r' = r then refresh else s.refresh r')
    (hsame : SameRefresh (s.refresh r) refresh)
    (hjoined : ∀ e r', (s'.entry e).refresh = some r' → (s.entry e).refresh = some r'
      ∧ (r' = r → refresh.reason = (s.refresh r).reason ∧ refresh.timer = (s.refresh r).timer)) :
    Quiet s s' where
  cache := hcache
  entry := hentry
  joined e r' h := by
    obtain ⟨hbefore, hnotice⟩ := hjoined e r' h
    refine ⟨hbefore, ?_⟩
    rw [hrefresh]
    split
    · rename_i hr
      rw [hr]
      exact hnotice hr
    · exact ⟨rfl, rfl⟩
  entries := hrest.1
  refreshes := hrest.2.1
  lookups := hrest.2.2.1
  time := hrest.2.2.2.1
  clears := hrest.2.2.2.2
  copilot r' := by
    rw [hrefresh]
    split
    · rename_i hr
      rw [hr, hsame.copilot]
    · rfl
  target r' := by
    rw [hrefresh]
    split
    · rename_i hr
      rw [hr, hsame.target]
    · rfl
  startedAt r' := by
    rw [hrefresh]
    split
    · rename_i hr
      rw [hr, hsame.startedAt]
    · rfl
  running r' := by
    rw [hrefresh]
    split
    · rename_i hr
      rw [hr]
      exact hsame.running
    · exact id

/-- Nothing about waiters changes in a refresh; none but a refresh that no entry waits for is
cancelled. -/
theorem Sound.change (h : Sound digest used s) {refresh : ModelsRefresh}
    (hsame : SameRefresh (s.refresh r) refresh) (hwaiters : refresh.waiters = (s.refresh r).waiters)
    (htimer : refresh.timer = (s.refresh r).timer)
    (hreason : refresh.reason = (s.refresh r).reason ∨ ∀ e, (s.entry e).refresh ≠ some r) :
    Sound digest used (s.setRefresh r refresh) := by
  have hq : Quiet s (s.setRefresh r refresh) := by
    refine .update ⟨rfl, rfl, rfl, rfl, rfl⟩ (fun _ hp => hp) (fun _ => rfl)
      (fun _ => setRefresh_refresh ..) hsame fun e r' hjoined => ⟨hjoined, ?_⟩
    rintro rfl
    exact ⟨hreason.resolve_right fun hfree => hfree e hjoined, htimer⟩
  refine ⟨h.entries.quiet hq, h.refreshes.quiet hq,
    h.lookups.quiet hq (fun l => .refl _) fun r' => ?_⟩
  rw [setRefresh_refresh]
  split
  · rename_i hr
    rw [hr]
    exact ⟨hwaiters, htimer⟩
  · exact ⟨rfl, rfl⟩

/-- One lookup changes that stays where it is. -/
theorem Sound.changeLookup (h : Sound digest used s) {lookup : ModelsLookup T}
    (hsame : SameLookup (s.lookup l) lookup) : Sound digest used (s.setLookup l lookup) := by
  have hq : Quiet s (s.setLookup l lookup) := {
    cache := fun _ hp => hp
    entry := fun _ => rfl
    joined := fun _ _ hjoined => ⟨hjoined, rfl, rfl⟩
    entries := rfl
    refreshes := rfl
    lookups := rfl
    time := rfl
    clears := rfl
    copilot := fun _ => rfl
    target := fun _ => rfl
    startedAt := fun _ => rfl
    running := fun _ => id }
  refine ⟨h.entries.quiet hq, h.refreshes.quiet hq,
    h.lookups.quiet hq (fun l' => ?_) fun _ => ⟨rfl, rfl⟩⟩
  rw [setLookup_lookup]
  split
  · rename_i hl
    rw [hl]
    exact hsame
  · exact .refl _

/-- No entry waits for a refresh that its own entry has let go. -/
theorem Sound.free (h : Sound digest used s) {e r' : Nat}
    (hjoined : ((s.detach (s.refresh r).entry r).entry e).refresh = some r') :
    (s.entry e).refresh = some r' ∧ r' ≠ r := by
  obtain ⟨hbefore, hnot⟩ := detach_joined _ _ _ _ hjoined
  refine ⟨hbefore, fun hsame => hnot ⟨?_, hsame⟩⟩
  rw [← hsame, (h.refreshes.joined e r' hbefore).2.1]

/-- All waiters of a refresh are settled, and no entry waits for it any more. -/
theorem Sound.settleModelsRefresh (h : Sound digest used s) (r : Nat)
    (result : Except ModelsError (ModelsSnapshot T))
    (hresult : ∀ snapshot, result = .ok snapshot → snapshot.origin = r ∧ r < s.refreshes) :
    Sound digest used (s.settleModelsRefresh r result)
      ∧ ∀ e, ((s.settleModelsRefresh r result).entry e).refresh ≠ some r := by
  obtain ⟨modelsCache, hsub, heq⟩ := settleModelsRefresh_eq s r result
  generalize s.settleModelsRefresh r result = s' at heq
  have hrefresh : ∀ r', s'.refresh r'
      = if r' = r then { s.refresh r with timer := none, waiters := [] } else s.refresh r' := by
    rw [heq]
    exact fun _ => Function.update_apply ..
  have hlookup : ∀ l, s'.lookup l
      = if l ∈ (s.refresh r).waiters then (s.lookup l).settle result else s.lookup l := by
    rw [heq]
    exact fun _ => rfl
  have hjoined : ∀ e r', (s'.entry e).refresh = some r' → (s.entry e).refresh = some r' ∧ r' ≠ r := by
    rw [heq]
    exact fun _ _ => h.free
  have hq : Quiet s s' := by
    refine .update ?_ ?_ ?_ hrefresh ⟨rfl, rfl, rfl, id⟩ fun e r' hr' =>
      (hjoined e r' hr').imp_right fun hne hsame => absurd hsame hne
    · rw [heq]
      exact ⟨rfl, rfl, rfl, rfl, rfl⟩
    · rw [heq]
      exact hsub
    · rw [heq]
      exact fun e => detach_rest ..
  refine ⟨⟨h.entries.quiet hq, h.refreshes.quiet hq, h.lookups.settled hq (fun _ => id) hlookup
    hrefresh (fun l => by simp) List.nodup_nil (fun hnone => absurd rfl hnone) ?_⟩,
    fun e hr => (hjoined e r hr).2 rfl⟩
  intro snapshot hok
  obtain ⟨rfl, hr⟩ := hresult snapshot hok
  exact ⟨hr, fun l hl => (h.lookups.serves l _ ((h.lookups.waits l _).mp hl).1).2.2.2⟩

theorem lookup_of_left (hlookup : s'.lookup
    = Function.update s.lookup l ((s.lookup l).settle (.error .aborted))) (l' : Nat) :
    s'.lookup l' = if l' ∈ [l] then (s.lookup l').settle (.error .aborted) else s.lookup l' := by
  rw [hlookup, Function.update_apply, if_congr (List.mem_singleton (a := l') (b := l)).symm rfl rfl]
  split
  · rename_i hl'
    rw [List.mem_singleton.mp hl']
  · rfl

/-- A waiter goes, and others are left. -/
theorem Sound.leave_of_others (h : Sound digest used s) (hl : l ∈ (s.refresh r).waiters)
    (hothers : (s.refresh r).waiters.erase l ≠ []) : Sound digest used (s.leave l r) := by
  have heq := ModelsState.leave_of_others s r l hothers
  generalize s.leave l r = s' at heq
  have hrefresh : ∀ r', s'.refresh r' = if r' = r then
      { s.refresh r with waiters := (s.refresh r).waiters.erase l } else s.refresh r' := by
    rw [heq]
    exact fun _ => Function.update_apply ..
  have hq : Quiet s s' := by
    refine .update ?_ ?_ ?_ hrefresh ⟨rfl, rfl, rfl, id⟩ ?_
    all_goals rw [heq]
    · exact ⟨rfl, rfl, rfl, rfl, rfl⟩
    · exact fun _ => id
    · exact fun _ => rfl
    · exact fun _ _ hjoined => ⟨hjoined, fun _ => ⟨rfl, rfl⟩⟩
  refine ⟨h.entries.quiet hq, h.refreshes.quiet hq, h.lookups.settled hq
    (fun l' hl' => List.mem_singleton.mp hl' ▸ hl) (lookup_of_left (by rw [heq])) hrefresh
    (fun l' => ?_) ((h.lookups.nodup r).erase l) (fun _ => h.lookups.armed r ?_)
    fun _ hok => by cases hok⟩
  · rw [(h.lookups.nodup r).mem_erase_iff, List.mem_singleton, and_comm]
  · exact List.ne_nil_of_mem hl

/-- The last waiter goes: its refresh is cancelled, and no entry waits for it. -/
theorem Sound.leave_of_last (h : Sound digest used s) (hl : l ∈ (s.refresh r).waiters)
    (hlast : (s.refresh r).waiters.erase l = []) : Sound digest used (s.leave l r) := by
  have hentry : (s.lookup l).entry = (s.refresh r).entry :=
    (h.lookups.serves l r ((h.lookups.waits l r).mp hl).1).2.2.1.symm
  obtain ⟨modelsCache, hsub, heq⟩ := ModelsState.leave_of_last s r l hlast
  generalize s.leave l r = s' at heq
  have hrefresh : ∀ r', s'.refresh r' = if r' = r then
      ({ s.refresh r with waiters := [], timer := none } : ModelsRefresh).abort .aborted
      else s.refresh r' := by
    rw [heq]
    exact fun _ => Function.update_apply ..
  have hjoined : ∀ e r', (s'.entry e).refresh = some r' →
      (s.entry e).refresh = some r' ∧ r' ≠ r := by
    rw [heq]
    show ∀ e r', ((s.detach (s.lookup l).entry r).entry e).refresh = some r' → _
    rw [hentry]
    exact fun _ _ => h.free
  have hq : Quiet s s' := by
    refine .update ?_ ?_ ?_ hrefresh ⟨rfl, rfl, rfl, id⟩ fun e r' hr' =>
      (hjoined e r' hr').imp_right fun hne hsame => absurd hsame hne
    all_goals rw [heq]
    · exact ⟨rfl, rfl, rfl, rfl, rfl⟩
    · exact hsub
    · exact fun e => detach_rest ..
  refine ⟨h.entries.quiet hq, h.refreshes.quiet hq, h.lookups.settled hq
    (fun l' hl' => List.mem_singleton.mp hl' ▸ hl) (lookup_of_left (by rw [heq])) hrefresh
    (fun l' => ?_) List.nodup_nil (fun hnone => absurd rfl hnone) fun _ hok => by cases hok⟩
  show l' ∈ [] ↔ _
  rw [List.mem_singleton, ← hlast, (h.lookups.nodup r).mem_erase_iff, and_comm]

theorem Sound.leave (h : Sound digest used s) (hl : l ∈ (s.refresh r).waiters) :
    Sound digest used (s.leave l r) := by
  by_cases hlast : (s.refresh r).waiters.erase l = []
  · exact h.leave_of_last hl hlast
  · exact h.leave_of_others hl hlast

end Quiet

end ModelsState
end GhcpConsole.Copilot
