import GhcpConsole.Management.OperationRuns

/-!
# Every run of a batch operation

`Sound` says where an operation stands between two events, one case for each state of `run`. Every event
keeps it, in whatever order the events come.
-/

namespace GhcpConsole.Management

/-! ## Between two events -/

/-- Every item is what came back for it at its own index, interrupted where it had not ended. -/
def Book.Interrupted (b : Book) : Prop :=
  ∀ i, b.items[i]? = (b.expected i).map Managed.interruptItem

/-- `K`: nothing comes back as pending. `N`: the number of workers is a number. -/
inductive Sound (K N : Prop) (m : Managed) : Prop
  | preview (hstatus : m.operation.status = .preview) (hphase : m.phase = .ended)
      (hcalls : Calls K m.book 0)
  | working (w : Working) (hstatus : m.operation.status = .running) (hphase : m.phase = .working w)
      (h : WorkersAt K m w) (hstaffed : N → m.operation.items.length = 0 ∨ w.workers ≠ [])
  | delayed (round : Nat) (failures : Nat → Nat) (hstatus : m.operation.status = .running)
      (hphase : m.phase = .delayed round failures) (h : Polling K N m.book failures)
  | refreshing (round index : Nat) (current : OperationItem) (failures : Nat → Nat)
      (hstatus : m.operation.status = .running)
      (hphase : m.phase = .refreshing round index current failures)
      (h : Polling K N m.book failures) (hcurrent : m.operation.items[index]? = some current)
      (hrunning : current.status = .running)
  | completed (failures : Nat → Nat) (hstatus : m.operation.status = .completed)
      (hphase : m.phase = .ended) (h : Polling K N m.book failures)
      (hend : m.hasRefresh = true → m.book.Without .running)
  | interrupted (hstatus : m.operation.status = .interrupted) (hphase : m.phase = .ended)
      (honce : m.book.Once) (hasked : m.book.Asked) (hmarked : m.book.Marked)
      (hitems : m.book.Interrupted)

/-! ## Where an operation stands -/

section Inversion

variable {K N : Prop} {m : Managed} {w : Working} {failures : Nat → Nat} {round index : Nat}
  {current : OperationItem}

theorem Sound.at_preview (h : Sound K N m) (hpreview : m.operation.status = .preview) :
    Calls K m.book 0 := by
  cases h with
  | preview hstatus hphase hcalls => exact hcalls
  | _ => simp_all

theorem Sound.at_working (h : Sound K N m) (hw : m.phase = .working w) :
    m.operation.status = .running ∧ WorkersAt K m w
      ∧ (N → m.operation.items.length = 0 ∨ w.workers ≠ []) := by
  cases h with
  | working w' hstatus hphase h hstaffed =>
      cases hphase.symm.trans hw
      exact ⟨hstatus, h, hstaffed⟩
  | _ => simp_all

theorem Sound.at_delayed (h : Sound K N m) (hdelayed : m.phase = .delayed round failures) :
    m.operation.status = .running ∧ Polling K N m.book failures := by
  cases h with
  | delayed round' failures' hstatus hphase h =>
      cases hphase.symm.trans hdelayed
      exact ⟨hstatus, h⟩
  | _ => simp_all

theorem Sound.at_refreshing (h : Sound K N m)
    (hrefreshing : m.phase = .refreshing round index current failures) :
    m.operation.status = .running ∧ Polling K N m.book failures
      ∧ m.operation.items[index]? = some current ∧ current.status = .running := by
  cases h with
  | refreshing round' index' current' failures' hstatus hphase h hcurrent hrunning =>
      cases hphase.symm.trans hrefreshing
      exact ⟨hstatus, h, hcurrent, hrunning⟩
  | _ => simp_all

end Inversion

section Events

variable {K N : Prop} {now : Nat} {m m' : Managed} {w : Working} {failures : Nat → Nat}
  {round index worker : Nat} {current : OperationItem} {outcome : Outcome}

theorem Book.Marked.of_performs {b : Book} (h : ∀ a ∈ b.answers, a.call = .perform) : b.Marked := by
  intro i item hitem hmark
  rw [(not_marked_of_performs h).1, (not_marked_of_performs h).2] at hmark
  rcases hmark with hmark | hmark <;> cases hmark

/-! ## The end -/

theorem interruptItem_of_interrupted {item : OperationItem} (h : item.status = .interrupted) :
    Managed.interruptItem item = item := by
  simp [Managed.interruptItem, h]

theorem status_interruptItem {item : OperationItem} (h : item.status = .running) :
    (Managed.interruptItem item).status = .interrupted := by
  simp [Managed.interruptItem, h]

/-- The operation worker stops. An item that could not be refreshed is interrupted by it, if not
before. -/
theorem interrupt_sound (honce : m.book.Once) (hasked : m.book.Asked) (htruthful : m.book.Truthful)
    (hmarked : ∀ i item, m.operation.items[i]? = some item →
      maxRefreshFailures ≤ failuresInRow m.answers i ∨ lastMissing m.answers i = true →
      item.status = .interrupted ∨ item.status = .running) :
    Sound K N (m.interrupt now) := by
  refine .interrupted rfl rfl honce hasked ?_ ?_
  · intro i item hitem hmark
    have hitem : (m.operation.items.map Managed.interruptItem)[i]? = some item := hitem
    rw [List.getElem?_map] at hitem
    obtain ⟨before, hbefore, rfl⟩ := Option.map_eq_some_iff.mp hitem
    rcases hmarked i before hbefore hmark with hstatus | hstatus
    · rw [interruptItem_of_interrupted hstatus, hstatus]
    · exact status_interruptItem hstatus
  · intro i
    have hitem : m.operation.items[i]? = m.book.expected i := htruthful i
    show (m.operation.items.map Managed.interruptItem)[i]? = (m.book.expected i).map _
    rw [List.getElem?_map, hitem]

theorem complete_sound (h : Polling K N m.book failures)
    (hend : m.hasRefresh = true → m.book.Without .running) : Sound K N (m.complete now) :=
  .completed failures rfl rfl h hend

theorem nextRound_sound (hstatus : m.operation.status = .running) (h : Polling K N m.book failures) :
    Sound K N (m.nextRound now round failures) := by
  rw [Managed.nextRound]
  split
  · exact .delayed round failures hstatus rfl h
  · rename_i hnone
    refine complete_sound h fun _ i item hitem hrunning => hnone ?_
    exact List.any_eq_true.mpr ⟨item, List.mem_of_getElem? hitem, decide_eq_true hrunning⟩

/-! ## The rounds -/

theorem scan_sound (hstatus : m.operation.status = .running) (h : Polling K N m.book failures) :
    Sound K N (m.scan now round failures index) := by
  rw [Managed.scan]
  split
  · exact nextRound_sound hstatus h
  · rename_i i hi
    split
    · exact nextRound_sound hstatus h
    · rename_i current hcurrent
      refine .refreshing round i current failures hstatus rfl h hcurrent ?_
      have hrunning := List.find?_some hi
      rw [hcurrent, Bool.and_eq_true] at hrunning
      exact of_decide_eq_true hrunning.2

theorem awaitCompletion_sound (hstatus : m.operation.status = .running)
    (h : Polling K N m.book fun _ => 0) : Sound K N (m.awaitCompletion now) := by
  rw [Managed.awaitCompletion]
  split
  · exact nextRound_sound hstatus h
  · rename_i hrefresh
    exact complete_sound h fun hgiven => absurd hgiven hrefresh

theorem status_unavailable {e : Thrown} {attempts : Nat} {text : String}
    (h : maxRefreshFailures ≤ attempts ∨ Managed.isMissing e = true) :
    (Managed.unavailable current e attempts text).status = .interrupted := by
  rw [Managed.unavailable, if_pos]
  rw [Bool.or_eq_true, decide_eq_true_iff]
  exact h.symm

theorem status_unavailable_ne {e : Thrown} {attempts : Nat} {text : String} :
    (Managed.unavailable current e attempts text).status ≠ .pending := by
  unfold Managed.unavailable
  split <;> exact nofun

/-- `refresh` comes back. -/
theorem refreshed_sound (hstatus : m.operation.status = .running) (h : Polling K N m.book failures)
    (hcurrent : m.operation.items[index]? = some current) (hrunning : current.status = .running)
    (hK : K → ∀ next, outcome = .ok next → next.status ≠ .pending) :
    Sound K N (m.refreshed now round index current failures outcome) := by
  have hlt : index < m.operation.items.length := (List.getElem?_eq_some_iff.mp hcurrent).1
  cases outcome with
  | ok next =>
      rw [Managed.refreshed]
      by_cases hchanged : next.status ≠ current.status ∨ next.detail ≠ current.detail
      · simp only [if_pos hchanged]
        refine scan_sound hstatus (Polling.replaced
          (a := { call := .refresh, index, item := current, outcome := .ok next }) h rfl
          (if_pos hchanged) hlt (fun hk => hK hk next rfl) (fun hmark => ?_) ?_)
        · rw [failuresInRow_ok rfl rfl] at hmark
          rcases hmark with hmark | hmark <;> cases hmark
        · rw [failuresInRow_ok rfl rfl]
      · simp only [if_neg hchanged]
        exact scan_sound hstatus (h.unchanged
          (a := { call := .refresh, index, item := current, outcome := .ok next }) rfl rfl
          (if_neg hchanged) hcurrent)
  | error e =>
      rw [Managed.refreshed]
      let a : Answer := { call := .refresh, index, item := current, outcome := .error e }
      have hattempts : failures index + 1 = failuresInRow (a :: m.answers) index := by
        rw [failuresInRow_failed (a := a) rfl rfl, h.counts index]
        rfl
      have hresult : a.result m.answers
          = (errorMessage e).map (Managed.unavailable current e (failures index + 1)) := by
        rw [hattempts, failuresInRow_failed (a := a) rfl rfl]
        rfl
      cases htext : errorMessage e with
      | none =>
          -- Nothing is stored for this answer: the item is still running.
          rw [htext] at hresult
          refine interrupt_sound h.once (h.asked.refreshed (a := a) rfl)
            (h.truthful.nothing (a := a) hresult) fun i item hitem hmark => ?_
          by_cases hi : i = index
          · have hitem : m.operation.items[i]? = some item := hitem
            rw [hi, hcurrent] at hitem
            exact Or.inr (Option.some.inj hitem ▸ hrunning)
          · have hmark : maxRefreshFailures ≤ failuresInRow (a :: m.answers) i
              ∨ lastMissing (a :: m.answers) i = true := hmark
            rw [failuresInRow_cons_ne hi, lastMissing_cons rfl, if_neg hi] at hmark
            exact Or.inl (h.marked i item hitem hmark)
      | some text =>
          rw [htext] at hresult
          refine scan_sound hstatus (Polling.replaced (a := a) h rfl hresult hlt
            (fun _ => status_unavailable_ne) (fun hmark => ?_) ?_)
          · exact status_unavailable (hattempts ▸ hmark)
          · rw [hattempts]
            rfl

/-! ## The workers -/

theorem settle_sound (hstatus : m.operation.status = .running) (h : WorkersAt K m w)
    (hK : K → ∀ next, outcome = .ok next → next.status ≠ .pending)
    (hsettle : m.settle now w worker outcome = some m') : Sound K N m' := by
  unfold Managed.settle at hsettle
  split at hsettle
  · rename_i index item hworker
    have hlt : worker < w.workers.length := (List.getElem?_eq_some_iff.mp hworker).1
    have hne (ws : List Worker) (hws : ws.length = w.workers.length) : ws ≠ [] := by
      intro hnil
      rw [hnil, List.length_nil] at hws
      omega
    split at hsettle
    · rename_i next hnext
      have hstore := h.store now (List.mem_of_getElem? hworker) hnext (status_performResult hnext hK)
      have hsame := work_same now w.stopped hstore.calls
      obtain rfl := (Option.some.inj hsettle).symm
      refine .working _ (hsame.1.trans hstatus) rfl
        ((hstore.turn now _ (fun x hx => List.mem_or_eq_of_mem_set hx) fun hmem => ?_).inPhase _)
        fun _ => Or.inr (hne _ List.length_set)
      obtain ⟨j, hj⟩ := List.getElem?_of_mem hmem
      have hother : worker ≠ j := fun heq => by
        rw [← heq, hworker] at hj
        cases hj
      exact List.mem_of_getElem? ((List.getElem?_set_ne hother).trans hj)
    · rename_i hnone
      obtain rfl := (Option.some.inj hsettle).symm
      exact .working _ hstatus rfl ((h.fail hworker hnone).inPhase _)
        fun _ => Or.inr (hne _ List.length_set)
  · cases hsettle

/-- `Promise.allSettled` settles. -/
theorem conclude_sound (hstatus : m.operation.status = .running) (h : WorkersAt K m w)
    (hstaffed : N → m.operation.items.length = 0 ∨ w.workers ≠ [])
    (hconclude : m.conclude now w = some m') : Sound K N m' := by
  unfold Managed.conclude at hconclude
  split at hconclude
  · rename_i hall
    split at hconclude
    · obtain rfl := (Option.some.inj hconclude).symm
      refine interrupt_sound h.calls.once h.calls.asked h.calls.truthful
        fun i item hitem hmark => Or.inl ?_
      exact Book.Marked.of_performs (b := m.book) h.calls.performs i item hitem hmark
    · rename_i hany
      have hnone : Worker.failed ∉ w.workers := fun hmem =>
        hany (List.any_eq_true.mpr ⟨_, hmem, decide_eq_true rfl⟩)
      have hstopped : w.stopped = false := by
        cases hstop : w.stopped with
        | false => rfl
        | true => exact absurd (h.halted hstop) hnone
      have hpassed : N → m.operation.items.length ≤ w.nextIndex := by
        intro hN
        rcases hstaffed hN with hempty | hne
        · omega
        · obtain ⟨x, hx⟩ := List.exists_mem_of_ne_nil _ hne
          rcases of_decide_eq_true (List.all_eq_true.mp hall x hx) with rfl | rfl
          · exact h.finished hstopped hx
          · exact absurd hx hnone
      obtain rfl := (Option.some.inj hconclude).symm
      refine awaitCompletion_sound hstatus ⟨h.calls.once, fun hN => h.calls.all (hpassed hN),
        fun hK hN => h.calls.without_pending (hpassed hN) hK, h.calls.asked, h.calls.truthful,
        Book.Marked.of_performs h.calls.performs, fun i => ?_⟩
      exact (not_marked_of_performs h.calls.performs).1.symm
  · cases hconclude

theorem workerCount_eq_zero {items : List OperationItem} (concurrency : Int)
    (h : Managed.workerCount items (some concurrency) = 0) : items.length = 0 := by
  have h : min items.length (max 1 (min 20 concurrency)).toNat = 0 := h
  omega

/-- An execution is accepted. -/
theorem start_sound (hcalls : Calls K m.book 0) (hasRefresh : Bool) (options : OperationOptions)
    (concurrency : Option Int) (hN : N → concurrency ≠ none) : Sound K N (m.start now hasRefresh options concurrency) := by
  rw [Managed.start]
  generalize hrun : { m with hasRefresh, operation := _ } = m₁
  have hworkers : WorkersAt K m₁ { workers := [], nextIndex := 0, stopped := false } := by
    rw [← hrun]
    exact ⟨hcalls, fun _ _ hmem => (by cases hmem), fun _ hmem => (by cases hmem),
      fun hstop => (by cases hstop)⟩
  have hstatus : m₁.operation.status = .running := by rw [← hrun]
  obtain ⟨hspec, hlength, hsame, hitems⟩ := startWorkers_spec now
    (Managed.workerCount m₁.operation.items concurrency) hworkers
  refine .working _ (hsame.trans hstatus) rfl (hspec.inPhase _) fun hnumber => ?_
  cases concurrency with
  | none => exact absurd rfl (hN hnumber)
  | some concurrency =>
      by_cases hempty : m₁.operation.items.length = 0
      · exact Or.inl (hitems.trans hempty)
      · refine Or.inr fun hnil => hempty (workerCount_eq_zero concurrency ?_)
        rw [← List.length_eq_zero_iff.mpr hnil, hlength]
        exact (Nat.zero_add _).symm

/-- An operation that is no longer held by the map is where it was. -/
theorem Sound.swept (h : Sound K N m) (stored : Bool) : Sound K N { m with stored } := by
  cases h with
  | preview hstatus hphase hcalls => exact .preview hstatus hphase hcalls
  | working w hstatus hphase h hstaffed =>
      exact .working w hstatus hphase ⟨h.calls, h.owned, h.finished, h.halted⟩ hstaffed
  | delayed round failures hstatus hphase h => exact .delayed round failures hstatus hphase h
  | refreshing round index current failures hstatus hphase h hcurrent hrunning =>
      exact .refreshing round index current failures hstatus hphase h hcurrent hrunning
  | completed failures hstatus hphase h hend => exact .completed failures hstatus hphase h hend
  | interrupted hstatus hphase honce hasked hmarked hitems =>
      exact .interrupted hstatus hphase honce hasked hmarked hitems

theorem newPreview_sound (id action : String) (targets : List Target) (options : OperationOptions) :
    Sound K N (Manager.newPreview now id action targets options) := by
  refine .preview rfl rfl ⟨rfl, fun i item => ?_, fun i _ => rfl, fun _ i hi => ?_,
    List.forall_mem_nil _, List.forall_mem_nil _, fun i => rfl⟩
  · rw [if_neg fun h => Nat.not_lt_zero i h.1]
    rfl
  · exact absurd hi (Nat.not_lt_zero i)

end Events

/-! ## Events -/

/-- What the event brings back for an item of the operation. -/
def Event.returned (id : String) : Event → Option OperationItem
  | .settle id' _ (.ok next) => if id' = id then some next else none
  | .refreshed id' (.ok next) => if id' = id then some next else none
  | _ => none

/-- The event executes the operation with a number of workers that is not a number. -/
def Event.unnumbered (id : String) : Event → Bool
  | .execute id' _ _ none => id' = id
  | _ => false

section Step

variable {K N : Prop} {now : Nat} {ms ms' : Manager} {e : Event} {id : String}

theorem change_eq_some {f : Managed → Option Managed} {id' : String}
    (h : ms.change id' f = some ms') :
    ∃ m m', ms id' = some m ∧ f m = some m' ∧ ms' = ms.set id' m' := by
  obtain ⟨m', hbind, rfl⟩ := Option.map_eq_some_iff.mp h
  obtain ⟨m, hm, hf⟩ := Option.bind_eq_some_iff.mp hbind
  exact ⟨m, m', hm, hf, rfl⟩

theorem set_sound {id' : String} {m' : Managed} (hs : ∀ m, ms id = some m → Sound K N m)
    (hm' : id' = id → Sound K N m') : ∀ m, ms.set id' m' id = some m → Sound K N m := by
  intro m hm
  rw [Manager.set, Function.update_apply] at hm
  by_cases hid : id = id'
  · rw [if_pos hid] at hm
    exact Option.some.inj hm ▸ hm' hid.symm
  · rw [if_neg hid] at hm
    exact hs m hm

theorem sweep_sound (hs : ∀ m, ms id = some m → Sound K N m) :
    ∀ m, ms.sweep now id = some m → Sound K N m := by
  intro m hm
  obtain ⟨before, hbefore, rfl⟩ := Option.map_eq_some_iff.mp hm
  exact (hs before hbefore).swept _

theorem change_sound {id' : String} {f : Managed → Option Managed}
    (hs : ∀ m, ms id = some m → Sound K N m)
    (hf : id' = id → ∀ m m', Sound K N m → f m = some m' → Sound K N m')
    (hchange : ms.change id' f = some ms') : ∀ m, ms' id = some m → Sound K N m := by
  obtain ⟨m, m', hm, hfm, rfl⟩ := change_eq_some hchange
  exact set_sound hs fun hid => hf hid m m' (hs m (hid ▸ hm)) hfm

/-- One event. -/
theorem step_sound (hs : ∀ m, ms id = some m → Sound K N m)
    (hK : K → ∀ next, e.returned id = some next → next.status ≠ .pending)
    (hN : N → e.unnumbered id = false) (hstep : ms.step (now, e) = some ms') :
    ∀ m, ms' id = some m → Sound K N m := by
  cases e with
  | preview id' action targets options =>
      rw [Manager.step] at hstep
      split at hstep
      · cases hstep
      · split at hstep
        · exact Option.some.inj hstep ▸ hs
        · obtain rfl := (Option.some.inj hstep).symm
          exact set_sound (sweep_sound hs) fun _ => newPreview_sound id' action targets options
  | get id' =>
      obtain rfl := (Option.some.inj hstep).symm
      exact sweep_sound hs
  | execute id' hasRefresh options concurrency =>
      rw [Manager.step] at hstep
      split at hstep
      · exact Option.some.inj hstep ▸ sweep_sound hs
      · rename_i m hm
        split at hstep
        · rename_i haccepted
          obtain rfl := (Option.some.inj hstep).symm
          refine set_sound (sweep_sound hs) fun hid => ?_
          have hcalls := (sweep_sound hs m (hid ▸ hm)).at_preview haccepted.2
          refine start_sound hcalls hasRefresh options concurrency fun hnumber hnone => ?_
          have hnumbered := hN hnumber
          rw [hnone] at hnumbered
          exact of_decide_eq_false hnumbered hid
        · exact Option.some.inj hstep ▸ sweep_sound hs
  | settle id' worker outcome =>
      refine change_sound hs (fun hid m m' h hsettle => ?_) hstep
      split at hsettle
      · rename_i w hphase
        obtain ⟨hstatus, hworkers, hstaffed⟩ := h.at_working hphase
        refine settle_sound hstatus hworkers (fun hk next hnext => hK hk next ?_) hsettle
        rw [hnext]
        exact if_pos hid
      · cases hsettle
  | conclude id' =>
      refine change_sound hs (fun _ m m' h hconclude => ?_) hstep
      split at hconclude
      · rename_i w hphase
        obtain ⟨hstatus, hworkers, hstaffed⟩ := h.at_working hphase
        exact conclude_sound hstatus hworkers hstaffed hconclude
      · cases hconclude
  | wake id' =>
      refine change_sound hs (fun _ m m' h hwake => ?_) hstep
      split at hwake
      · rename_i round failures hphase
        obtain ⟨hstatus, hpolling⟩ := h.at_delayed hphase
        exact Option.some.inj hwake ▸ scan_sound hstatus hpolling
      · cases hwake
  | refreshed id' outcome =>
      refine change_sound hs (fun hid m m' h hrefreshed => ?_) hstep
      split at hrefreshed
      · rename_i round index current failures hphase
        obtain ⟨hstatus, hpolling, hcurrent, hrunning⟩ := h.at_refreshing hphase
        refine Option.some.inj hrefreshed ▸ refreshed_sound hstatus hpolling hcurrent hrunning
          (fun hk next hnext => hK hk next ?_)
        rw [hnext]
        exact if_pos hid
      · cases hrefreshed

/-- A run of events. -/
theorem run_sound {es : List (Nat × Event)} (hs : ∀ m, ms id = some m → Sound K N m)
    (hK : K → ∀ e ∈ es, ∀ next, e.2.returned id = some next → next.status ≠ .pending)
    (hN : N → ∀ e ∈ es, e.2.unnumbered id = false) (hrun : es.foldlM Manager.step ms = some ms') :
    ∀ m, ms' id = some m → Sound K N m := by
  induction es generalizing ms with
  | nil => exact Option.some.inj hrun ▸ hs
  | cons e es ih =>
      obtain ⟨mid, hstep, hrest⟩ := Option.bind_eq_some_iff.mp hrun
      refine ih (step_sound hs (fun hk => hK hk e List.mem_cons_self)
        (fun hn => hN hn e List.mem_cons_self) hstep) (fun hk e he => ?_) (fun hn e he => ?_) hrest
      · exact hK hk e (List.mem_cons_of_mem _ he)
      · exact hN hn e (List.mem_cons_of_mem _ he)

end Step

/-! ## At every point of a run -/

section Reading

variable {K N : Prop} {m : Managed}

theorem Sound.once (h : Sound K N m) : m.book.Once := by
  cases h with
  | preview hstatus hphase hcalls => exact hcalls.once
  | working w hstatus hphase h => exact h.calls.once
  | delayed round failures hstatus hphase h => exact h.once
  | refreshing round index current failures hstatus hphase h => exact h.once
  | completed failures hstatus hphase h => exact h.once
  | interrupted hstatus hphase honce => exact honce

theorem Sound.marked (h : Sound K N m) : m.book.Marked := by
  cases h with
  | preview hstatus hphase hcalls => exact Book.Marked.of_performs hcalls.performs
  | working w hstatus hphase h => exact Book.Marked.of_performs h.calls.performs
  | delayed round failures hstatus hphase h => exact h.marked
  | refreshing round index current failures hstatus hphase h => exact h.marked
  | completed failures hstatus hphase h => exact h.marked
  | interrupted hstatus hphase honce hasked hmarked => exact hmarked

theorem Sound.asked (h : Sound K N m) : m.book.Asked := by
  cases h with
  | preview hstatus hphase hcalls => exact hcalls.asked
  | working w hstatus hphase h => exact h.calls.asked
  | delayed round failures hstatus hphase h => exact h.asked
  | refreshing round index current failures hstatus hphase h => exact h.asked
  | completed failures hstatus hphase h => exact h.asked
  | interrupted hstatus hphase honce hasked => exact hasked

theorem Sound.truthful (h : Sound K N m) :
    m.book.Truthful ∨ m.operation.status = .interrupted ∧ m.book.Interrupted := by
  cases h with
  | preview hstatus hphase hcalls => exact Or.inl hcalls.truthful
  | working w hstatus hphase h => exact Or.inl h.calls.truthful
  | delayed round failures hstatus hphase h => exact Or.inl h.truthful
  | refreshing round index current failures hstatus hphase h => exact Or.inl h.truthful
  | completed failures hstatus hphase h => exact Or.inl h.truthful
  | interrupted hstatus hphase honce hasked hmarked hitems => exact Or.inr ⟨hstatus, hitems⟩

theorem Sound.at_completed (h : Sound K N m) (hcompleted : m.operation.status = .completed) :
    (∃ failures, Polling K N m.book failures)
      ∧ (m.hasRefresh = true → m.book.Without .running) := by
  cases h with
  | completed failures hstatus hphase h hend => exact ⟨⟨failures, h⟩, hend⟩
  | _ => simp_all

end Reading

/-- Whatever the order of the events, `perform` is called at most once for an item and only for those
that were pending, every item is what the last call at its index came back with, and an item that cannot
be refreshed is interrupted. A completed operation has called `perform` for every pending item if the
number of workers was a number; given a `refresh`, no item of it is pending or running unless a call
returned it as pending. -/
theorem batch_once (es : List (Nat × Event)) (ms : Manager) (id : String) (m : Managed)
    (hrun : es.foldlM Manager.step Manager.initial = some ms) (hm : ms id = some m) :
    m.book.Once ∧ m.book.Asked
      ∧ (m.book.Truthful ∨ m.operation.status = .interrupted ∧ m.book.Interrupted)
      ∧ m.book.Marked
      ∧ ((∀ e ∈ es, e.2.unnumbered id = false) → m.operation.status = .completed →
          m.book.All
            ∧ ((∀ e ∈ es, ∀ next, e.2.returned id = some next → next.status ≠ .pending) →
                m.hasRefresh = true → m.book.Without .pending ∧ m.book.Without .running)) := by
  have hsound : Sound (∀ e ∈ es, ∀ next, e.2.returned id = some next → next.status ≠ .pending)
      (∀ e ∈ es, e.2.unnumbered id = false) m :=
    run_sound (fun m hm => (by cases hm)) (fun hK => hK) (fun hN => hN) hrun m hm
  refine ⟨hsound.once, hsound.asked, hsound.truthful, hsound.marked, fun hN hcompleted => ?_⟩
  obtain ⟨⟨failures, hpolling⟩, hend⟩ := hsound.at_completed hcompleted
  exact ⟨hpolling.all hN, fun hK hrefresh => ⟨hpolling.settled hK hN, hend hrefresh⟩⟩

/-! ## Runs -/

def sampleTargets : List Target :=
  [{ id := "a", reason := none }, { id := "b", reason := some "gone" }, { id := "c", reason := none }]

def sampleItem (id : String) (status : OperationItemStatus) : OperationItem := { id, status }

def sampleOptions : OperationOptions := {}

/-- Two workers, a second request to execute in between, and one item that `refresh` brings to an
end. -/
def sampleEvents : List (Nat × Event) :=
  [(0, .preview "op" "delete" sampleTargets sampleOptions),
    (1, .execute "op" true sampleOptions (some 2)),
    (2, .execute "op" true sampleOptions (some 20)),
    (3, .settle "op" 1 (.ok (sampleItem "c" .running))),
    (4, .settle "op" 0 (.ok (sampleItem "a" .success))),
    (5, .conclude "op"), (2005, .wake "op"),
    (2006, .refreshed "op" (.ok (sampleItem "c" .success)))]

theorem batch_once_sample : ∃ ms m, sampleEvents.foldlM Manager.step Manager.initial = some ms
    ∧ ms "op" = some m ∧ m.operation.items.map (·.status) = [.success, .skipped, .success]
    ∧ m.book.Once ∧ m.book.Asked ∧ m.book.Truthful ∧ m.book.Marked ∧ m.book.All
    ∧ m.book.Without .pending ∧ m.book.Without .running := by
  let run := sampleEvents.foldlM Manager.step Manager.initial
  let ms := run.get (by decide +kernel)
  let m := (ms "op").get (by decide +kernel)
  have hrun : run = some ms := (Option.some_get _).symm
  have hm : ms "op" = some m := (Option.some_get _).symm
  obtain ⟨honce, hasked, hitems, hmarked, hend⟩ := batch_once sampleEvents ms "op" m hrun hm
  have htruthful : m.book.Truthful :=
    hitems.resolve_right fun h => absurd h.1 (by decide +kernel : m.operation.status ≠ .interrupted)
  have hall := hend (by decide) (by decide +kernel)
  have hnone := hall.2
    (by decide : ∀ e ∈ sampleEvents, ∀ next ∈ e.2.returned "op", next.status ≠ .pending)
    (by decide +kernel)
  exact ⟨ms, m, hrun, hm, by decide +kernel, honce, hasked, htruthful, hmarked, hall.1, hnone.1,
    hnone.2⟩

/-- `sampleEvents` without a `refresh`. -/
def unrefreshedEvents : List (Nat × Event) :=
  [(0, .preview "op" "delete" sampleTargets sampleOptions),
    (1, .execute "op" false sampleOptions (some 2)),
    (3, .settle "op" 1 (.ok (sampleItem "c" .running))),
    (4, .settle "op" 0 (.ok (sampleItem "a" .success))), (5, .conclude "op")]

/-- No worker starts. -/
def unnumberedEvents : List (Nat × Event) :=
  [(0, .preview "op" "delete" sampleTargets sampleOptions),
    (1, .execute "op" true sampleOptions none), (2, .conclude "op")]

/-- Without a `refresh` an item is left running, and without a number of workers `perform` is not called
for an item that is pending. -/
theorem batch_once_as_stated :
    (¬ ∀ (es : List (Nat × Event)) (ms : Manager) (id : String) (m : Managed),
      es.foldlM Manager.step Manager.initial = some ms → ms id = some m →
      (∀ e ∈ es, ∀ next, e.2.returned id = some next → next.status ≠ .pending) →
      (∀ e ∈ es, e.2.unnumbered id = false) →
      m.operation.status = .completed → m.book.Without .running)
    ∧ ¬ ∀ (es : List (Nat × Event)) (ms : Manager) (id : String) (m : Managed),
      es.foldlM Manager.step Manager.initial = some ms → ms id = some m →
      m.operation.status = .completed → m.book.All := by
  refine ⟨fun h => ?_, fun h => ?_⟩
  · let run := unrefreshedEvents.foldlM Manager.step Manager.initial
    let ms := run.get (by decide +kernel)
    let m := (ms "op").get (by decide +kernel)
    have hwithout := h unrefreshedEvents ms "op" m (Option.some_get _).symm (Option.some_get _).symm
      (by decide : ∀ e ∈ unrefreshedEvents, ∀ next ∈ e.2.returned "op", next.status ≠ .pending)
      (by decide) (by decide +kernel)
    exact hwithout 2 (sampleItem "c" .running) (by decide +kernel) rfl
  · let run := unnumberedEvents.foldlM Manager.step Manager.initial
    let ms := run.get (by decide +kernel)
    let m := (ms "op").get (by decide +kernel)
    have hall := h unnumberedEvents ms "op" m (Option.some_get _).symm (Option.some_get _).symm
      (by decide +kernel)
    have hcount := hall 0 (sampleItem "a" .pending) (by decide +kernel)
    exact absurd hcount (by decide +kernel)

end GhcpConsole.Management
