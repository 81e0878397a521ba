import GhcpConsole.Requests.Runtime

/-!
# Every admitted hold is finished once

`Custody` says where the hold of a request is: not acquired, on its way to the request, cleaned up,
or in the care of the closure `finish`. Every event keeps one of these, and only the events that end
the care call the store. What is left open when the response closes is an operation that is still
running, and its end calls `finish` again.
-/

namespace GhcpConsole.Requests

open Pool (HeldLease StoreError)

/-! ## What the pieces do -/

namespace BoundedAdmission

variable {T : Type} {a a' : BoundedAdmission T} {late : Option T}

theorem start_eq_some (h : a.start = some a') :
    a.operation = .deferred ∧ ∃ o, (o = .running ∨ ∃ e, o = .threw e) ∧ a' = { a with operation := o } := by
  unfold start at h
  split at h
  · rename_i hop
    refine ⟨hop, _, ?_, (Option.some.inj h).symm⟩
    cases a.aborted with
    | true => exact .inr ⟨_, rfl⟩
    | false => exact .inl rfl
  · cases h

theorem settle_eq_some {result : Except StoreError T} (h : a.settle result = some a') :
    a.operation = .running ∧
      ((∃ v, result = .ok v ∧ a' = { a with operation := .returned v })
        ∨ ∃ e, result = .error e ∧ a' = { a with operation := .threw e }) := by
  unfold settle at h
  split at h
  · rename_i hop
    obtain rfl := Option.some.inj h
    cases result with
    | ok v => exact ⟨hop, .inl ⟨v, rfl, rfl⟩⟩
    | error e => exact ⟨hop, .inr ⟨e, rfl, rfl⟩⟩
  · cases h

theorem complete_eq_some (h : a.complete = some (a', late)) :
    (∃ v, a.operation = .returned v ∧
      ((late = some v ∧ a' = { a with operation := .ended })
        ∨ (late = none ∧ a.ended = false
          ∧ a' = { a with operation := .ended, ended := true, result := some (.ok v) })))
    ∨ ∃ e, a.operation = .threw e ∧ late = none ∧
      (a' = { a with operation := .ended }
        ∨ a' = { a with operation := .ended, ended := true, result := some (.error e) }) := by
  unfold complete at h
  split at h
  · rename_i v hop
    left
    refine ⟨v, hop, ?_⟩
    dsimp only at h
    split at h
    · obtain ⟨rfl, rfl⟩ := Prod.mk.inj (Option.some.inj h)
      exact .inl ⟨rfl, rfl⟩
    · rename_i hguard
      obtain ⟨rfl, rfl⟩ := Prod.mk.inj (Option.some.inj h)
      have hended : a.ended = false := by
        cases hended : a.ended with
        | false => rfl
        | true => simp [hended] at hguard
      exact .inr ⟨rfl, hended, rfl⟩
  · rename_i e hop
    right
    obtain ⟨ha, rfl⟩ := Prod.mk.inj (Option.some.inj h)
    refine ⟨e, hop, rfl, ?_⟩
    dsimp only at ha
    split at ha
    · exact .inl ha.symm
    · exact .inr ha.symm
  · cases h

theorem abort_ended (a : BoundedAdmission T) : a.abort.ended = true := by
  unfold abort
  dsimp only
  split
  · assumption
  · rfl

@[simp] theorem abort_operation (a : BoundedAdmission T) : a.abort.operation = a.operation := by
  unfold abort
  dsimp only
  split <;> rfl

/-- An abort settles an admission that is not, with an error. -/
theorem abort_result (a : BoundedAdmission T) :
    (a.abort.result = a.result ∧ a.abort.ended = a.ended)
      ∨ (a.ended = false ∧ a.abort.ended = true ∧ ∃ e, a.abort.result = some (.error e)) := by
  unfold abort
  dsimp only
  cases hended : a.ended with
  | true => exact .inl ⟨rfl, rfl⟩
  | false => exact .inr ⟨rfl, rfl, _, rfl⟩

end BoundedAdmission

namespace Request

variable {r : Request} {c : PoolRequest} {success : Bool}

theorem finish_none (h : r.context = none) : r.finish success = r := by
  simp [finish, h]

/-- Whether a completion renews the lease. -/
def renews (r : Request) (success : Bool) : Bool :=
  success && r.inference && 200 ≤ r.statusCode && r.statusCode < 300

/-- A completion is repeated, deferred to the end of the running operation, or finishes the hold. -/
theorem finish_some (success : Bool) (h : r.context = some c) : ∃ c' calls,
    r.finish success = { r with
      context := some c', completions := r.completions ++ [(success, r.statusCode)]
      finishCalls := r.finishCalls ++ calls }
    ∧ c'.held = c.held ∧ c'.operationActive = c.operationActive
    ∧ c'.responseSucceeded = (c.responseSucceeded || r.renews success)
    ∧ ((c.finishing = true ∧ c'.finishing = true ∧ calls = [])
      ∨ (c.finishing = false ∧ c'.finishing = false ∧ c.operationActive = true ∧ calls = [])
      ∨ (c.finishing = false ∧ c'.finishing = true
        ∧ calls = [⟨c.held, c'.responseSucceeded, .completion⟩])) := by
  unfold finish
  rw [h]
  cases hfinishing : c.finishing with
  | true =>
      refine ⟨{ c with responseSucceeded := c.responseSucceeded || r.renews success }, [], ?_,
        rfl, rfl, rfl, .inl ⟨rfl, hfinishing, rfl⟩⟩
      simp [renews, hfinishing]
  | false =>
      cases hdeferred : c.operationActive && !c.upstreamComplete with
      | true =>
          have hactive := (Bool.and_eq_true_iff.mp hdeferred).1
          refine ⟨{ c with
              responseSucceeded := c.responseSucceeded || r.renews success, armed := false }, [], ?_,
            rfl, rfl, rfl, .inr (.inl ⟨rfl, hfinishing, hactive, rfl⟩)⟩
          simp [renews, hfinishing, hdeferred]
      | false =>
          refine ⟨{ c with
              responseSucceeded := c.responseSucceeded || r.renews success, armed := false
              completed := true, finishing := true }, _, ?_, rfl, rfl, rfl, .inr (.inr ⟨rfl, rfl, rfl⟩)⟩
          simp [renews, storeFinish, hfinishing, hdeferred]

end Request

/-! ## Where the hold is -/

inductive Custody (r : Request) : Prop
  /-- The store has returned none. -/
  | unheld (hacquired : r.acquired = none) (hcalls : r.finishCalls = []) (hcontext : r.context = none)
      (hhandled : r.handled = none) (hoperation : ∀ h, r.admission.operation ≠ .returned h)
      (hresult : ∀ h, r.admission.result ≠ some (.ok h))
  /-- The last callback of the admission has not run. -/
  | returned (held : HeldLease) (hacquired : r.acquired = some held) (hcalls : r.finishCalls = [])
      (hcontext : r.context = none) (hhandled : r.handled = none)
      (hoperation : r.admission.operation = .returned held)
      (hresult : ∀ h, r.admission.result ≠ some (.ok h))
  /-- `routeUserPool` has not gone on. -/
  | admitted (held : HeldLease) (hacquired : r.acquired = some held) (hcalls : r.finishCalls = [])
      (hcontext : r.context = none) (hhandled : r.handled = none)
      (hoperation : r.admission.operation = .ended)
      (hresult : r.admission.result = some (.ok held)) (hended : r.admission.ended = true)
      (hresumed : r.resumed = false)
  | cleaned (held : HeldLease) (site : FinishSite) (hacquired : r.acquired = some held)
      (hcalls : r.finishCalls = [⟨held, false, site⟩]) (hsite : site ≠ .completion)
      (hcontext : r.context = none) (hhandled : r.handled = none)
      (hoperation : r.admission.operation = .ended)
      (hresult : r.resumed = true ∨ ∀ h, r.admission.result ≠ some (.ok h))
  | routed (held : HeldLease) (c : PoolRequest) (hacquired : r.acquired = some held)
      (hcontext : r.context = some c) (hheld : c.held = held) (hhandled : r.handled = some held)
      (hoperation : r.admission.operation = .ended) (hresumed : r.resumed = true)
      (hcalls : (c.finishing = false ∧ r.finishCalls = [])
        ∨ (c.finishing = true ∧ ∃ success, r.finishCalls = [⟨held, success, .completion⟩]))

/-- A completion has reported the success of an inference with a 2xx status. -/
def Succeeded (r : Request) : Prop :=
  r.inference = true ∧ ∃ status, (true, status) ∈ r.completions ∧ 200 ≤ status ∧ status < 300

structure Sound (r : Request) : Prop where
  custody : Custody r
  settled : r.admission.result.isSome = true ∨ r.resumed = true → r.admission.ended = true
  closed : r.closeEmitted = true → r.destroyed = true
  active : ∀ c, r.context = some c → c.operationActive = true → r.operations ≠ 0
  succeeded : ∀ c, r.context = some c → c.responseSucceeded = true → Succeeded r
  reported : ∀ call ∈ r.finishCalls, call.success = true → Succeeded r

/-- After the close only a running operation keeps the hold. -/
def Closing (r : Request) : Prop :=
  ∀ c, r.context = some c → r.closeEmitted = true → c.finishing = false → c.operationActive = true

structure Inv (r : Request) : Prop where
  sound : Sound r
  closing : Closing r

/-! ## Pieces of events -/

section Pieces

variable {r : Request}

theorem Inv.initial (inference closed : Bool) (statusCode : Nat) :
    Inv (.initial inference closed statusCode) where
  sound :=
    { custody := .unheld rfl rfl rfl rfl nofun nofun
      settled := by simp [Request.initial, BoundedAdmission.initial]
      closed := fun h => h
      active := fun _ hcontext => nomatch hcontext
      succeeded := fun _ hcontext => nomatch hcontext
      reported := fun _ hcall => nomatch hcall }
  closing := fun _ hcontext => nomatch hcontext

/-- What happens to the response alone. -/
theorem Sound.response (h : Sound r) (statusCode : Nat)
    (poolSuccess destroyed requestAborted writableFinished finishEmitted closeEmitted : Bool)
    (hclosed : closeEmitted = true → destroyed = true) :
    Sound { r with
      statusCode := statusCode, poolSuccess := poolSuccess, destroyed := destroyed
      requestAborted := requestAborted, writableFinished := writableFinished
      finishEmitted := finishEmitted, closeEmitted := closeEmitted } where
  custody := by
    cases h.custody with
    | unheld h1 h2 h3 h4 h5 h6 => exact .unheld h1 h2 h3 h4 h5 h6
    | returned held h1 h2 h3 h4 h5 h6 => exact .returned held h1 h2 h3 h4 h5 h6
    | admitted held h1 h2 h3 h4 h5 h6 h7 h8 => exact .admitted held h1 h2 h3 h4 h5 h6 h7 h8
    | cleaned held site h1 h2 h3 h4 h5 h6 h7 => exact .cleaned held site h1 h2 h3 h4 h5 h6 h7
    | routed held c h1 h2 h3 h4 h5 h6 h7 => exact .routed held c h1 h2 h3 h4 h5 h6 h7
  settled := h.settled
  closed := hclosed
  active := h.active
  succeeded := h.succeeded
  reported := h.reported

/-- An abort of the admission leaves the hold where it is. -/
theorem Sound.abort (h : Sound r) : Sound { r with admission := r.admission.abort } := by
  have hop := BoundedAdmission.abort_operation r.admission
  have hnone : (∀ held, r.admission.result ≠ some (.ok held)) →
      ∀ held, r.admission.abort.result ≠ some (.ok held) := by
    intro hresult held
    rcases BoundedAdmission.abort_result r.admission with ⟨heq, -⟩ | ⟨-, -, e, heq⟩
    · rw [heq]
      exact hresult held
    · rw [heq]
      nofun
  refine ⟨?_, fun _ => r.admission.abort_ended, h.closed, h.active, h.succeeded, h.reported⟩
  cases h.custody with
  | unheld h1 h2 h3 h4 h5 h6 => exact .unheld h1 h2 h3 h4 (by simpa [hop] using h5) (hnone h6)
  | returned held h1 h2 h3 h4 h5 h6 => exact .returned held h1 h2 h3 h4 (hop.trans h5) (hnone h6)
  | admitted held h1 h2 h3 h4 h5 h6 h7 h8 =>
      rcases BoundedAdmission.abort_result r.admission with ⟨heq, hended⟩ | ⟨hended, -⟩
      · exact .admitted held h1 h2 h3 h4 (hop.trans h5) (heq.trans h6) (hended.trans h7) h8
      · rw [h7] at hended
        cases hended
  | cleaned held site h1 h2 h3 h4 h5 h6 h7 =>
      exact .cleaned held site h1 h2 h3 h4 h5 (hop.trans h6) (h7.imp_right hnone)
  | routed held c h1 h2 h3 h4 h5 h6 h7 => exact .routed held c h1 h2 h3 h4 (hop.trans h5) h6 h7

theorem Succeeded.report (h : Succeeded r) (report : Bool × Nat) (c : Option PoolRequest)
    (calls : List FinishCall) : Succeeded { r with
      context := c, completions := r.completions ++ [report], finishCalls := calls } := by
  obtain ⟨hinference, status, hmem, hstatus⟩ := h
  exact ⟨hinference, status, List.mem_append_left _ hmem, hstatus⟩

/-- A completion leaves the hold in care only where an operation is running. -/
theorem Sound.finish (h : Sound r) (success : Bool) : Inv (r.finish success) := by
  cases hcontext : r.context with
  | none =>
      rw [Request.finish_none hcontext]
      refine ⟨h, ?_⟩
      intro c hc
      rw [hcontext] at hc
      cases hc
  | some c =>
      obtain ⟨c', calls, hrun, hheld, hactive, hsuccess, hcases⟩ :=
        Request.finish_some success hcontext
      rw [hrun]
      have hsucceeded : c'.responseSucceeded = true → Succeeded { r with
          context := some c', completions := r.completions ++ [(success, r.statusCode)]
          finishCalls := r.finishCalls ++ calls } := by
        intro hc'
        rw [hsuccess, Bool.or_eq_true] at hc'
        rcases hc' with hc | hrenews
        · exact (h.succeeded c hcontext hc).report _ _ _
        · simp only [Request.renews, Bool.and_eq_true, decide_eq_true_eq] at hrenews
          obtain ⟨⟨⟨rfl, hinference⟩, hlow⟩, hhigh⟩ := hrenews
          exact ⟨hinference, r.statusCode, by simp, hlow, hhigh⟩
      refine ⟨⟨?_, h.settled, h.closed, ?_, ?_, ?_⟩, ?_⟩
      · cases h.custody with
        | unheld h1 h2 h3 => simp [h3] at hcontext
        | returned held h1 h2 h3 => simp [h3] at hcontext
        | admitted held h1 h2 h3 => simp [h3] at hcontext
        | cleaned held site h1 h2 h3 h4 => simp [h4] at hcontext
        | routed held d h1 h2 h3 h4 h5 h6 h7 =>
            obtain rfl : c = d := Option.some.inj (hcontext.symm.trans h2)
            refine .routed held c' h1 rfl (hheld.trans h3) h4 h5 h6 ?_
            rcases hcases with ⟨hc, hc', rfl⟩ | ⟨hc, hc', -, rfl⟩ | ⟨hc, hc', rfl⟩
            · rcases h7 with ⟨hno, -⟩ | ⟨-, hcalls⟩
              · simp [hc] at hno
              · exact .inr ⟨hc', by simpa using hcalls⟩
            · rcases h7 with ⟨-, hcalls⟩ | ⟨hno, -⟩
              · exact .inl ⟨hc', by simpa using hcalls⟩
              · simp [hc] at hno
            · rcases h7 with ⟨-, hcalls⟩ | ⟨hno, -⟩
              · exact .inr ⟨hc', c'.responseSucceeded, by simp [hcalls, h3]⟩
              · simp [hc] at hno
      · rintro d ⟨⟩ hd
        exact h.active c hcontext (hactive ▸ hd)
      · rintro d ⟨⟩ hd
        exact hsucceeded hd
      · intro call hcall hcallsuccess
        rcases List.mem_append.mp hcall with hcall | hcall
        · exact (h.reported call hcall hcallsuccess).report _ _ _
        · rcases hcases with ⟨-, -, rfl⟩ | ⟨-, -, -, rfl⟩ | ⟨-, -, rfl⟩
          · cases hcall
          · cases hcall
          · obtain rfl := List.mem_singleton.mp hcall
            exact hsucceeded hcallsuccess
      · rintro d ⟨⟩ - hd
        rcases hcases with ⟨-, hc', -⟩ | ⟨-, -, hrunning, -⟩ | ⟨-, hc', -⟩
        · simp [hc'] at hd
        · exact hactive.trans hrunning
        · simp [hc'] at hd

/-- An operation starts or ends, or its upstream is complete. -/
theorem Sound.operation (h : Sound r) (poolSuccess : Bool) (operations : Nat)
    (set : PoolRequest → PoolRequest)
    (hset : ∀ c, (set c).held = c.held ∧ (set c).finishing = c.finishing
      ∧ (set c).responseSucceeded = c.responseSucceeded)
    (hactive : ∀ c, r.context = some c → (set c).operationActive = true → operations ≠ 0) :
    Sound ({ r with poolSuccess := poolSuccess, operations := operations }.setContext set) := by
  have hcontext : ∀ c', r.context.map set = some c' → ∃ c, r.context = some c ∧ set c = c' := by
    intro c' hc'
    exact Option.map_eq_some_iff.mp hc'
  refine ⟨?_, h.settled, h.closed, ?_, ?_, h.reported⟩
  · cases h.custody with
    | unheld h1 h2 h3 h4 h5 h6 =>
        exact .unheld h1 h2 (by simp [Request.setContext, h3]) h4 h5 h6
    | returned held h1 h2 h3 h4 h5 h6 =>
        exact .returned held h1 h2 (by simp [Request.setContext, h3]) h4 h5 h6
    | admitted held h1 h2 h3 h4 h5 h6 h7 h8 =>
        exact .admitted held h1 h2 (by simp [Request.setContext, h3]) h4 h5 h6 h7 h8
    | cleaned held site h1 h2 h3 h4 h5 h6 h7 =>
        exact .cleaned held site h1 h2 h3 (by simp [Request.setContext, h4]) h5 h6 h7
    | routed held c h1 h2 h3 h4 h5 h6 h7 =>
        obtain ⟨hheld, hfinishing, -⟩ := hset c
        refine .routed held (set c) h1 (by simp [Request.setContext, h2]) (hheld.trans h3) h4 h5 h6 ?_
        rw [hfinishing]
        exact h7
  · intro c' hc' hd
    obtain ⟨c, hc, rfl⟩ := hcontext c' hc'
    exact hactive c hc hd
  · intro c' hc' hd
    obtain ⟨c, hc, rfl⟩ := hcontext c' hc'
    exact h.succeeded c hc ((hset c).2.2 ▸ hd)

end Pieces

/-! ## One event -/

section Events

variable {r r' : Request}

theorem when_eq_some {guard : Bool} {x : Request} (h : when guard x = some r') :
    guard = true ∧ x = r' := by
  cases guard with
  | true => exact ⟨rfl, Option.some.inj h⟩
  | false => cases h

theorem Inv.admissionStarts (h : Inv r) (hstep : r.step .admissionStarts = some r') : Inv r' := by
  obtain ⟨a, ha, rfl⟩ := Option.map_eq_some_iff.mp hstep
  obtain ⟨hop, o, ho, rfl⟩ := BoundedAdmission.start_eq_some ha
  refine ⟨⟨?_, h.sound.settled, h.sound.closed, h.sound.active, h.sound.succeeded,
    h.sound.reported⟩, h.closing⟩
  cases h.sound.custody with
  | unheld h1 h2 h3 h4 h5 h6 =>
      refine .unheld h1 h2 h3 h4 ?_ h6
      rcases ho with rfl | ⟨e, rfl⟩ <;> nofun
  | returned held h1 h2 h3 h4 h5 h6 => simp [hop] at h5
  | admitted held h1 h2 h3 h4 h5 h6 h7 h8 => simp [hop] at h5
  | cleaned held site h1 h2 h3 h4 h5 h6 h7 => simp [hop] at h6
  | routed held c h1 h2 h3 h4 h5 h6 h7 => simp [hop] at h5

theorem Inv.admissionSettles {result : Except StoreError HeldLease} (h : Inv r)
    (hstep : r.step (.admissionSettles result) = some r') : Inv r' := by
  obtain ⟨a, ha, rfl⟩ := Option.map_eq_some_iff.mp hstep
  obtain ⟨hop, hcases⟩ := BoundedAdmission.settle_eq_some ha
  have hsettled : a.result.isSome = true ∨ r.resumed = true → a.ended = true := by
    rcases hcases with ⟨v, -, rfl⟩ | ⟨e, -, rfl⟩ <;> exact h.sound.settled
  refine ⟨⟨?_, hsettled, h.sound.closed, h.sound.active, h.sound.succeeded, h.sound.reported⟩,
    h.closing⟩
  cases h.sound.custody with
  | unheld h1 h2 h3 h4 h5 h6 =>
      rcases hcases with ⟨held, rfl, rfl⟩ | ⟨e, rfl, rfl⟩
      · exact .returned held rfl h2 h3 h4 rfl h6
      · exact .unheld h1 h2 h3 h4 nofun h6
  | returned held h1 h2 h3 h4 h5 h6 => simp [hop] at h5
  | admitted held h1 h2 h3 h4 h5 h6 h7 h8 => simp [hop] at h5
  | cleaned held site h1 h2 h3 h4 h5 h6 h7 => simp [hop] at h6
  | routed held c h1 h2 h3 h4 h5 h6 h7 => simp [hop] at h5

/-- The last callback of the admission: a late hold is cleaned up here. -/
theorem Inv.admissionCompletes (h : Inv r) (hstep : r.step .admissionCompletes = some r') : Inv r' := by
  obtain ⟨⟨a, late⟩, ha, rfl⟩ := Option.map_eq_some_iff.mp hstep
  have hs := h.sound
  rcases BoundedAdmission.complete_eq_some ha with ⟨v, hop, hcases⟩ | ⟨e, hop, rfl, hcases⟩
  · cases hs.custody with
    | unheld h1 h2 h3 h4 h5 h6 => exact absurd hop (h5 v)
    | returned held h1 h2 h3 h4 h5 h6 =>
        obtain rfl : v = held := by simpa [hop] using h5
        rcases hcases with ⟨rfl, rfl⟩ | ⟨rfl, hended, rfl⟩
        · refine ⟨⟨?_, hs.settled, hs.closed, hs.active, hs.succeeded, ?_⟩, h.closing⟩
          · exact .cleaned v .late h1 (by simp [Request.storeFinish, h2]) (by decide) h3 h4 rfl (.inr h6)
          · intro call hcall hsuccess
            obtain rfl : call = ⟨v, false, .late⟩ := by simpa [Request.storeFinish, h2] using hcall
            cases hsuccess
        · refine ⟨⟨?_, fun _ => rfl, hs.closed, hs.active, hs.succeeded, hs.reported⟩, h.closing⟩
          have hresumed : r.resumed = false := by
            cases hresumed : r.resumed with
            | false => rfl
            | true =>
                rw [hs.settled (.inr hresumed)] at hended
                cases hended
          exact .admitted v h1 h2 h3 h4 rfl rfl rfl hresumed
    | admitted held h1 h2 h3 h4 h5 h6 h7 h8 => simp [hop] at h5
    | cleaned held site h1 h2 h3 h4 h5 h6 h7 => simp [hop] at h6
    | routed held c h1 h2 h3 h4 h5 h6 h7 => simp [hop] at h5
  · have hsettled : a.result.isSome = true ∨ r.resumed = true → a.ended = true := by
      rcases hcases with rfl | rfl
      · exact hs.settled
      · exact fun _ => rfl
    refine ⟨⟨?_, hsettled, hs.closed, hs.active, hs.succeeded, hs.reported⟩, h.closing⟩
    cases hs.custody with
    | unheld h1 h2 h3 h4 h5 h6 =>
        rcases hcases with rfl | rfl
        · exact .unheld h1 h2 h3 h4 nofun h6
        · exact .unheld h1 h2 h3 h4 nofun nofun
    | returned held h1 h2 h3 h4 h5 h6 => simp [hop] at h5
    | admitted held h1 h2 h3 h4 h5 h6 h7 h8 => simp [hop] at h5
    | cleaned held site h1 h2 h3 h4 h5 h6 h7 => simp [hop] at h6
    | routed held c h1 h2 h3 h4 h5 h6 h7 => simp [hop] at h5

/-- `routeUserPool` goes on: with an error, with a client that is gone, or to the handler. -/
theorem Inv.resume (h : Inv r) (hstep : r.step .resume = some r') : Inv r' := by
  have hs := h.sound
  have hrun : r.resume = some r' := hstep
  unfold Request.resume at hrun
  split at hrun
  · rename_i result hresumed hresult
    have hended : r.admission.ended = true := hs.settled (.inl (by simp [hresult]))
    cases result with
    | error e =>
        obtain rfl := Option.some.inj hrun
        refine ⟨⟨?_, fun _ => hended, hs.closed, hs.active, hs.succeeded, hs.reported⟩, h.closing⟩
        cases hs.custody with
        | unheld h1 h2 h3 h4 h5 h6 => exact .unheld h1 h2 h3 h4 h5 h6
        | returned held h1 h2 h3 h4 h5 h6 => exact .returned held h1 h2 h3 h4 h5 h6
        | admitted held h1 h2 h3 h4 h5 h6 h7 h8 => simp [hresult] at h6
        | cleaned held site h1 h2 h3 h4 h5 h6 h7 => exact .cleaned held site h1 h2 h3 h4 h5 h6 (.inl rfl)
        | routed held c h1 h2 h3 h4 h5 h6 h7 => exact .routed held c h1 h2 h3 h4 h5 rfl h7
    | ok held =>
        cases hs.custody with
        | unheld h1 h2 h3 h4 h5 h6 => exact absurd hresult (h6 held)
        | returned held' h1 h2 h3 h4 h5 h6 => exact absurd hresult (h6 held)
        | admitted held' h1 h2 h3 h4 h5 h6 h7 h8 =>
            obtain rfl : held = held' := by simpa [hresult] using h6
            cases hgone : r.destroyed || r.requestAborted with
            | true =>
                simp only [hgone, if_true] at hrun
                obtain rfl := Option.some.inj hrun
                refine ⟨⟨?_, fun _ => hended, hs.closed, hs.active, hs.succeeded, ?_⟩, h.closing⟩
                · exact .cleaned held .disconnected h1 (by simp [Request.storeFinish, h2])
                    (by decide) h3 h4 h5 (.inl rfl)
                · intro call hcall hsuccess
                  obtain rfl : call = ⟨held, false, .disconnected⟩ := by
                    simpa [Request.storeFinish, h2] using hcall
                  cases hsuccess
            | false =>
                simp only [hgone, Bool.false_eq_true, if_false] at hrun
                obtain rfl := Option.some.inj hrun
                have hopen : r.closeEmitted ≠ true := by
                  intro hclosed
                  simp [hs.closed hclosed] at hgone
                refine ⟨⟨?_, fun _ => hended, hs.closed, ?_, ?_, hs.reported⟩, ?_⟩
                · exact .routed held _ h1 rfl rfl rfl h5 rfl (.inl ⟨rfl, h2⟩)
                · rintro c ⟨⟩ hactive
                  cases hactive
                · rintro c ⟨⟩ hsuccess
                  cases hsuccess
                · rintro c ⟨⟩ hclosed
                  exact absurd hclosed hopen
        | cleaned held' site h1 h2 h3 h4 h5 h6 h7 =>
            rcases h7 with hyes | hno
            · simp [hresumed] at hyes
            · exact absurd hresult (hno held)
        | routed held' c h1 h2 h3 h4 h5 h6 h7 => simp [hresumed] at h6
  · cases hrun

theorem Inv.step {e : Event} (h : Inv r) (hstep : r.step e = some r') : Inv r' := by
  have hs := h.sound
  cases e with
  | admissionStarts => exact h.admissionStarts hstep
  | admissionSettles result => exact h.admissionSettles hstep
  | admissionCompletes => exact h.admissionCompletes hstep
  | admissionTimeout =>
      obtain ⟨-, rfl⟩ := when_eq_some hstep
      exact ⟨hs.abort, h.closing⟩
  | resume => exact h.resume hstep
  | requestAborted =>
      obtain rfl := Option.some.inj hstep
      exact ⟨hs.response _ _ _ _ _ _ _ hs.closed, h.closing⟩
  | statusSet statusCode =>
      obtain rfl := Option.some.inj hstep
      exact ⟨hs.response _ _ _ _ _ _ _ hs.closed, h.closing⟩
  | destroyed =>
      obtain rfl := Option.some.inj hstep
      exact ⟨hs.response _ _ _ _ _ _ _ fun _ => rfl, h.closing⟩
  | flushed =>
      obtain rfl := Option.some.inj hstep
      exact ⟨hs.response _ _ _ _ _ _ _ hs.closed, h.closing⟩
  | resFinish =>
      obtain ⟨-, rfl⟩ := when_eq_some hstep
      exact (hs.response r.statusCode r.poolSuccess r.destroyed r.requestAborted true true
        r.closeEmitted hs.closed).finish _
  | resClose =>
      obtain ⟨-, rfl⟩ := when_eq_some hstep
      have hclosed := hs.response r.statusCode r.poolSuccess true r.requestAborted r.writableFinished
        r.finishEmitted true fun _ => rfl
      cases hguarded : r.guarded with
      | true => simpa [hguarded] using hclosed.abort.finish false
      | false => simpa [hguarded] using hclosed.finish false
  | operationStarts =>
      obtain ⟨-, rfl⟩ := when_eq_some hstep
      refine ⟨hs.operation r.poolSuccess (r.operations + 1) _ (fun _ => ⟨rfl, rfl, rfl⟩) ?_, ?_⟩
      · intro c hc hactive
        omega
      · intro c' hc' hclosed hfinishing
        obtain ⟨c, hc, rfl⟩ := Option.map_eq_some_iff.mp hc'
        rfl
  | upstreamComplete success =>
      obtain ⟨-, rfl⟩ := when_eq_some hstep
      refine ⟨hs.operation success r.operations _ (fun _ => ⟨rfl, rfl, rfl⟩) hs.active, ?_⟩
      intro c' hc' hclosed hfinishing
      obtain ⟨c, hc, rfl⟩ := Option.map_eq_some_iff.mp hc'
      exact h.closing c hc hclosed hfinishing
  | operationEnds =>
      obtain ⟨-, rfl⟩ := when_eq_some hstep
      have hended := hs.operation r.poolSuccess (r.operations - 1)
        ({ · with operationActive := false }) (fun _ => ⟨rfl, rfl, rfl⟩) nofun
      cases hover : r.destroyed || r.writableFinished with
      | true => simpa [hover] using hended.finish _
      | false =>
          simp only [Bool.false_eq_true, if_false]
          refine ⟨hended, ?_⟩
          intro c' hc' hclosed
          simp [hs.closed hclosed] at hover
  | deadline headersSent writableEnded =>
      obtain ⟨-, rfl⟩ := when_eq_some hstep
      split
      · exact ⟨hs.response _ _ _ _ _ _ _ hs.closed, h.closing⟩
      · split
        · exact ⟨hs.response _ _ _ _ _ _ _ fun _ => rfl, h.closing⟩
        · exact h
  | holdLost =>
      obtain ⟨-, rfl⟩ := when_eq_some hstep
      exact ⟨hs.response _ _ _ _ _ _ _ fun _ => rfl, h.closing⟩

end Events

/-! ## Runs -/

/-- The promise callbacks have run, the response is closed and no operation is running. -/
def Request.Over (r : Request) : Prop :=
  r.admission.operation = .ended ∧ (r.admission.result.isSome = true → r.resumed = true)
    ∧ r.closeEmitted = true ∧ r.operations = 0

/-- For every order of events: a hold the store returns is finished at most once, and once when the
request is over; a hold that was cleaned up is never handled; success is reported only for an
inference with a 2xx status. -/
theorem hold_release {inference closed : Bool} {statusCode : Nat} {r : Request}
    (h : Reaches Request.step (.initial inference closed statusCode) r) :
    (∀ held, r.acquired = some held →
      (r.finishCalls = [] ∨ ∃ success site, r.finishCalls = [⟨held, success, site⟩])
      ∧ (r.Over → ∃ success site, r.finishCalls = [⟨held, success, site⟩]))
    ∧ (r.acquired = none → r.finishCalls = [] ∧ r.handled = none)
    ∧ (∀ call ∈ r.finishCalls, call.site ≠ .completion → r.handled = none)
    ∧ ∀ call ∈ r.finishCalls, call.success = true →
        r.inference = true ∧ ∃ status, (true, status) ∈ r.completions ∧ 200 ≤ status ∧ status < 300 := by
  have hinv := h.invariant (Inv.initial inference closed statusCode) fun _ _ _ hr hstep => hr.step hstep
  refine ⟨?_, ?_, ?_, hinv.sound.reported⟩
  · intro held hacquired
    cases hinv.sound.custody with
    | unheld h1 => simp [h1] at hacquired
    | returned held' h1 h2 h3 h4 h5 h6 =>
        refine ⟨.inl h2, fun hover => ?_⟩
        simp [hover.1] at h5
    | admitted held' h1 h2 h3 h4 h5 h6 h7 h8 =>
        refine ⟨.inl h2, fun hover => ?_⟩
        simp [hover.2.1 (by simp [h6])] at h8
    | cleaned held' site h1 h2 =>
        obtain rfl : held = held' := by simpa [hacquired] using h1
        exact ⟨.inr ⟨_, _, h2⟩, fun _ => ⟨_, _, h2⟩⟩
    | routed held' c h1 h2 h3 h4 h5 h6 h7 =>
        obtain rfl : held = held' := by simpa [hacquired] using h1
        rcases h7 with ⟨hfinishing, hcalls⟩ | ⟨-, success, hcalls⟩
        · refine ⟨.inl hcalls, fun hover => ?_⟩
          have hactive := hinv.closing c h2 hover.2.2.1 hfinishing
          exact absurd hover.2.2.2 (hinv.sound.active c h2 hactive)
        · exact ⟨.inr ⟨_, _, hcalls⟩, fun _ => ⟨_, _, hcalls⟩⟩
  · intro hacquired
    cases hinv.sound.custody with
    | unheld h1 h2 h3 h4 => exact ⟨h2, h4⟩
    | returned held h1 => simp [h1] at hacquired
    | admitted held h1 => simp [h1] at hacquired
    | cleaned held site h1 => simp [h1] at hacquired
    | routed held c h1 => simp [h1] at hacquired
  · intro call hcall hsite
    cases hinv.sound.custody with
    | unheld h1 h2 h3 h4 => exact h4
    | returned held h1 h2 h3 h4 => exact h4
    | admitted held h1 h2 h3 h4 => exact h4
    | cleaned held site h1 h2 h3 h4 h5 => exact h5
    | routed held c h1 h2 h3 h4 h5 h6 h7 =>
        rcases h7 with ⟨-, hcalls⟩ | ⟨-, success, hcalls⟩
        · simp [hcalls] at hcall
        · obtain rfl : call = ⟨held, success, .completion⟩ := by simpa [hcalls] using hcall
          exact absurd rfl hsite

/-! An inference whose response is finished while its operation still records statistics. -/

def sampleHeld : HeldLease :=
  { callerId := "alice", memberIdentity := "abel_acme", enterpriseId := "acme", leaseId := "lease-1"
    phase := .active, assignedAt := 0, lastSuccessAt := none, expiresAt := 900
    requestId := "request-1", kind := .lease, deadlineAt := 300 }

def sampleEvents : List Event :=
  [.admissionStarts, .admissionSettles (.ok sampleHeld), .admissionCompletes, .resume,
    .operationStarts, .statusSet 200, .upstreamComplete true, .resFinish, .operationEnds, .resClose]

def sampleServed : Request :=
  (sampleEvents.foldlM Request.step (.initial true false 200)).get rfl

theorem hold_release_sample :
    sampleServed.Over ∧ ∃ success site, sampleServed.finishCalls = [⟨sampleHeld, success, site⟩] := by
  have hover : sampleServed.Over := ⟨rfl, fun _ => rfl, rfl, rfl⟩
  have hrun : Reaches Request.step (.initial true false 200) sampleServed :=
    Reaches.of_foldlM (Option.some_get _).symm
  exact ⟨hover, ((hold_release hrun).1 sampleHeld rfl).2 hover⟩

end GhcpConsole.Requests
