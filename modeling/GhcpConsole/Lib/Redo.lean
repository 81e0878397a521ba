import Mathlib.Data.List.Basic

/-!
# Starting over after a crash

A program is a list of actions, each of which commits as a whole or fails and leaves the state as it
was. A crash cuts a run off between two actions, and the next run starts from the first action again.

If every action does nothing once it is done, and no later action undoes it, then a run that is cut
off anywhere and started over ends as one that was never cut off (`perform_resume`).
-/

namespace GhcpConsole

variable {δ ε : Type}

/-- Perform the actions up to the first that fails. -/
def perform : List (δ → Except ε δ) → δ → Except ε Unit × δ
  | [], d => (.ok (), d)
  | a :: as, d =>
      match a d with
      | .ok d' => perform as d'
      | .error e => (.error e, d)

section Perform

variable {as bs : List (δ → Except ε δ)} {a b : δ → Except ε δ} {d d' : δ} {e : ε}

@[simp] theorem perform_nil : perform ([] : List (δ → Except ε δ)) d = (.ok (), d) := rfl

theorem perform_cons_ok (h : a d = .ok d') : perform (a :: as) d = perform as d' := by
  simp only [perform, h]

theorem perform_cons_error (h : a d = .error e) : perform (a :: as) d = (.error e, d) := by
  simp only [perform, h]

theorem perform_cons_eq_ok : perform (a :: as) d = (.ok (), d') ↔
    ∃ mid, a d = .ok mid ∧ perform as mid = (.ok (), d') := by
  cases h : a d with
  | ok mid => simp [perform_cons_ok h]
  | error e => simp [perform_cons_error h]

theorem perform_append (h : perform as d = (.ok (), d')) :
    perform (as ++ bs) d = perform bs d' := by
  induction as generalizing d with
  | nil =>
      obtain rfl := congrArg Prod.snd h
      rfl
  | cons a as ih =>
      obtain ⟨mid, ha, has⟩ := perform_cons_eq_ok.mp h
      rw [List.cons_append, perform_cons_ok ha]
      exact ih has

theorem perform_append_error (h : perform as d = (.error e, d')) :
    perform (as ++ bs) d = (.error e, d') := by
  induction as generalizing d with
  | nil => cases congrArg Prod.fst h
  | cons a as ih =>
      rw [List.cons_append]
      cases ha : a d with
      | error e' =>
          rw [perform_cons_error ha] at h ⊢
          exact h
      | ok mid =>
          rw [perform_cons_ok ha] at h ⊢
          exact ih h

theorem perform_append_eq_ok : perform (as ++ bs) d = (.ok (), d') ↔
    ∃ mid, perform as d = (.ok (), mid) ∧ perform bs mid = (.ok (), d') := by
  constructor
  · intro h
    induction as generalizing d with
    | nil => exact ⟨d, rfl, h⟩
    | cons a as ih =>
        obtain ⟨mid, ha, hrest⟩ := perform_cons_eq_ok.mp h
        obtain ⟨mid', has, hbs⟩ := ih hrest
        exact ⟨mid', perform_cons_eq_ok.mpr ⟨mid, ha, has⟩, hbs⟩
  · rintro ⟨mid, has, hbs⟩
    rw [perform_append has, hbs]

/-- What a run has done when it ends, it has done without failing. -/
theorem perform_done (as : List (δ → Except ε δ)) (d : δ) :
    ∃ done left, as = done ++ left ∧ perform done d = (.ok (), (perform as d).2) := by
  induction as generalizing d with
  | nil => exact ⟨[], [], rfl, rfl⟩
  | cons a as ih =>
      cases h : a d with
      | error e => exact ⟨[], a :: as, rfl, by rw [perform_cons_error h, perform_nil]⟩
      | ok mid =>
          obtain ⟨done, left, rfl, hdone⟩ := ih mid
          refine ⟨a :: done, left, rfl, ?_⟩
          rw [perform_cons_ok h, perform_cons_ok h]
          exact hdone

/-- A property of states that every action keeps holds of a state reached from one that has it. -/
theorem perform_invariant {I : δ → Prop} (hI : ∀ a ∈ as, ∀ d d', I d → a d = .ok d' → I d')
    (h : I d) : I (perform as d).2 := by
  induction as generalizing d with
  | nil => exact h
  | cons a as ih =>
      rw [List.forall_mem_cons] at hI
      cases ha : a d with
      | error e =>
          rw [perform_cons_error ha]
          exact h
      | ok mid =>
          rw [perform_cons_ok ha]
          exact ih hI.2 (hI.1 d mid h ha)

end Perform

section Redo

variable {I : δ → Prop} {as done : List (δ → Except ε δ)} {a b : δ → Except ε δ} {d d' : δ}

/-- Done once, the action does nothing. -/
def Redone (I : δ → Prop) (a : δ → Except ε δ) : Prop :=
  ∀ d d', I d → a d = .ok d' → a d' = .ok d'

/-- An action that has nothing to do has nothing to do after `b` either. -/
def Survives (I : δ → Prop) (a b : δ → Except ε δ) : Prop :=
  ∀ d d', I d → a d = .ok d → b d = .ok d' → a d' = .ok d'

/-- Actions that can be started over: each is done once and stays done. -/
structure Resumable (I : δ → Prop) (as : List (δ → Except ε δ)) : Prop where
  keeps : ∀ a ∈ as, ∀ d d', I d → a d = .ok d' → I d'
  redone : ∀ a ∈ as, Redone I a
  survives : as.Pairwise (Survives I)

theorem Survives.perform (hkeeps : ∀ b ∈ as, ∀ d d', I d → b d = .ok d' → I d')
    (h : ∀ b ∈ as, Survives I a b) (hd : I d) (ha : a d = .ok d)
    (hrun : GhcpConsole.perform as d = (.ok (), d')) : a d' = .ok d' := by
  induction as generalizing d with
  | nil =>
      obtain rfl := congrArg Prod.snd hrun
      exact ha
  | cons b as ih =>
      obtain ⟨mid, hb, hrest⟩ := perform_cons_eq_ok.mp hrun
      rw [List.forall_mem_cons] at h hkeeps
      exact ih hkeeps.2 h.2 (hkeeps.1 d mid hd hb) (h.1 d mid hd ha hb) hrest

/-- After a run, none of its actions has anything to do. -/
theorem Resumable.settled (h : Resumable I as) (hd : I d) (hrun : perform as d = (.ok (), d')) :
    ∀ a ∈ as, a d' = .ok d' := by
  induction as generalizing d with
  | nil => simp
  | cons a as ih =>
      obtain ⟨mid, ha, hrest⟩ := perform_cons_eq_ok.mp hrun
      obtain ⟨hkeeps, hredone, hsurvives⟩ := h
      rw [List.forall_mem_cons] at hkeeps hredone
      rw [List.pairwise_cons] at hsurvives
      have hmid : I mid := hkeeps.1 d mid hd ha
      rw [List.forall_mem_cons]
      exact ⟨Survives.perform hkeeps.2 hsurvives.1 hmid (hredone.1 d mid hd ha) hrest,
        ih ⟨hkeeps.2, hredone.2, hsurvives.2⟩ hmid hrest⟩

theorem Resumable.append_left {as bs : List (δ → Except ε δ)} (h : Resumable I (as ++ bs)) :
    Resumable I as where
  keeps a ha := h.keeps a (List.mem_append_left _ ha)
  redone a ha := h.redone a (List.mem_append_left _ ha)
  survives := (List.pairwise_append.mp h.survives).1

theorem perform_settled (h : ∀ a ∈ as, a d = .ok d) : perform as d = (.ok (), d) := by
  induction as with
  | nil => rfl
  | cons a as ih =>
      rw [List.forall_mem_cons] at h
      rw [perform_cons_ok h.1]
      exact ih h.2

/-- A run that is cut off and started over ends as one that is not. -/
theorem perform_resume (h : Resumable I as) (k : Nat) (hd : I d) :
    perform as (perform (as.take k) d).2 = perform as d := by
  obtain ⟨done, left, htake, hdone⟩ := perform_done (as.take k) d
  have has : as = done ++ (left ++ as.drop k) := by
    rw [← List.append_assoc, ← htake, List.take_append_drop]
  rw [has] at h
  have hsettled := perform_settled (h.append_left.settled hd hdone)
  calc perform as (perform (as.take k) d).2
      = perform (done ++ (left ++ as.drop k)) (perform (as.take k) d).2 := by rw [← has]
    _ = perform (left ++ as.drop k) (perform (as.take k) d).2 := perform_append hsettled
    _ = perform (done ++ (left ++ as.drop k)) d := (perform_append hdone).symm
    _ = perform as d := by rw [← has]

/-- After two runs that are cut off, the actions have been performed up to one of them. -/
theorem perform_take_take (h : Resumable I as) (j k : Nat) (hd : I d) :
    ∃ i, (perform (as.take j) (perform (as.take k) d).2).2 = (perform (as.take i) d).2 := by
  obtain ⟨done, left, htake, hdone⟩ := perform_done (as.take k) d
  have has : as = done ++ (left ++ as.drop k) := by
    rw [← List.append_assoc, ← htake, List.take_append_drop]
  have hsettled : ∀ a ∈ done, a (perform (as.take k) d).2 = .ok (perform (as.take k) d).2 :=
    (has ▸ h).append_left.settled hd hdone
  rcases Nat.le_total j done.length with hj | hj
  · refine ⟨k, ?_⟩
    have hfirst : as.take j = done.take j := by
      rw [has, List.take_append_of_le_length hj]
    rw [hfirst, perform_settled fun a ha => hsettled a (List.mem_of_mem_take ha)]
  · refine ⟨j, ?_⟩
    have hfirst : as.take j = done ++ (left ++ as.drop k).take (j - done.length) := by
      rw [has, List.take_append, List.take_of_length_le hj, ← has]
    rw [hfirst, perform_append (perform_settled hsettled), perform_append hdone]

end Redo

end GhcpConsole
