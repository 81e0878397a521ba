import GhcpConsole.Login.TaskMoves

/-!
# The login task store over whole runs

A run is a list of databases, the latest first: every one is left by an admissible call on the one
before. `Inv` holds in all of them: a task agrees with its current attempt, the attempts of a task
are numbered from one, and an identity has at most one active task. One move keeps it, so every
run does.
-/

namespace GhcpConsole.Login

open Db

/-! ## The invariant -/

structure Inv (db : Db) : Prop where
  taskIds : Keyed (·.id) db.tasks
  attemptIds : Keyed (·.id) db.attempts
  owned : ∀ a ∈ db.attempts, ∃ t ∈ db.tasks, t.id = a.taskId
  mirrored : ∀ t ∈ db.tasks, ∃ a ∈ db.attempts, Mirrors t a
  numbered : ∀ t ∈ db.tasks, ∃ n,
    (db.attempts.filter (·.taskId == t.id)).map (·.attemptNumber) = List.range' 1 n
  single : ∀ identity, db.tasks.countP (fun t => t.identity == identity && t.status.active) ≤ 1
  recorded : ∀ a ∈ db.attempts, a.historyIncomplete = false

/-! Rewriting rows in place. -/

section Rewriting

variable {db : Db} {f : TaskRow → TaskRow} {g : AttemptRow → AttemptRow} {id : String}

/-- The attempt of a task other than the one rewritten is not the one rewritten. -/
theorem Inv.other_attempt (h : Inv db) {t r : TaskRow} {a b : AttemptRow} (hm : Mirrors t a)
    (hm' : Mirrors r b) (ha : a ∈ db.attempts) (hb : b ∈ db.attempts) (hne : r.id ≠ t.id) :
    b.id ≠ a.id := by
  intro heq
  have hab : b = a := h.attemptIds.eq hb ha heq
  rw [hab] at hm'
  exact hne (hm'.owner.symm.trans hm.owner)

theorem mem_updateAttempt {x : String} {b : AttemptRow} :
    b ∈ (db.updateAttempt x g).attempts ↔ ∃ a ∈ db.attempts, (if a.id = x then g a else a) = b :=
  List.mem_map

theorem KeepsAttempt.ite (hg : KeepsAttempt g) (x : String) :
    KeepsAttempt fun a => if a.id = x then g a else a := by
  intro a
  dsimp only
  split
  · exact hg a
  · exact ⟨rfl, rfl, rfl, rfl⟩

theorem KeepsTask.ite (hf : KeepsTask f) (p : TaskRow → Prop) [DecidablePred p] :
    KeepsTask fun t => if p t then f t else t := by
  intro t
  dsimp only
  split
  · exact hf t
  · exact ⟨rfl, rfl, rfl⟩

/-- Rewriting attempts does not renumber them. -/
theorem numbers_map (hg : KeepsAttempt g) (l : List AttemptRow) :
    ((l.map g).filter (·.taskId == id)).map (·.attemptNumber)
      = (l.filter (·.taskId == id)).map (·.attemptNumber) := by
  rw [List.filter_map, List.map_map]
  have hfilter : ((fun a : AttemptRow => a.taskId == id) ∘ g) = fun a => a.taskId == id := by
    funext a
    simp [(hg a).2.1]
  have hnumber : (AttemptRow.attemptNumber ∘ g) = AttemptRow.attemptNumber := by
    funext a
    simp [(hg a).2.2.1]
  rw [hfilter, hnumber]

end Rewriting

/-! Numbers and counts. -/

theorem foldr_max_range' (n m : Nat) : (List.range' 1 n).foldr max m = max n m := by
  induction n generalizing m with
  | zero => simp
  | succ n ih =>
      rw [List.range'_1_concat, List.foldr_append, List.foldr_cons, List.foldr_nil, ih]
      omega

theorem countP_key_le_one {α κ : Type} [DecidableEq κ] {key : α → κ} {rows : List α}
    (h : Keyed key rows) (k : κ) : rows.countP (fun a => key a = k) ≤ 1 := by
  have hcount := List.nodup_iff_count_le_one.mp h k
  rw [List.count, List.countP_map] at hcount
  exact hcount

theorem not_active_of_idle {db : Db} {identity : String} (h : db.hasActiveTask identity = false)
    {t : TaskRow} (ht : t ∈ db.tasks) (hidentity : t.identity = identity) :
    t.status.active = false := by
  have hnone := List.any_eq_false.mp h t ht
  simpa [hidentity] using hnone

theorem countP_of_idle {db : Db} {identity : String} (h : db.hasActiveTask identity = false) :
    db.tasks.countP (fun t => t.identity == identity && t.status.active) = 0 := by
  rw [List.countP_eq_zero]
  intro t ht hp
  simp only [Bool.and_eq_true, beq_iff_eq] at hp
  simp [not_active_of_idle h ht hp.1] at hp

/-! ## One move -/

section Moves

variable {c : Call} {db db' : Db}

/-- The records given to `reserveRetry` name the account of the task they are about. -/
def Call.Current (c : Call) (db : Db) : Prop :=
  ∀ enterpriseId record attemptId now, c = .reserveRetry enterpriseId record attemptId now →
    ∀ t ∈ db.tasks, t.id = record.id → t.identity = record.identity

theorem Inv.create {t : TaskRow} {a : AttemptRow} (h : Inv db) (hfresh : ∀ r ∈ db.tasks, r.id ≠ t.id)
    (hnew : ∀ r ∈ db.attempts, r.id ≠ a.id) (hidle : db.hasActiveTask t.identity = false)
    (hmirror : Mirrors t a) (hnumber : a.attemptNumber = 1) (hhistory : a.historyIncomplete = false) :
    Inv { db with tasks := db.tasks ++ [t], attempts := db.attempts ++ [a] } := by
  have hnone : db.attempts.filter (·.taskId == t.id) = [] := by
    rw [List.filter_eq_nil_iff]
    intro b hb hbt
    obtain ⟨r, hr, hid⟩ := h.owned b hb
    exact hfresh r hr (hid.trans (by simpa using hbt))
  constructor
  · exact h.taskIds.append hfresh
  · exact h.attemptIds.append hnew
  · intro b hb
    rcases List.mem_append.mp hb with hb | hb
    · obtain ⟨r, hr, hid⟩ := h.owned b hb
      exact ⟨r, List.mem_append_left _ hr, hid⟩
    · obtain rfl := List.mem_singleton.mp hb
      exact ⟨t, by simp, hmirror.owner.symm⟩
  · intro r hr
    rcases List.mem_append.mp hr with hr | hr
    · obtain ⟨b, hb, hm⟩ := h.mirrored r hr
      exact ⟨b, List.mem_append_left _ hb, hm⟩
    · obtain rfl := List.mem_singleton.mp hr
      exact ⟨a, by simp, hmirror⟩
  · intro r hr
    rcases List.mem_append.mp hr with hr | hr
    · obtain ⟨n, hn⟩ := h.numbered r hr
      refine ⟨n, ?_⟩
      have hother : ¬a.taskId = r.id := fun heq => hfresh r hr (heq.symm.trans hmirror.owner)
      simpa [List.filter_append, hother] using hn
    · obtain rfl := List.mem_singleton.mp hr
      exact ⟨1, by simp [List.filter_append, hnone, hmirror.owner, hnumber]⟩
  · intro identity
    rw [List.countP_append]
    by_cases hidentity : t.identity = identity
    · subst hidentity
      rw [countP_of_idle hidle]
      exact (Nat.zero_add _).trans_le (List.countP_le_length.trans (by simp))
    · have := h.single identity
      simpa [hidentity] using this
  · intro b hb
    rcases List.mem_append.mp hb with hb | hb
    · exact h.recorded b hb
    · obtain rfl := List.mem_singleton.mp hb
      exact hhistory

theorem Inv.retry {t : TaskRow} {a : AttemptRow} {f : TaskRow → TaskRow} (h : Inv db)
    (ht : t ∈ db.tasks) (hnew : ∀ r ∈ db.attempts, r.id ≠ a.id)
    (hidle : db.hasActiveTask t.identity = false) (hf : KeepsTask f) (hmirror : Mirrors (f t) a)
    (hnumber : a.attemptNumber = db.nextNumber t.id) (hhistory : a.historyIncomplete = false) :
    Inv { db.setTask t.id f with attempts := db.attempts ++ [a] } := by
  have howner : a.taskId = t.id := hmirror.owner.trans (hf t).1
  constructor
  · exact setTask_keyed h.taskIds hf
  · exact h.attemptIds.append hnew
  · intro b hb
    have howned : ∃ r ∈ db.tasks, r.id = b.taskId := by
      rcases List.mem_append.mp hb with hb | hb
      · exact h.owned b hb
      · obtain rfl := List.mem_singleton.mp hb
        exact ⟨t, ht, howner.symm⟩
    obtain ⟨r, hr, hid⟩ := howned
    exact ⟨_, mem_setTask.mpr ⟨r, hr, rfl⟩, ((hf.ite (·.id = t.id)) r).1.trans hid⟩
  · intro r' hr'
    obtain ⟨r, hr, rfl⟩ := mem_setTask.mp hr'
    by_cases hid : r.id = t.id
    · obtain rfl : r = t := h.taskIds.eq hr ht hid
      exact ⟨a, by simp, by simpa using hmirror⟩
    · obtain ⟨b, hb, hm⟩ := h.mirrored r hr
      exact ⟨b, List.mem_append_left _ hb, by simpa [hid] using hm⟩
  · intro r' hr'
    obtain ⟨r, hr, rfl⟩ := mem_setTask.mp hr'
    obtain ⟨n, hn⟩ := h.numbered r hr
    rw [((hf.ite (·.id = t.id)) r).1]
    by_cases hid : r.id = t.id
    · refine ⟨n + 1, ?_⟩
      rw [hid] at hn ⊢
      have hnext : a.attemptNumber = n + 1 := by
        rw [hnumber, Db.nextNumber, hn, foldr_max_range', Nat.max_zero]
      rw [List.filter_append, List.map_append, hn, List.range'_1_concat]
      simp [howner, hnext, Nat.add_comm]
    · refine ⟨n, ?_⟩
      have hother : ¬a.taskId = r.id := fun heq => hid (heq.symm.trans howner)
      simpa [List.filter_append, hother] using hn
  · intro identity
    rw [Db.setTask, List.countP_map]
    by_cases hidentity : t.identity = identity
    · -- no other task of this account is active
      refine le_trans ?_ (countP_key_le_one h.taskIds t.id)
      apply List.countP_mono_left
      intro r hr hp
      by_cases hid : r.id = t.id
      · simpa using hid
      · simp only [Function.comp_apply, hid, if_false, Bool.and_eq_true, beq_iff_eq] at hp
        simp [not_active_of_idle hidle hr (hp.1.trans hidentity.symm)] at hp
    · refine le_trans ?_ (h.single identity)
      apply List.countP_mono_left
      intro r hr hp
      by_cases hid : r.id = t.id
      · obtain rfl : r = t := h.taskIds.eq hr ht hid
        simp [(hf r).2.1, hidentity] at hp
      · simpa [hid] using hp
  · intro b hb
    rcases List.mem_append.mp hb with hb | hb
    · exact h.recorded b hb
    · obtain rfl := List.mem_singleton.mp hb
      exact hhistory

theorem Inv.advance {t : TaskRow} {x : String} {f : TaskRow → TaskRow} {g : AttemptRow → AttemptRow}
    (h : Inv db) (ht : t ∈ db.tasks) (hactive : t.status.active = true)
    (hcurrent : t.oauthAttemptId = some x) (hf : KeepsTask f) (hg : KeepsAttempt g)
    (hmirror : ∀ a, Mirrors t a → Mirrors (f t) (g a)) :
    Inv ((db.setTask t.id f).updateAttempt x g) := by
  have hf' := hf.ite (·.id = t.id)
  have hg' := hg.ite x
  constructor
  · exact setTask_keyed h.taskIds hf
  · exact h.attemptIds.map fun a => (hg' a).1
  · intro b' hb'
    obtain ⟨b, hb, rfl⟩ := mem_updateAttempt.mp hb'
    obtain ⟨r, hr, hid⟩ := h.owned b hb
    exact ⟨_, mem_setTask.mpr ⟨r, hr, rfl⟩, (hf' r).1.trans (hid.trans (hg' b).2.1.symm)⟩
  · intro r' hr'
    obtain ⟨r, hr, rfl⟩ := mem_setTask.mp hr'
    obtain ⟨b, hb, hm⟩ := h.mirrored r hr
    refine ⟨_, mem_updateAttempt.mpr ⟨b, hb, rfl⟩, ?_⟩
    by_cases hid : r.id = t.id
    · obtain rfl : r = t := h.taskIds.eq hr ht hid
      have hbx : b.id = x := Option.some.inj (hm.current.symm.trans hcurrent)
      simpa [hbx] using hmirror b hm
    · obtain ⟨a, ha, hma⟩ := h.mirrored t ht
      have hax : a.id = x := Option.some.inj (hma.current.symm.trans hcurrent)
      have hbx : b.id ≠ x := hax ▸ h.other_attempt hma hm ha hb hid
      simpa [hid, hbx] using hm
  · intro r' hr'
    obtain ⟨r, hr, rfl⟩ := mem_setTask.mp hr'
    obtain ⟨n, hn⟩ := h.numbered r hr
    refine ⟨n, ?_⟩
    rw [(hf' r).1]
    exact (numbers_map hg' db.attempts).trans hn
  · intro identity
    refine le_trans ?_ (h.single identity)
    change List.countP _ (List.map _ _) ≤ _
    rw [List.countP_map]
    apply List.countP_mono_left
    intro r hr hp
    by_cases hid : r.id = t.id
    · obtain rfl : r = t := h.taskIds.eq hr ht hid
      simp only [Function.comp_apply, if_true, Bool.and_eq_true, beq_iff_eq, (hf r).2.1] at hp
      simp [hp.1, hactive]
    · simpa [hid] using hp
  · intro b' hb'
    obtain ⟨b, hb, rfl⟩ := mem_updateAttempt.mp hb'
    rw [(hg' b).2.2.2]
    exact h.recorded b hb

theorem Inv.restage {p : TaskRow → Bool} {f : TaskRow → TaskRow} (h : Inv db) (hf : KeepsTask f)
    (hfinished : ∀ t, p t = true → t.status.active = false)
    (hmirror : ∀ t a, p t = true → Mirrors t a → Mirrors (f t) a) : Inv (db.updateTasks p f).1 := by
  have hf' := hf.ite (p · = true)
  constructor
  · exact h.taskIds.map fun t => (hf' t).1
  · exact h.attemptIds
  · intro b hb
    obtain ⟨r, hr, hid⟩ := h.owned b hb
    exact ⟨_, List.mem_map.mpr ⟨r, hr, rfl⟩, (hf' r).1.trans hid⟩
  · intro r' hr'
    obtain ⟨r, hr, rfl⟩ := List.mem_map.mp hr'
    obtain ⟨b, hb, hm⟩ := h.mirrored r hr
    refine ⟨b, hb, ?_⟩
    split
    · exact hmirror r b ‹_› hm
    · exact hm
  · intro r' hr'
    obtain ⟨r, hr, rfl⟩ := List.mem_map.mp hr'
    rw [(hf' r).1]
    exact h.numbered r hr
  · intro identity
    refine le_trans ?_ (h.single identity)
    change List.countP _ (List.map _ _) ≤ _
    rw [List.countP_map]
    apply List.countP_mono_left
    intro r hr hq
    by_cases hp : p r = true
    · obtain ⟨b, hb, hm⟩ := h.mirrored r hr
      have hstatus : (f r).status = r.status := (hmirror r b hp hm).status.symm.trans hm.status
      simp [hp, hstatus, hfinished r hp] at hq
    · simpa [hp] using hq
  · exact h.recorded

theorem Inv.delete {t : TaskRow} (h : Inv db) : Inv { db with
    tasks := db.tasks.filter (·.id ≠ t.id), attempts := db.attempts.filter (·.taskId ≠ t.id) } := by
  constructor
  · exact h.taskIds.filter _
  · exact h.attemptIds.filter _
  · intro b hb
    obtain ⟨hb, hother⟩ := List.mem_filter.mp hb
    obtain ⟨r, hr, hid⟩ := h.owned b hb
    exact ⟨r, List.mem_filter.mpr ⟨hr, by simpa [hid] using hother⟩, hid⟩
  · intro r hr
    obtain ⟨hr, hother⟩ := List.mem_filter.mp hr
    obtain ⟨b, hb, hm⟩ := h.mirrored r hr
    exact ⟨b, List.mem_filter.mpr ⟨hb, by simpa [hm.owner] using hother⟩, hm⟩
  · intro r hr
    obtain ⟨hr, hother⟩ := List.mem_filter.mp hr
    obtain ⟨n, hn⟩ := h.numbered r hr
    refine ⟨n, ?_⟩
    rw [← hn]
    dsimp only
    rw [List.filter_filter]
    congr 1
    apply List.filter_congr
    intro b _
    by_cases hb : b.taskId = r.id
    · simpa [hb] using hother
    · simp [hb]
  · intro identity
    exact (List.filter_sublist.countP_le).trans (h.single identity)
  · intro b hb
    exact h.recorded b (List.mem_filter.mp hb).1

theorem Inv.move (h : Inv db) (hc : c.Current db) (hmove : Move c db db') : Inv db' := by
  cases hmove with
  | create t a _ _ hfresh hnew hidle hmirror hnumber hhistory =>
      exact h.create hfresh hnew hidle hmirror hnumber hhistory
  | retry t a f hcall ht hrecord _ _ hnew hidle hf hmirror hnumber hhistory =>
      rw [← hc _ _ _ _ hcall t ht hrecord.symm] at hidle
      exact h.retry ht hnew hidle hf hmirror hnumber hhistory
  | advance t x f g ht hactive hcurrent hf hg hmirror =>
      exact h.advance ht hactive hcurrent hf hg hmirror
  | restage p f hf hfinished hmirror => exact h.restage hf hfinished hmirror
  | delete t _ ht _ => exact h.delete

/-- A task row comes from the row with its id, or from the creation of the task. -/
theorem Move.origin (hmove : Move c db db') {t' : TaskRow} (ht' : t' ∈ db'.tasks) :
    (∃ t ∈ db.tasks, t.id = t'.id ∧ t.identity = t'.identity)
      ∨ ∃ enterpriseId input now, c = .createTask enterpriseId t'.id input now := by
  cases hmove with
  | create t a hc hid _ _ _ _ _ _ =>
      rcases List.mem_append.mp ht' with ht' | ht'
      · exact .inl ⟨t', ht', rfl, rfl⟩
      · obtain rfl := List.mem_singleton.mp ht'
        exact .inr ⟨_, _, _, hid ▸ hc⟩
  | retry t a f _ _ _ _ _ _ _ hf _ _ _ =>
      obtain ⟨r, hr, rfl⟩ := mem_setTask.mp ht'
      have hkeep := hf.ite (·.id = t.id) r
      exact .inl ⟨r, hr, hkeep.1.symm, hkeep.2.1.symm⟩
  | advance t x f g _ _ _ hf _ _ =>
      obtain ⟨r, hr, rfl⟩ := mem_setTask.mp ht'
      have hkeep := hf.ite (·.id = t.id) r
      exact .inl ⟨r, hr, hkeep.1.symm, hkeep.2.1.symm⟩
  | restage p f hf _ _ =>
      obtain ⟨r, hr, rfl⟩ := List.mem_map.mp ht'
      have hkeep := hf.ite (p · = true) r
      exact .inl ⟨r, hr, hkeep.1.symm, hkeep.2.1.symm⟩
  | delete t _ _ _ => exact .inl ⟨t', (List.mem_filter.mp ht').1, rfl, rfl⟩

/-- A finished attempt stays as it is until its task is deleted. -/
theorem Move.finished_attempt (h : Inv db) (hmove : Move c db db') {a : AttemptRow}
    (ha : a ∈ db.attempts) (hfinished : a.status.active = false) :
    a ∈ db'.attempts ∨ ∀ t ∈ db'.tasks, t.id ≠ a.taskId := by
  cases hmove with
  | create t b _ _ _ _ _ _ _ _ => exact .inl (List.mem_append_left _ ha)
  | retry t b f _ _ _ _ _ _ _ _ _ _ _ => exact .inl (List.mem_append_left _ ha)
  | advance t x f g ht hactive hcurrent _ _ _ =>
      left
      obtain ⟨b, hb, hm⟩ := h.mirrored t ht
      have hbx : b.id = x := Option.some.inj (hm.current.symm.trans hcurrent)
      have hax : a.id ≠ x := by
        intro heq
        obtain rfl : a = b := h.attemptIds.eq ha hb (heq.trans hbx.symm)
        rw [hm.status, hactive] at hfinished
        cases hfinished
      exact mem_updateAttempt.mpr ⟨a, ha, by simp [hax]⟩
  | restage p f _ _ _ => exact .inl ha
  | delete t _ _ _ =>
      by_cases howner : a.taskId = t.id
      · right
        intro r hr
        simpa [howner] using (List.mem_filter.mp hr).2
      · exact .inl (List.mem_filter.mpr ⟨ha, by simpa using howner⟩)

/-- A finished task becomes active only by a retry of a failed, unclaimed one. -/
theorem Move.reopens (h : Inv db) (hmove : Move c db db') {t t' : TaskRow} (ht : t ∈ db.tasks)
    (hfinished : t.status.active = false) (ht' : t' ∈ db'.tasks) (hid : t'.id = t.id)
    (hactive : t'.status.active = true) :
    ∃ enterpriseId record attemptId now, c = .reserveRetry enterpriseId record attemptId now
      ∧ t.status = .failed ∧ t.stage ≠ some "deleting" ∧ t'.oauthAttemptId = some attemptId
      ∧ ∀ a ∈ db.attempts, a.id ≠ attemptId := by
  have hsame : ∀ r ∈ db.tasks, r.id = t.id → r = t := fun r hr heq => h.taskIds.eq hr ht heq
  cases hmove with
  | create u a _ _ hfresh _ _ _ _ _ =>
      rcases List.mem_append.mp ht' with ht' | ht'
      · rw [hsame t' ht' hid, hfinished] at hactive
        cases hactive
      · obtain rfl := List.mem_singleton.mp ht'
        exact absurd hid.symm (hfresh t ht)
  | retry u a f hc hu hrecord hfailed hclaim hnew hidle hf hmirror _ _ =>
      obtain ⟨r, hr, rfl⟩ := mem_setTask.mp ht'
      have hrt : r = t := hsame r hr ((hf.ite (·.id = u.id) r).1.symm.trans hid)
      subst hrt
      by_cases hru : r.id = u.id
      · obtain rfl : r = u := h.taskIds.eq hr hu hru
        exact ⟨_, _, _, _, hc, hfailed, hclaim, by simpa using hmirror.current, hnew⟩
      · simp [hru, hfinished] at hactive
  | advance u x f g hu huactive _ hf _ _ =>
      obtain ⟨r, hr, rfl⟩ := mem_setTask.mp ht'
      have hrt : r = t := hsame r hr ((hf.ite (·.id = u.id) r).1.symm.trans hid)
      subst hrt
      have hru : r.id ≠ u.id := by
        intro heq
        rw [h.taskIds.eq hr hu heq, huactive] at hfinished
        cases hfinished
      simp [hru, hfinished] at hactive
  | restage p f hf _ hmirror =>
      obtain ⟨r, hr, rfl⟩ := List.mem_map.mp ht'
      have hrt : r = t := hsame r hr ((hf.ite (p · = true) r).1.symm.trans hid)
      subst hrt
      obtain ⟨b, hb, hm⟩ := h.mirrored r hr
      by_cases hp : p r = true
      · have hstatus : (f r).status = r.status := (hmirror r b hp hm).status.symm.trans hm.status
        simp [hp, hstatus, hfinished] at hactive
      · simp [hp, hfinished] at hactive
  | delete u _ _ _ =>
      rw [hsame t' (List.mem_filter.mp ht').1 hid, hfinished] at hactive
      cases hactive

end Moves

/-! ## Calls that change nothing -/

section Unchanged

variable {c : Call} {db : Db} {enterpriseId id x : String}

theorem updateTasks_none {guard : TaskRow → Bool} {f : TaskRow → TaskRow}
    (h : ∀ t ∈ db.tasks, guard t = false) :
    (db.updateTasks guard f).2 = false ∧ (db.updateTasks guard f).1 = db := by
  have hnone : (db.updateTasks guard f).2 = false := by
    simpa [Db.updateTasks] using h
  exact ⟨hnone, updateTasks_unchanged hnone⟩

theorem names_false
    (h : ∀ t ∈ db.tasks, t.enterpriseId = enterpriseId → t.id = id → t.oauthAttemptId ≠ some x)
    (p : TaskRow → Bool) : ∀ t ∈ db.tasks, (Db.names enterpriseId id x t && p t) = false := by
  intro t ht
  by_cases henterprise : t.enterpriseId = enterpriseId
  · by_cases hid : t.id = id
    · simp [Db.names, h t ht henterprise hid]
    · simp [Db.names, hid]
  · simp [Db.names, henterprise]

theorem finishAttempt_stale {status : FinishedStatus} {reason code : Option String} {now : Nat}
    (h : ∀ t ∈ db.tasks, t.enterpriseId = enterpriseId → t.id = id → t.oauthAttemptId ≠ some x) :
    (db.finishAttempt enterpriseId id (some x) status reason code now).2 = db := by
  unfold Db.finishAttempt
  cases htruthy : truthy (some x) with
  | none => rfl
  | some y =>
      obtain rfl : y = x := by
        obtain ⟨hy, -⟩ := Option.filter_eq_some_iff.mp htruthy
        exact (Option.some.inj hy).symm
      simp [updateTasks_none (names_false h _)]

theorem markRunning_stale {logPath : String} {now : Nat}
    (h : ∀ t ∈ db.tasks, t.enterpriseId = enterpriseId → t.id = id → t.oauthAttemptId ≠ some x) :
    (db.markRunning enterpriseId id logPath (some x) now).2 = db := by
  unfold Db.markRunning
  simp only [Option.some_or]
  cases htruthy : truthy (some x) with
  | none => rfl
  | some y =>
      obtain rfl : y = x := by
        obtain ⟨hy, -⟩ := Option.filter_eq_some_iff.mp htruthy
        exact (Option.some.inj hy).symm
      simp [updateTasks_none (names_false h _)]

/-- A call whose attempt id is not the task's current one changes nothing. -/
theorem stale_attempt (hc : c.addresses = some (enterpriseId, id, x))
    (h : ∀ t ∈ db.tasks, t.enterpriseId = enterpriseId → t.id = id → t.oauthAttemptId ≠ some x) :
    c.exec db = db := by
  cases c with
  | setStage enterpriseId' id' attemptId stage now =>
      simp only [Call.addresses, Option.some.injEq, Prod.mk.injEq] at hc
      obtain ⟨rfl, rfl, rfl⟩ := hc
      simp [Call.exec, Db.setStage, updateTasks_none (names_false h _)]
  | markRunning enterpriseId' id' logPath attemptId now =>
      simp only [Call.addresses, Option.map_eq_some_iff, Prod.mk.injEq] at hc
      obtain ⟨y, rfl, rfl, rfl, rfl⟩ := hc
      exact markRunning_stale h
  | markSuccess enterpriseId' id' attemptId now =>
      simp only [Call.addresses, Option.map_eq_some_iff, Prod.mk.injEq] at hc
      obtain ⟨y, rfl, rfl, rfl, rfl⟩ := hc
      exact finishAttempt_stale h
  | markFailed enterpriseId' id' reason attemptId code now =>
      simp only [Call.addresses, Option.map_eq_some_iff, Prod.mk.injEq] at hc
      obtain ⟨y, rfl, rfl, rfl, rfl⟩ := hc
      exact finishAttempt_stale h
  | markCancelled enterpriseId' id' attemptId now =>
      simp only [Call.addresses, Option.map_eq_some_iff, Prod.mk.injEq] at hc
      obtain ⟨y, rfl, rfl, rfl, rfl⟩ := hc
      exact finishAttempt_stale h
  | reserveRetry enterpriseId' task attemptId now =>
      simp only [Call.addresses, Option.map_eq_some_iff, Prod.mk.injEq] at hc
      obtain ⟨y, hy, rfl, rfl, rfl⟩ := hc
      have hguard : ∀ t ∈ db.tasks, (t.enterpriseId = enterpriseId' && t.id = task.id
          && t.status = .failed && t.oauthAttemptId = task.oauthAttemptId
          && t.stage ≠ some "deleting") = false := by
        intro t ht
        by_cases henterprise : t.enterpriseId = enterpriseId'
        · by_cases hid : t.id = task.id
          · simp [hy, h t ht henterprise hid]
          · simp [hid]
        · simp [henterprise]
      simp only [Call.exec, Db.reserveRetry]
      cases db.hasActiveTask task.identity with
      | true => rfl
      | false =>
          simp only [updateTasks_none hguard]
          rfl
  | _ => simp [Call.addresses] at hc

end Unchanged

/-! ## An attempt that has a task -/

section Existing

variable {db : Db} {t : TaskRow} {a : AttemptRow}

theorem filter_key_eq {α κ : Type} [DecidableEq κ] {key : α → κ} {rows : List α}
    (h : Keyed key rows) {a : α} (ha : a ∈ rows) : rows.filter (fun b => key b == key a) = [a] := by
  apply List.perm_singleton.mp
  rw [List.perm_ext_iff_of_nodup (h.of_map.filter _) (List.nodup_singleton a)]
  intro b
  rw [List.mem_filter, List.mem_singleton, beq_iff_eq]
  constructor
  · rintro ⟨hb, hkey⟩
    exact h.eq hb ha hkey
  · rintro rfl
    exact ⟨ha, rfl⟩

theorem attemptOwner_eq (h : Inv db) (ha : a ∈ db.attempts) (ht : t ∈ db.tasks)
    (howner : t.id = a.taskId) :
    db.attemptOwner a.id = some { taskId := t.id, enterpriseId := t.enterpriseId } := by
  have hfind : db.tasks.find? (fun r => r.id == a.taskId) = some t := howner ▸ h.taskIds.find? ht
  rw [Db.attemptOwner, filter_key_eq h.attemptIds ha]
  simp [hfind, howner]

/-- The record of the task `t` as of its attempt `a`. -/
def taskAsOf (t : TaskRow) (a : AttemptRow) : LoginTaskRecord :=
  { (mapAttempt (mapRow t) a).toLoginTaskRecord with id := t.id }

theorem getTaskByAttempt_eq (h : Inv db) (ha : a ∈ db.attempts) (ht : t ∈ db.tasks)
    (howner : t.id = a.taskId) : db.getTaskByAttempt t.enterpriseId a.id = some (taskAsOf t a) := by
  have hlist : db.listAttempts t.enterpriseId t.id
      = ((db.attempts.filter (·.taskId == t.id)).mergeSort
          fun a b => b.attemptNumber ≤ a.attemptNumber).map (mapAttempt (mapRow t)) := by
    rw [Db.listAttempts, getTask_of_mem h.taskIds ht]
  have hkeyed : Keyed (·.id) ((db.attempts.filter (·.taskId == t.id)).mergeSort
      fun a b => b.attemptNumber ≤ a.attemptNumber) := by
    have hperm := (List.mergeSort_perm (db.attempts.filter (·.taskId == t.id))
      fun a b => b.attemptNumber ≤ a.attemptNumber).map (·.id)
    exact hperm.nodup_iff.mpr (h.attemptIds.filter _)
  have hmem : a ∈ (db.attempts.filter (·.taskId == t.id)).mergeSort
      fun a b => b.attemptNumber ≤ a.attemptNumber := by
    rw [List.mem_mergeSort, List.mem_filter]
    exact ⟨ha, by simp [howner]⟩
  have hfind := hkeyed.find? hmem
  rw [Db.getTaskByAttempt, attemptOwner_eq h ha ht howner]
  simp only [ne_eq, not_true_eq_false, if_false, hlist, List.find?_map]
  have hfind' : List.find? ((fun x : LoginAttemptDto => x.id == a.id) ∘ mapAttempt (mapRow t))
      ((db.attempts.filter (·.taskId == t.id)).mergeSort
        fun a b => b.attemptNumber ≤ a.attemptNumber) = some a := hfind
  rw [hfind']
  rfl

/-- The task was created for the account and the settings of the input. -/
def SameMapping (t : TaskRow) (input : CreateTaskInput) : Prop :=
  t.identity = input.identity ∧ t.ssoUser = input.ssoUser ∧ t.ghLogin = some input.ghLogin
    ∧ t.ssoType = input.ssoType

theorem isSameMapping_taskAsOf (h : Inv db) (ha : a ∈ db.attempts) {input : CreateTaskInput}
    (hid : input.oauthAttemptId = a.id) :
    isSameMapping (taskAsOf t a) input = true ↔ SameMapping t input := by
  simp [isSameMapping, SameMapping, taskAsOf, mapAttempt, mapRow, h.recorded a ha, hid, and_assoc]

theorem createTask_existing (h : Inv db) (ha : a ∈ db.attempts) (ht : t ∈ db.tasks)
    (howner : t.id = a.taskId) {input : CreateTaskInput} (hid : input.oauthAttemptId = a.id)
    (enterpriseId id : String) (now : Nat) :
    ((t.enterpriseId = enterpriseId ∧ SameMapping t input) ∧
      db.createTask enterpriseId id input now = .ok (some (taskAsOf t a), db))
    ∨ (¬(t.enterpriseId = enterpriseId ∧ SameMapping t input) ∧
      db.createTask enterpriseId id input now = .error (.http 409 "attempt_conflict"
        "The authorization attempt belongs to a different account mapping.")) := by
  unfold Db.createTask Db.existingTaskForAttempt
  rw [hid, attemptOwner_eq h ha ht howner]
  by_cases henterprise : t.enterpriseId = enterpriseId
  · subst henterprise
    simp only [getTaskByAttempt_eq h ha ht howner, if_true, true_and]
    cases hsame : isSameMapping (taskAsOf t a) input with
    | true =>
        have hmapping := (isSameMapping_taskAsOf h ha hid).mp hsame
        exact .inl ⟨hmapping, rfl⟩
    | false =>
        right
        refine ⟨fun hmapping => ?_, rfl⟩
        rw [(isSameMapping_taskAsOf h ha hid).mpr hmapping] at hsame
        cases hsame
  · right
    simp only [henterprise, false_and, not_false_eq_true, true_and, if_false]
    rfl

end Existing

/-! ## Runs -/

/-- The databases of a run of admissible calls on an empty one, the latest first. -/
inductive History (enterprises : List String) : List Db → Prop
  | empty : History enterprises [{ enterprises := enterprises, tasks := [], attempts := [] }]
  | call {db : Db} {past : List Db} (c : Call) (h : History enterprises (db :: past))
      (hc : c.Admissible (db :: past)) : History enterprises (c.exec db :: db :: past)

/-- The invariant of runs: the latest database is in order, and a task id stands for one account
through the whole run. -/
structure RunInv (db : Db) (history : List Db) : Prop where
  inv : Inv db
  identity : ∀ d ∈ history, ∀ r ∈ d.tasks, ∀ t ∈ db.tasks, t.id = r.id → t.identity = r.identity

section Runs

variable {enterprises : List String} {db : Db} {past history : List Db} {c : Call}

theorem inv_empty (enterprises : List String) :
    Inv { enterprises := enterprises, tasks := [], attempts := [] } where
  taskIds := Keyed.nil
  attemptIds := Keyed.nil
  owned := by simp
  mirrored := by simp
  numbered := by simp
  single := by simp
  recorded := by simp

/-- A record read earlier in the run names the account its task still has. -/
theorem RunInv.current (h : RunInv db history) (hc : c.Admissible history) : c.Current db := by
  rintro enterpriseId record attemptId now rfl t ht hid
  obtain ⟨-, d, hd, enterpriseId', hget⟩ := hc
  obtain ⟨r, hr, -, hrid, hrecord⟩ := getTask_eq_some hget
  have hidentity := h.identity d hd r hr t ht (hid.trans hrid.symm)
  rw [hidentity, ← hrecord]
  rfl

theorem RunInv.exec_move (h : RunInv db history) (hc : c.Admissible history) :
    c.exec db = db ∨ Move c db (c.exec db) :=
  Login.exec_move h.inv.taskIds h.inv.mirrored hc

theorem RunInv.call (h : RunInv db (db :: past)) (hc : c.Admissible (db :: past)) :
    RunInv (c.exec db) (c.exec db :: db :: past) := by
  rcases h.exec_move hc with heq | hmove
  · rw [heq]
    refine ⟨h.inv, fun d hd => h.identity d ?_⟩
    simpa using hd
  · have hinv := h.inv.move (h.current hc) hmove
    refine ⟨hinv, ?_⟩
    intro d hd r hr t ht hid
    rcases List.mem_cons.mp hd with rfl | hearlier
    · rw [hinv.taskIds.eq ht hr hid]
    · rcases hmove.origin ht with ⟨u, hu, huid, huidentity⟩ | ⟨enterpriseId, input, now, rfl⟩
      · rw [← huidentity]
        exact h.identity d hearlier r hr u hu (huid.trans hid)
      · exact absurd hid.symm (hc.2 d hearlier r hr)

theorem History.inv (h : History enterprises history) :
    ∀ db past, history = db :: past → RunInv db history := by
  induction h with
  | empty =>
      rintro db past ⟨⟩
      exact ⟨inv_empty enterprises, by simp⟩
  | call c _ hc ih =>
      rintro db past ⟨⟩
      exact (ih _ _ rfl).call hc

/-- A finished attempt is there, unchanged, in every later database, until its task is gone. -/
theorem History.finished_attempt {a : AttemptRow} (ha : a ∈ db.attempts)
    (hfinished : a.status.active = false) (later : List Db)
    (h : History enterprises (later ++ db :: past)) :
    ∀ d ∈ later, a ∈ d.attempts ∨ ∃ d' ∈ later, ∀ t ∈ d'.tasks, t.id ≠ a.taskId := by
  induction later with
  | nil => simp
  | cons d later ih =>
      generalize hall : d :: later ++ db :: past = all at h
      cases h with
      | empty => simp at hall
      | @call db' past' c h hc =>
          obtain ⟨rfl, hrest⟩ := List.cons.inj hall
          rw [← hrest] at h
          have hlater := ih h
          have hd : a ∈ (c.exec db').attempts
              ∨ ∃ d' ∈ c.exec db' :: later, ∀ t ∈ d'.tasks, t.id ≠ a.taskId := by
            have hprev : a ∈ db'.attempts ∨ ∃ d' ∈ later, ∀ t ∈ d'.tasks, t.id ≠ a.taskId := by
              cases later with
              | nil =>
                  obtain ⟨rfl, -⟩ := List.cons.inj hrest
                  exact .inl ha
              | cons d later =>
                  obtain ⟨rfl, -⟩ := List.cons.inj hrest
                  exact hlater _ (List.mem_cons_self ..)
            rcases hprev with hprev | ⟨d', hd', hgone⟩
            · have hinv := (h.inv _ _ hrest)
              rw [hrest] at hinv
              rcases hinv.exec_move hc with heq | hmove
              · left
                rw [heq]
                exact hprev
              · rcases hmove.finished_attempt hinv.inv hprev hfinished with hstays | hgone
                · exact .inl hstays
                · exact .inr ⟨_, List.mem_cons_self .., hgone⟩
            · exact .inr ⟨d', List.mem_cons_of_mem _ hd', hgone⟩
          intro e he
          rcases List.mem_cons.mp he with rfl | he
          · exact hd
          · rcases hlater e he with hstays | ⟨d', hd', hgone⟩
            · exact .inl hstays
            · exact .inr ⟨d', List.mem_cons_of_mem _ hd', hgone⟩

/-- In every state of a run: an identity has at most one active task; a task has the status and,
unless its deletion is claimed, the stage of its current attempt; attempts are numbered from one; a
finished attempt is final; only a retry reopens a task; stale calls and repeated creations change
nothing. -/
theorem task_store (h : History enterprises (db :: past)) :
    (∀ identity, (db.tasks.filter fun t => t.identity == identity && t.status.active).length ≤ 1)
    ∧ (∀ t ∈ db.tasks, ∃ a ∈ db.attempts, t.oauthAttemptId = some a.id ∧ a.taskId = t.id
        ∧ t.status = a.status ∧ (t.stage = some "deleting" ∨ t.stage = a.stage))
    ∧ (∀ t ∈ db.tasks, ∃ n,
        (db.attempts.filter (·.taskId == t.id)).map (·.attemptNumber) = List.range' 1 n)
    ∧ (∀ a ∈ db.attempts, a.status.active = false →
        ∀ later, History enterprises (later ++ db :: past) → ∀ d ∈ later,
          a ∈ d.attempts ∨ ∃ d' ∈ later, ∀ t ∈ d'.tasks, t.id ≠ a.taskId)
    ∧ ∀ c : Call, c.Admissible (db :: past) →
        (∀ t ∈ db.tasks, t.status.active = false →
          ∀ t' ∈ (c.exec db).tasks, t'.id = t.id → t'.status.active = true →
            ∃ enterpriseId record attemptId now,
              c = .reserveRetry enterpriseId record attemptId now
              ∧ t.status = .failed ∧ t.stage ≠ some "deleting"
              ∧ t'.oauthAttemptId = some attemptId ∧ ∀ a ∈ db.attempts, a.id ≠ attemptId)
        ∧ (∀ enterpriseId id x, c.addresses = some (enterpriseId, id, x) →
            (∀ t ∈ db.tasks, t.enterpriseId = enterpriseId → t.id = id →
              t.oauthAttemptId ≠ some x) →
            c.exec db = db)
        ∧ ∀ enterpriseId id input now, c = .createTask enterpriseId id input now →
            ∀ a ∈ db.attempts, a.id = input.oauthAttemptId →
              ∃ t ∈ db.tasks, t.id = a.taskId ∧ c.exec db = db
                ∧ ((t.enterpriseId = enterpriseId ∧ SameMapping t input
                    ∧ db.createTask enterpriseId id input now = .ok (some (taskAsOf t a), db))
                  ∨ (¬(t.enterpriseId = enterpriseId ∧ SameMapping t input)
                    ∧ ∃ e, db.createTask enterpriseId id input now = .error e)) := by
  have hinv := h.inv _ _ rfl
  refine ⟨?_, ?_, hinv.inv.numbered, ?_, ?_⟩
  · intro identity
    rw [← List.countP_eq_length_filter]
    exact hinv.inv.single identity
  · intro t ht
    obtain ⟨a, ha, hm⟩ := hinv.inv.mirrored t ht
    obtain ⟨s, hs, -, hts | ⟨hts, -⟩⟩ := hm.stage
    · exact ⟨a, ha, hm.current, hm.owner, hm.status.symm, .inr (hts.trans hs.symm)⟩
    · exact ⟨a, ha, hm.current, hm.owner, hm.status.symm, .inl hts⟩
  · intro a ha hfinished later hlater
    exact hlater.finished_attempt ha hfinished
  · intro c hc
    refine ⟨?_, ?_, ?_⟩
    · intro t ht hfinished t' ht' hid hactive
      rcases hinv.exec_move hc with heq | hmove
      · rw [heq] at ht'
        rw [hinv.inv.taskIds.eq ht' ht hid, hfinished] at hactive
        cases hactive
      · exact hmove.reopens hinv.inv ht hfinished ht' hid hactive
    · intro enterpriseId id x haddress hstale
      exact stale_attempt haddress hstale
    · rintro enterpriseId id input now rfl a ha hid
      obtain ⟨t, ht, howner⟩ := hinv.inv.owned a ha
      refine ⟨t, ht, howner, ?_⟩
      rcases createTask_existing hinv.inv ha ht howner hid.symm enterpriseId id now with
        ⟨⟨henterprise, hmapping⟩, hrun⟩ | ⟨hmapping, hrun⟩
      · exact ⟨by simp [Call.exec, settle, hrun], .inl ⟨henterprise, hmapping, hrun⟩⟩
      · exact ⟨by simp [Call.exec, settle, hrun], .inr ⟨hmapping, _, hrun⟩⟩

/-! A task that fails and is retried. -/

def sampleStart : Db := { enterprises := ["acme"], tasks := [], attempts := [] }

def sampleInput : CreateTaskInput :=
  { identity := "alice", ssoUser := "alice@acme", ghLogin := "alice_acme"
    oauthAttemptId := "attempt-1", ssoType := .azure }

def sampleCreated : Db := (Call.createTask "acme" "task-1" sampleInput 0).exec sampleStart

def sampleFailed : Db :=
  (Call.markFailed "acme" "task-1" "No device code." none none 5).exec sampleCreated

def sampleRecord : LoginTaskRecord := (sampleFailed.getTask "acme" "task-1").get (by decide +kernel)

def sampleRetried : Db := (Call.reserveRetry "acme" sampleRecord "attempt-2" 9).exec sampleFailed

theorem history_sample :
    History ["acme"] [sampleRetried, sampleFailed, sampleCreated, sampleStart] := by
  refine .call _ (.call _ (.call _ .empty ⟨by decide, by simp [sampleStart]⟩) trivial) ⟨by decide, ?_⟩
  exact ⟨sampleFailed, by simp [sampleFailed], "acme", by decide +kernel⟩

theorem task_store_sample :
    sampleRetried.attempts.map (fun a => (a.id, a.status)) =
      [("attempt-1", .failed), ("attempt-2", .pending)]
    ∧ (∀ t ∈ sampleRetried.tasks, ∃ a ∈ sampleRetried.attempts, t.oauthAttemptId = some a.id
        ∧ a.taskId = t.id ∧ t.status = a.status
        ∧ (t.stage = some "deleting" ∨ t.stage = a.stage)) :=
  ⟨by decide +kernel, (task_store history_sample).2.1⟩

/-- No call sets the stage that a deletion claim sets. -/
def Call.LeavesDeleting : Call → Prop
  | .setStage _ _ _ stage _ => stage ≠ "deleting"
  | _ => True

def unnamedInput : CreateTaskInput := { sampleInput with oauthAttemptId := "" }

/-- The record of the failed task with another identity in it, which `getTask` has not returned. -/
def foreignRecord : LoginTaskRecord := { sampleRecord with identity := "bob" }

/-- With an empty attempt id a task gets another status than its attempt, and with a record of somebody else
in a retry an identity gets a second active task. -/
theorem task_store_as_stated :
    (¬∀ calls : List Call, (∀ c ∈ calls, c.LeavesDeleting) →
      ∀ t ∈ (calls.foldl (fun db c => c.exec db) sampleStart).tasks,
        ∃ a ∈ (calls.foldl (fun db c => c.exec db) sampleStart).attempts,
          t.oauthAttemptId = some a.id ∧ t.status = a.status)
    ∧ ¬∀ calls : List Call, (∀ c ∈ calls, c.LeavesDeleting) → ∀ identity,
      ((calls.foldl (fun db c => c.exec db) sampleStart).tasks.filter fun t =>
        t.identity == identity && t.status.active).length ≤ 1 := by
  constructor
  · intro hall
    have hmirror := hall [.createTask "acme" "task-1" unnamedInput 0, .requestCancellation "acme" "task-1"]
      (by simp [Call.LeavesDeleting])
    revert hmirror
    decide +kernel
  · intro hall
    have hsingle := hall
      [.createTask "acme" "task-1" sampleInput 0, .markFailed "acme" "task-1" "No device code." none none 5,
        .createTask "acme" "task-2" { sampleInput with oauthAttemptId := "attempt-2" } 6,
        .reserveRetry "acme" foreignRecord "attempt-3" 9]
      (by simp [Call.LeavesDeleting]) "alice"
    revert hsingle
    decide +kernel

end Runs

end GhcpConsole.Login
