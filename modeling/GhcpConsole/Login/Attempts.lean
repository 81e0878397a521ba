import GhcpConsole.Login.TaskStore

/-!
# The task store as a table of attempts

The callers of the repository follow an attempt, not a row. `Db.look` reads an attempt together with
what it needs of its task, and every call has one lemma that says what it does to all of them. In an
orderly database only the current attempt of a task can be active, so an attempt and its task tell
the same story.
-/

namespace GhcpConsole.Login

open Db

structure AttemptView where
  taskId : String
  enterpriseId : String
  identity : String
  status : TaskStatus
  stage : Option String
  /-- It is the attempt the task carries. -/
  current : Bool
deriving DecidableEq, Repr

def TaskRow.view (t : TaskRow) (a : AttemptRow) : AttemptView :=
  { taskId := t.id, enterpriseId := t.enterpriseId, identity := t.identity
    status := a.status, stage := a.stage, current := t.oauthAttemptId = some a.id }

def Db.look (db : Db) (attemptId : String) : Option AttemptView :=
  (db.attempts.find? (·.id = attemptId)).bind fun a =>
    (db.tasks.find? (·.id = a.taskId)).map fun t => t.view a

/-- The tables are in order, and an attempt the task has moved on from is finished. -/
structure Orderly (db : Db) : Prop extends Inv db where
  superseded : ∀ t ∈ db.tasks, ∀ a ∈ db.attempts, a.taskId = t.id → t.oauthAttemptId ≠ some a.id →
    a.status.active = false

/-! ## Calls keep the database orderly -/

section Keeping

variable {c : Call} {db db' : Db}

theorem Orderly.move (h : Orderly db) (hc : c.Current db) (hmove : Move c db db') : Orderly db' := by
  refine ⟨h.toInv.move hc hmove, ?_⟩
  cases hmove with
  | create t a _ _ hfresh _ _ hmirror _ _ =>
      intro r hr b hb howner hcurrent
      rcases List.mem_append.mp hr with hold | hnew
      · rcases List.mem_append.mp hb with hb' | hb'
        · exact h.superseded r hold b hb' howner hcurrent
        · obtain rfl := List.mem_singleton.mp hb'
          exact absurd (howner.symm.trans hmirror.owner) (hfresh r hold)
      · obtain rfl := List.mem_singleton.mp hnew
        rcases List.mem_append.mp hb with hb' | hb'
        · obtain ⟨u, hu, hid⟩ := h.owned b hb'
          exact absurd (hid.trans howner) (hfresh u hu)
        · obtain rfl := List.mem_singleton.mp hb'
          exact absurd hmirror.current hcurrent
  | retry t a f _ ht _ hfailed _ _ _ hf hmirror _ _ =>
      intro r' hr' b hb howner hcurrent
      obtain ⟨r, hr, rfl⟩ := mem_setTask.mp hr'
      rw [((hf.ite (·.id = t.id)) r).1] at howner
      by_cases hid : r.id = t.id
      · obtain rfl : r = t := h.taskIds.eq hr ht hid
        simp only [if_true, hmirror.current] at hcurrent
        rcases List.mem_append.mp hb with hb | hb
        · by_cases hlast : r.oauthAttemptId = some b.id
          · obtain ⟨b', hb', hm⟩ := h.mirrored r hr
            have heq : b' = b :=
              h.attemptIds.eq hb' hb (Option.some.inj (hm.current.symm.trans hlast))
            rw [← heq, hm.status, hfailed]
            rfl
          · exact h.superseded r hr b hb howner hlast
        · obtain rfl := List.mem_singleton.mp hb
          exact absurd rfl hcurrent
      · simp only [hid, if_false] at hcurrent
        rcases List.mem_append.mp hb with hb | hb
        · exact h.superseded r hr b hb howner hcurrent
        · obtain rfl := List.mem_singleton.mp hb
          exact absurd (howner.symm.trans (hmirror.owner.trans (hf t).1)) hid
  | advance t x f g ht hactive hx hf hg hmirror =>
      intro r' hr' b' hb' howner hcurrent
      obtain ⟨r, hr, rfl⟩ := mem_setTask.mp hr'
      obtain ⟨b, hb, rfl⟩ := mem_updateAttempt.mp hb'
      rw [((hf.ite (·.id = t.id)) r).1, (hg.ite x b).2.1] at howner
      rw [(hg.ite x b).1] at hcurrent
      obtain ⟨a, ha, hm⟩ := h.mirrored t ht
      have hax : a.id = x := Option.some.inj (hm.current.symm.trans hx)
      have hcurrent' : r.oauthAttemptId ≠ some b.id := by
        by_cases hid : r.id = t.id
        · obtain rfl : r = t := h.taskIds.eq hr ht hid
          have hfr := (hmirror a hm).current
          rw [(hg a).1] at hfr
          rw [if_pos rfl, hfr] at hcurrent
          rwa [hm.current]
        · simpa [hid] using hcurrent
      have hfinished := h.superseded r hr b hb howner hcurrent'
      have hbx : b.id ≠ x := by
        intro heq
        obtain rfl : b = a := h.attemptIds.eq hb ha (heq.trans hax.symm)
        rw [hm.status, hactive] at hfinished
        cases hfinished
      simpa [hbx] using hfinished
  | restage p f hf _ hmirror =>
      intro r' hr' b hb howner hcurrent
      obtain ⟨r, hr, rfl⟩ := List.mem_map.mp hr'
      rw [((hf.ite (p · = true)) r).1] at howner
      refine h.superseded r hr b hb howner ?_
      by_cases hp : p r = true
      · obtain ⟨a, ha, hm⟩ := h.mirrored r hr
        rw [if_pos hp, (hmirror r a hp hm).current] at hcurrent
        rwa [hm.current]
      · simpa [hp] using hcurrent
  | delete t _ _ _ =>
      intro r hr b hb
      exact h.superseded r (List.mem_filter.mp hr).1 b (List.mem_filter.mp hb).1

theorem orderly_empty (enterprises : List String) :
    Orderly { enterprises := enterprises, tasks := [], attempts := [] } :=
  ⟨inv_empty enterprises, by simp⟩

end Keeping

/-! ## Reading attempts -/

section Reading

variable {db : Db} {x y enterpriseId id : String} {v w : AttemptView}

theorem look_eq_some (h : Inv db) : db.look x = some v ↔
    ∃ a ∈ db.attempts, ∃ t ∈ db.tasks, a.id = x ∧ t.id = a.taskId ∧ t.view a = v := by
  unfold Db.look
  constructor
  · intro hv
    obtain ⟨a, ha, hmap⟩ := Option.bind_eq_some_iff.mp hv
    obtain ⟨t, ht, rfl⟩ := Option.map_eq_some_iff.mp hmap
    have hax := List.find?_some ha
    have htid := List.find?_some ht
    exact ⟨a, List.mem_of_find?_eq_some ha, t, List.mem_of_find?_eq_some ht,
      by simpa using hax, by simpa using htid, rfl⟩
  · rintro ⟨a, ha, t, ht, rfl, htid, rfl⟩
    have hfind : db.tasks.find? (fun r => r.id = a.taskId) = some t := htid ▸ h.taskIds.find? ht
    simp [h.attemptIds.find? ha, hfind]

theorem look_of_mem (h : Inv db) {a : AttemptRow} {t : TaskRow} (ha : a ∈ db.attempts)
    (ht : t ∈ db.tasks) (howner : t.id = a.taskId) : db.look a.id = some (t.view a) :=
  (look_eq_some h).mpr ⟨a, ha, t, ht, rfl, howner, rfl⟩

theorem look_eq_none (h : Inv db) : db.look x = none ↔ ∀ a ∈ db.attempts, a.id ≠ x := by
  constructor
  · intro hnone a ha hax
    obtain ⟨t, ht, howner⟩ := h.owned a ha
    rw [← hax, look_of_mem h ha ht howner] at hnone
    cases hnone
  · intro hnone
    cases hlook : db.look x with
    | none => rfl
    | some v =>
        obtain ⟨a, ha, -, -, hax, -⟩ := (look_eq_some h).mp hlook
        exact absurd hax (hnone a ha)

/-- An active attempt is the current one of its task. -/
theorem Orderly.current_of_active (h : Orderly db) (hv : db.look x = some v)
    (hactive : v.status.active = true) : v.current = true := by
  obtain ⟨a, ha, t, ht, -, howner, rfl⟩ := (look_eq_some h.toInv).mp hv
  by_cases hcurrent : t.oauthAttemptId = some a.id
  · simp [TaskRow.view, hcurrent]
  · have hfinished := h.superseded t ht a ha howner.symm hcurrent
    simp [TaskRow.view, hfinished] at hactive

theorem current_unique (h : Inv db) (hv : db.look x = some v) (hw : db.look y = some w)
    (hvc : v.current = true) (hwc : w.current = true) (htask : v.taskId = w.taskId) : x = y := by
  obtain ⟨a, ha, t, ht, rfl, -, rfl⟩ := (look_eq_some h).mp hv
  obtain ⟨b, hb, u, hu, rfl, -, rfl⟩ := (look_eq_some h).mp hw
  obtain rfl : t = u := h.taskIds.eq ht hu htask
  simp only [TaskRow.view, decide_eq_true_eq] at hvc hwc
  exact Option.some.inj (hvc.symm.trans hwc)

/-- What a record of `getTask` says about the current attempt. -/
structure Describes (record : LoginTaskRecord) (x : String) (v : AttemptView) : Prop where
  attempt : record.oauthAttemptId = some x
  named : x ≠ ""
  id : record.id = v.taskId
  enterpriseId : record.enterpriseId = v.enterpriseId
  identity : record.identity = v.identity
  status : record.status = v.status

theorem getTask_look (h : Inv db) {record : LoginTaskRecord}
    (hget : db.getTask enterpriseId id = some record) :
    ∃ x v, db.look x = some v ∧ v.taskId = id ∧ v.enterpriseId = enterpriseId ∧ v.current = true
      ∧ Describes record x v := by
  obtain ⟨t, ht, rfl, rfl, rfl⟩ := getTask_eq_some hget
  obtain ⟨a, ha, hm⟩ := h.mirrored t ht
  exact ⟨a.id, t.view a, look_of_mem h ha ht hm.owner.symm, rfl, rfl,
    by simp [TaskRow.view, hm.current], hm.current, hm.named, rfl, rfl, rfl, hm.status.symm⟩

theorem look_getTask (h : Inv db) (hv : db.look x = some v) (hcurrent : v.current = true) :
    ∃ record, db.getTask v.enterpriseId v.taskId = some record ∧ Describes record x v := by
  obtain ⟨a, ha, t, ht, rfl, howner, rfl⟩ := (look_eq_some h).mp hv
  have hcurrent' : t.oauthAttemptId = some a.id := by simpa [TaskRow.view] using hcurrent
  obtain ⟨b, hb, hm⟩ := h.mirrored t ht
  obtain rfl : b = a := h.attemptIds.eq hb ha (Option.some.inj (hm.current.symm.trans hcurrent'))
  exact ⟨mapRow t, getTask_of_mem h.taskIds ht, hm.current, hm.named, rfl, rfl, rfl, hm.status.symm⟩

end Reading

/-! ## What each call does to the attempts -/

section Effects

variable {db db' : Db} {x y enterpriseId id : String} {v : AttemptView} {now : Nat}

/-- The attempt an update guarded by `names` and an active status is about. -/
def Db.Addressed (db : Db) (enterpriseId id x : String) (v : AttemptView) : Prop :=
  db.look x = some v ∧ v.taskId = id ∧ v.enterpriseId = enterpriseId ∧ v.status.active = true

theorem names_addressed (h : Orderly db) {p : TaskRow → Bool} {q : TaskStatus → Bool}
    (hp : ∀ t, p t = q t.status) (hq : ∀ st, q st = true → st.active = true) :
    (∃ t ∈ db.tasks, (Db.names enterpriseId id x t && p t) = true)
      ↔ ∃ v, db.Addressed enterpriseId id x v ∧ q v.status = true := by
  constructor
  · rintro ⟨t, ht, hguard⟩
    simp only [Db.names, Bool.and_eq_true, decide_eq_true_eq, hp] at hguard
    obtain ⟨⟨⟨rfl, rfl⟩, hx⟩, hst⟩ := hguard
    obtain ⟨a, ha, hm⟩ := h.mirrored t ht
    obtain rfl : a.id = x := Option.some.inj (hm.current.symm.trans hx)
    have hst' : q a.status = true := by rwa [hm.status]
    exact ⟨t.view a, ⟨look_of_mem h.toInv ha ht hm.owner.symm, rfl, rfl, hq _ hst'⟩, hst'⟩
  · rintro ⟨v, ⟨hv, rfl, rfl, hactive⟩, hst⟩
    have hcurrent := h.current_of_active hv hactive
    obtain ⟨a, ha, t, ht, rfl, howner, rfl⟩ := (look_eq_some h.toInv).mp hv
    have hx : t.oauthAttemptId = some a.id := by simpa [TaskRow.view] using hcurrent
    obtain ⟨b, hb, hm⟩ := h.mirrored t ht
    obtain rfl : b = a := h.attemptIds.eq hb ha (Option.some.inj (hm.current.symm.trans hx))
    refine ⟨t, ht, ?_⟩
    simp only [Db.names, TaskRow.view, Bool.and_eq_true, decide_eq_true_eq, hp, and_self, true_and]
    exact ⟨hx, hm.status ▸ hst⟩

theorem find?_map_id {α : Type} {key : α → String} {g : α → α} (hg : ∀ a, key (g a) = key a)
    (l : List α) (k : String) :
    (l.map g).find? (fun a => key a = k) = (l.find? fun a => key a = k).map g :=
  find?_map hg k

/-- An update of tasks and one attempt, seen from the attempts. -/
theorem look_write (guard : TaskRow → Bool) (f : TaskRow → TaskRow) (g : AttemptRow → AttemptRow)
    (φ : TaskStatus → TaskStatus) (ψ : Option String → Option String) (hf : KeepsTask f)
    (hcurrent : ∀ t, (f t).oauthAttemptId = t.oauthAttemptId) (hg : KeepsAttempt g)
    (hφ : ∀ a, (g a).status = φ a.status) (hψ : ∀ a, (g a).stage = ψ a.stage) :
    ((db.updateTasks guard f).1.updateAttempt x g).look y =
      if y = x then (db.look x).map fun v => { v with status := φ v.status, stage := ψ v.stage }
      else db.look y := by
  have hf' := hf.ite (guard · = true)
  have hg' := hg.ite x
  have hview : ∀ (t : TaskRow) (a : AttemptRow),
      (if guard t = true then f t else t).view (if a.id = x then g a else a)
        = if a.id = x then
            { t.view a with status := φ (t.view a).status, stage := ψ (t.view a).stage }
          else t.view a := by
    intro t a
    have ht := hf' t
    have hattempt : (if guard t = true then f t else t).oauthAttemptId = t.oauthAttemptId := by
      split
      · exact hcurrent t
      · rfl
    unfold TaskRow.view
    rw [ht.1, ht.2.1, ht.2.2, hattempt]
    by_cases hax : a.id = x
    · simp only [hax, if_true, hφ, hψ]
      rw [(hg a).1, hax]
    · simp only [hax, if_false]
  unfold Db.look Db.updateAttempt Db.updateTasks
  dsimp only
  rw [find?_map_id (fun a => (hg' a).1), Option.bind_map]
  cases hfind : db.attempts.find? (fun a => a.id = y) with
  | none =>
      by_cases hyx : y = x
      · subst hyx
        simp [hfind]
      · simp [hyx]
  | some a =>
      have hay : a.id = y := by simpa using List.find?_some hfind
      simp only [Function.comp, Option.bind_some, (hg' a).2.1]
      rw [find?_map_id (fun t => (hf' t).1), Option.map_map]
      by_cases hyx : y = x
      · subst hyx
        rw [if_pos rfl, hfind, Option.bind_some, Option.map_map]
        congr 1
        funext t
        simpa [hay] using hview t a
      · rw [if_neg hyx]
        congr 1
        funext t
        have hax : a.id ≠ x := fun heq => hyx (hay.symm.trans heq)
        simpa [hax] using hview t a

/-- `db'` differs from `db` in the attempt `x` at most. -/
def Db.LookSet (db db' : Db) (x : String) (v : AttemptView) : Prop :=
  ∀ y, db'.look y = if y = x then some v else db.look y

/-- A guarded statement on a task, and the same on its attempt. -/
theorem names_write (h : Orderly db) (enterpriseId id x : String) (q : TaskStatus → Bool)
    (φ : TaskStatus → TaskStatus) (ψ : Option String → Option String) (p : TaskRow → Bool)
    (f : TaskRow → TaskRow) (g : AttemptRow → AttemptRow) (hp : ∀ t, p t = q t.status)
    (hq : ∀ st, q st = true → st.active = true) (hf : KeepsTask f)
    (hcurrent : ∀ t, (f t).oauthAttemptId = t.oauthAttemptId) (hg : KeepsAttempt g)
    (hφ : ∀ a, (g a).status = φ a.status) (hψ : ∀ a, (g a).stage = ψ a.stage) :
    (∃ v, db.Addressed enterpriseId id x v ∧ q v.status = true
      ∧ (db.updateTasks (fun t => Db.names enterpriseId id x t && p t) f).2 = true
      ∧ db.LookSet ((db.updateTasks (fun t => Db.names enterpriseId id x t && p t) f).1.updateAttempt x g)
          x { v with status := φ v.status, stage := ψ v.stage })
    ∨ ((∀ v, db.Addressed enterpriseId id x v → q v.status = false)
      ∧ (db.updateTasks (fun t => Db.names enterpriseId id x t && p t) f).2 = false
      ∧ (db.updateTasks (fun t => Db.names enterpriseId id x t && p t) f).1 = db) := by
  have hiff : (db.updateTasks (fun t => Db.names enterpriseId id x t && p t) f).2 = true ↔
      ∃ v, db.Addressed enterpriseId id x v ∧ q v.status = true := by
    rw [← names_addressed h hp hq]
    exact List.any_eq_true
  cases hchanged : (db.updateTasks (fun t => Db.names enterpriseId id x t && p t) f).2 with
  | true =>
      obtain ⟨v, hv, hst⟩ := hiff.mp hchanged
      refine .inl ⟨v, hv, hst, rfl, ?_⟩
      intro y
      rw [look_write _ f g φ ψ hf hcurrent hg hφ hψ, hv.1]
      rfl
  | false =>
      refine .inr ⟨?_, rfl, updateTasks_unchanged hchanged⟩
      intro v hv
      cases hst : q v.status with
      | false => rfl
      | true =>
          rw [hiff.mpr ⟨v, hv, hst⟩] at hchanged
          cases hchanged

theorem setStage_look (enterpriseId id x stage : String) (now : Nat) (h : Orderly db) :
    (∃ v, db.Addressed enterpriseId id x v
      ∧ db.LookSet (db.setStage enterpriseId id x stage now) x { v with stage := some stage })
    ∨ ((∀ v, ¬db.Addressed enterpriseId id x v)
      ∧ db.setStage enterpriseId id x stage now = db) := by
  unfold Db.setStage
  rcases names_write h enterpriseId id x TaskStatus.active (fun st => st) (fun _ => some stage)
    (fun t => t.status.active) (fun t => { t with stage := some stage, stageUpdatedAt := some now })
    (fun a => { a with stage := some stage, stageUpdatedAt := some now })
    (fun _ => rfl) (fun _ hst => hst) (fun _ => ⟨rfl, rfl, rfl⟩) (fun _ => rfl)
    (fun _ => ⟨rfl, rfl, rfl, rfl⟩) (fun _ => rfl) (fun _ => rfl)
    with ⟨v, hv, -, hchanged, hlook⟩ | ⟨hnone, hchanged, heq⟩
  · left
    refine ⟨v, hv, ?_⟩
    simpa [hchanged] using hlook
  · right
    refine ⟨fun v hv => ?_, by simpa [hchanged] using heq⟩
    have hactive := hv.2.2.2
    simp [hnone v hv] at hactive

theorem finishAttempt_look (enterpriseId id x : String) (status : FinishedStatus)
    (reason code : Option String) (now : Nat) (h : Orderly db) (hnamed : x ≠ "") :
    (∃ v, db.Addressed enterpriseId id x v
      ∧ db.LookSet (db.finishAttempt enterpriseId id (some x) status reason code now).2 x
          { v with status := status.status, stage := some status.status.text })
    ∨ ((∀ v, ¬db.Addressed enterpriseId id x v)
      ∧ (db.finishAttempt enterpriseId id (some x) status reason code now).2 = db) := by
  unfold Db.finishAttempt
  rw [truthy_some hnamed]
  rcases names_write h enterpriseId id x TaskStatus.active (fun _ => status.status)
    (fun _ => some status.status.text) (fun t => t.status.active)
    (fun t => { t with
      status := status.status, finishedAt := some now, failureReason := reason
      failureCode := code, stage := some status.status.text, stageUpdatedAt := some now })
    (fun a => { a with
      status := status.status, finishedAt := some now, failureReason := reason
      failureCode := code, stage := some status.status.text, stageUpdatedAt := some now })
    (fun _ => rfl) (fun _ hst => hst) (fun _ => ⟨rfl, rfl, rfl⟩) (fun _ => rfl)
    (fun _ => ⟨rfl, rfl, rfl, rfl⟩) (fun _ => rfl) (fun _ => rfl)
    with ⟨v, hv, -, hchanged, hlook⟩ | ⟨hnone, hchanged, heq⟩
  · left
    refine ⟨v, hv, ?_⟩
    simpa [hchanged] using hlook
  · right
    refine ⟨fun v hv => ?_, by simpa [hchanged] using heq⟩
    have hactive := hv.2.2.2
    simp [hnone v hv] at hactive

theorem markRunning_look (enterpriseId id logPath x : String) (now : Nat) (h : Orderly db)
    (hnamed : x ≠ "") :
    (∃ v, db.Addressed enterpriseId id x v ∧ v.status = .pending
      ∧ db.LookSet (db.markRunning enterpriseId id logPath (some x) now).2 x
          { v with status := .running }
      ∧ (db.markRunning enterpriseId id logPath (some x) now).1
          = (db.markRunning enterpriseId id logPath (some x) now).2.getTask enterpriseId id)
    ∨ ((∀ v, db.Addressed enterpriseId id x v → v.status ≠ .pending)
      ∧ db.markRunning enterpriseId id logPath (some x) now = (none, db)) := by
  unfold Db.markRunning
  simp only [Option.some_or, truthy_some hnamed]
  rcases names_write h enterpriseId id x (fun st => st = .pending) (fun _ => .running)
    (fun stage => stage) (fun t => t.status = .pending)
    (fun t => { t with
      status := .running, attempts := t.attempts + 1, startedAt := some now
      finishedAt := none, failureReason := none, logPath := some logPath })
    (fun a => { a with status := .running, startedAt := some now, logPath := some logPath })
    (fun _ => rfl) (fun st hst => by simp [of_decide_eq_true hst, TaskStatus.active])
    (fun _ => ⟨rfl, rfl, rfl⟩) (fun _ => rfl)
    (fun _ => ⟨rfl, rfl, rfl, rfl⟩) (fun _ => rfl) (fun _ => rfl)
    with ⟨v, hv, hst, hchanged, hlook⟩ | ⟨hnone, hchanged, heq⟩
  · left
    refine ⟨v, hv, of_decide_eq_true hst, ?_, ?_⟩
    · simpa [hchanged] using hlook
    · simp [hchanged]
  · right
    refine ⟨fun v hv => of_decide_eq_false (hnone v hv), ?_⟩
    simpa [hchanged] using heq

/-- What a cancellation request makes of a status. -/
def cancelRequested (status : TaskStatus) : TaskStatus :=
  if status.active then .cancelling else status

theorem requestCancellation_look (enterpriseId id : String) (h : Orderly db) :
    (db.getTask enterpriseId id = none ∧ db.requestCancellation enterpriseId id = (none, db))
    ∨ ∃ x v record, db.look x = some v ∧ v.taskId = id ∧ v.enterpriseId = enterpriseId
      ∧ v.current = true
      ∧ db.LookSet (db.requestCancellation enterpriseId id).2 x
          { v with status := cancelRequested v.status }
      ∧ (db.requestCancellation enterpriseId id).1 = some record
      ∧ Describes record x { v with status := cancelRequested v.status } := by
  rcases requestCancellation_eq enterpriseId id h.taskIds h.mirrored with hnone |
    ⟨t, ht, a, ha, rfl, rfl, hm, hcases⟩
  · exact .inl hnone
  · right
    have hlook : db.look a.id = some (t.view a) := look_of_mem h.toInv ha ht hm.owner.symm
    have hview : (t.view a).current = true := by simp [TaskRow.view, hm.current]
    have hst : (t.view a).status = t.status := hm.status
    rcases hcases with ⟨hfinished, heq⟩ | ⟨hactive, f, hf, hcurrent, -, -, -, hdb, hrecord⟩
    · have hsame : cancelRequested (t.view a).status = (t.view a).status := by
        simp [cancelRequested, hst, hfinished]
      obtain ⟨record, hget, hdescribes⟩ := look_getTask h.toInv hlook hview
      refine ⟨a.id, t.view a, record, hlook, rfl, rfl, hview, ?_, ?_, ?_⟩
      · intro y
        rw [heq, hsame]
        split
        · rename_i hy
          rw [hy, hlook]
        · rfl
      · rw [heq]
        exact hget
      · rwa [hsame]
    · have hset : cancelRequested (t.view a).status = .cancelling := by
        simp [cancelRequested, hst, hactive]
      have hlook' : db.LookSet (db.requestCancellation t.enterpriseId t.id).2 a.id
          { t.view a with status := cancelRequested (t.view a).status } := by
        intro y
        rw [hdb, setTask_eq, look_write _ f (fun a => { a with status := .cancelling })
          (fun _ => .cancelling) (fun stage => stage) hf hcurrent (fun _ => ⟨rfl, rfl, rfl, rfl⟩)
          (fun _ => rfl) (fun _ => rfl), hlook, hset]
        rfl
      have horderly : Orderly (db.requestCancellation t.enterpriseId t.id).2 := by
        rcases requestCancellation_move h.taskIds h.mirrored with heq | hmove
        · rw [heq]
          exact h
        · have hc : (Call.requestCancellation t.enterpriseId t.id).Current db := by
            intro _ _ _ _ hcall
            cases hcall
          exact h.move hc hmove
      have hlast := hlook' a.id
      rw [if_pos rfl] at hlast
      obtain ⟨record, hget, hdescribes⟩ := look_getTask horderly.toInv hlast hview
      exact ⟨a.id, t.view a, record, hlook, rfl, rfl, hview, hlook', hrecord.trans hget, hdescribes⟩

theorem attemptOwner_look {owner : AttemptOwner} (howner : db.attemptOwner x = some owner) :
    ∃ a ∈ db.attempts, ∃ t ∈ db.tasks, a.id = x ∧ t.id = a.taskId := by
  obtain ⟨a, ha, hmap⟩ := List.exists_of_findSome?_eq_some howner
  obtain ⟨t, ht, -⟩ := Option.map_eq_some_iff.mp hmap
  obtain ⟨ha, hid⟩ := List.mem_filter.mp ha
  have htid := List.find?_some ht
  exact ⟨a, ha, t, List.mem_of_find?_eq_some ht, by simpa using hid, by simpa using htid⟩

/-- The first attempt of a new task. -/
def queuedView (id enterpriseId identity : String) : AttemptView :=
  { taskId := id, enterpriseId := enterpriseId, identity := identity, status := .pending
    stage := some "queued", current := true }

theorem createTask_look {input : CreateTaskInput} {result : Option LoginTaskRecord} (h : Orderly db)
    (hnamed : input.oauthAttemptId ≠ "")
    (hrun : db.createTask enterpriseId id input now = .ok (result, db')) :
    (db' = db ∧ ∃ v record, db.look input.oauthAttemptId = some v ∧ v.enterpriseId = enterpriseId
      ∧ result = some record ∧ record.id = v.taskId ∧ record.status = v.status
      ∧ record.stage = v.stage)
    ∨ (db.look input.oauthAttemptId = none
      ∧ db.LookSet db' input.oauthAttemptId (queuedView id enterpriseId input.identity)
      ∧ ∃ record, result = some record ∧ record.id = id ∧ record.status = .pending
        ∧ record.stage = some "queued") := by
  rcases createTask_ok hrun with ⟨owner, task, howner, -, -, rfl⟩ | ⟨hfresh, hnew, hidle, hresult, rfl⟩
  · left
    obtain ⟨a, ha, t, ht, hid, htid⟩ := attemptOwner_look howner
    rcases createTask_existing h.toInv ha ht htid hid.symm enterpriseId id now with
      ⟨⟨henterprise, -⟩, hok⟩ | ⟨-, herror⟩
    · obtain ⟨rfl, -⟩ := Prod.mk.inj (Except.ok.inj (hrun.symm.trans hok))
      exact ⟨rfl, t.view a, taskAsOf t a, hid ▸ look_of_mem h.toInv ha ht htid, henterprise, rfl, rfl,
        rfl, rfl⟩
    · rw [herror] at hrun
      cases hrun
  · right
    have hmirror : Mirrors (newTask enterpriseId id input now)
        (newAttempt input.oauthAttemptId id 1 "queued" now) :=
      ⟨rfl, hnamed, rfl, rfl, "queued", rfl, by decide, .inl rfl⟩
    have hinv := h.toInv.create hfresh hnew hidle hmirror rfl rfl
    refine ⟨(look_eq_none h.toInv).mpr hnew, ?_, mapRow (newTask enterpriseId id input now), ?_, rfl,
      rfl, rfl⟩
    · intro y
      apply Option.ext
      intro v
      rw [look_eq_some hinv]
      constructor
      · rintro ⟨a, ha, t, ht, rfl, htid, rfl⟩
        rcases List.mem_append.mp ha with hold | hlast
        · rw [if_neg (hnew a hold)]
          obtain ⟨u, hu, huid⟩ := h.owned a hold
          have hut : u = t := hinv.taskIds.eq (List.mem_append_left _ hu) ht (huid.trans htid.symm)
          exact hut ▸ look_of_mem h.toInv hold hu huid
        · obtain rfl := List.mem_singleton.mp hlast
          have hmem : newTask enterpriseId id input now
              ∈ db.tasks ++ [newTask enterpriseId id input now] := by simp
          have hnewTask : newTask enterpriseId id input now = t := hinv.taskIds.eq hmem ht htid.symm
          have hid : (newAttempt input.oauthAttemptId id 1 "queued" now).id = input.oauthAttemptId := rfl
          rw [hid, if_pos rfl, ← hnewTask]
          simp [queuedView, TaskRow.view, newTask, newAttempt]
      · intro hv
        split at hv
        · rename_i hy
          obtain rfl := Option.some.inj hv
          refine ⟨newAttempt input.oauthAttemptId id 1 "queued" now, by simp,
            newTask enterpriseId id input now, by simp, hy.symm, rfl, ?_⟩
          simp [queuedView, TaskRow.view, newTask, newAttempt]
        · obtain ⟨a, ha, t, ht, rfl, htid, rfl⟩ := (look_eq_some h.toInv).mp hv
          exact ⟨a, List.mem_append_left _ ha, t, List.mem_append_left _ ht, rfl, htid, rfl⟩
    · rw [hresult]
      exact getTask_of_mem (t := newTask enterpriseId id input now) hinv.taskIds (by simp)

/-- The attempt a retry has reserved. -/
def preparingView (id enterpriseId identity : String) : AttemptView :=
  { taskId := id, enterpriseId := enterpriseId, identity := identity, status := .pending
    stage := some "preparing", current := true }

/-- The attempts of a task that moves on to a new one. -/
def AttemptView.leave (id : String) (v : AttemptView) : AttemptView :=
  if v.taskId = id then { v with current := false } else v

theorem reserveRetry_look {task : LoginTaskRecord} {result : Option LoginTaskRecord} (h : Orderly db)
    (hnamed : x ≠ "") (hidentity : ∀ t ∈ db.tasks, t.id = task.id → t.identity = task.identity)
    (hrun : db.reserveRetry enterpriseId task x now = .ok (result, db')) :
    ∃ x₀ v₀ record, task.oauthAttemptId = some x₀ ∧ db.look x₀ = some v₀ ∧ v₀.taskId = task.id
      ∧ v₀.enterpriseId = enterpriseId ∧ v₀.status = .failed ∧ v₀.current = true ∧ db.look x = none
      ∧ (∀ y, db'.look y = if y = x then some (preparingView task.id enterpriseId task.identity)
          else (db.look y).map (AttemptView.leave task.id))
      ∧ result = some record ∧ Describes record x (preparingView task.id enterpriseId task.identity) := by
  obtain ⟨t, ht, rfl, hid, hfailed, hattempt, -, hnew, hidle, hresult, rfl⟩ :=
    reserveRetry_ok h.taskIds hrun
  obtain ⟨a, ha, hm⟩ := h.mirrored t ht
  have hkeeps : KeepsTask (retried x now) := fun _ => ⟨rfl, rfl, rfl⟩
  have hmirror : Mirrors (retried x now t)
      (newAttempt x task.id (db.nextNumber task.id) "preparing" now) :=
    ⟨rfl, hnamed, hid.symm, rfl, "preparing", rfl, by decide, .inl rfl⟩
  have hinv := h.toInv.retry ht hnew ((hidentity t ht hid) ▸ hidle) hkeeps hmirror (hid ▸ rfl) rfl
  have hmem : retried x now t ∈ (db.setTask t.id (retried x now)).tasks :=
    mem_setTask.mpr ⟨t, ht, if_pos rfl⟩
  have hpreparing : ∀ row : AttemptRow, row = newAttempt x task.id (db.nextNumber task.id) "preparing" now →
      (retried x now t).view row = preparingView task.id t.enterpriseId task.identity := by
    rintro row rfl
    simp [TaskRow.view, preparingView, retried, newAttempt, hid, hidentity t ht hid]
  have hold : ∀ r ∈ db.tasks, ∀ b ∈ db.attempts,
      (if r.id = t.id then retried x now r else r).view b = (r.view b).leave task.id := by
    intro r hr b hb
    rw [← hid]
    by_cases hrt : r.id = t.id
    · have hbx : x ≠ b.id := fun heq => hnew b hb heq.symm
      simp [AttemptView.leave, TaskRow.view, retried, hrt, hbx]
    · simp [AttemptView.leave, TaskRow.view, hrt]
  refine ⟨a.id, t.view a, mapRow (retried x now t), hattempt ▸ hm.current,
    look_of_mem h.toInv ha ht hm.owner.symm, hid, rfl, hm.status.trans hfailed,
    by simp [TaskRow.view, hm.current], (look_eq_none h.toInv).mpr hnew, ?_, ?_, ?_⟩
  · intro y
    apply Option.ext
    intro v
    rw [look_eq_some hinv]
    constructor
    · rintro ⟨b, hb, r', hr', rfl, hrid, rfl⟩
      obtain ⟨r, hr, rfl⟩ := mem_setTask.mp hr'
      rw [((hkeeps.ite (·.id = t.id)) r).1] at hrid
      rcases List.mem_append.mp hb with hb' | hlast
      · rw [if_neg (hnew b hb'), look_of_mem h.toInv hb' hr hrid, hold r hr b hb']
        rfl
      · obtain rfl := List.mem_singleton.mp hlast
        have hrt : r = t := h.taskIds.eq hr ht (hrid.trans hid.symm)
        have hidx : (newAttempt x task.id (db.nextNumber task.id) "preparing" now).id = x := rfl
        rw [hidx, if_pos rfl, hrt, if_pos rfl, hpreparing _ rfl]
    · intro hv
      split at hv
      · rename_i hy
        obtain rfl := Option.some.inj hv
        exact ⟨newAttempt x task.id (db.nextNumber task.id) "preparing" now, by simp,
          retried x now t, hmem, hy.symm, hid, hpreparing _ rfl⟩
      · obtain ⟨w, hw, rfl⟩ := Option.map_eq_some_iff.mp hv
        obtain ⟨b, hb, r, hr, rfl, hrid, rfl⟩ := (look_eq_some h.toInv).mp hw
        exact ⟨b, List.mem_append_left _ hb, _, mem_setTask.mpr ⟨r, hr, rfl⟩, rfl,
          ((hkeeps.ite (·.id = t.id)) r).1.trans hrid, hold r hr b hb⟩
  · have hget := getTask_of_mem hinv.taskIds hmem
    rw [hresult, ← hid]
    exact hget
  · exact ⟨rfl, hnamed, hid, rfl, hidentity t ht hid, rfl⟩

end Effects

end GhcpConsole.Login
