import Mathlib.Data.List.Nodup
import GhcpConsole.Management.Operations

/-!
# What a batch operation does to its items

The workers share one cursor. Up to the cursor every item that was pending has been handed to
`perform` once, behind it nothing has been touched (`Calls`); so it does not matter how the workers
take turns. When they have all ended, the rounds of `awaitCompletion` are alone with the items
(`Polling`).
-/

namespace GhcpConsole.Management

/-! ## What the answers say -/

def Answer.isRefreshOf (index : Nat) (a : Answer) : Bool := a.call = .refresh && a.index = index

def Answer.thrown (a : Answer) : Option Thrown :=
  match a.outcome with
  | .ok _ => none
  | .error e => some e

/-- How often the last refreshes of the item have failed in a row. -/
def failuresInRow (answers : List Answer) (index : Nat) : Nat :=
  ((answers.filter (Answer.isRefreshOf index)).takeWhile (·.thrown.isSome)).length

/-- The last refresh of the item was answered with 404. -/
def lastMissing (answers : List Answer) (index : Nat) : Bool :=
  ((answers.find? (Answer.isRefreshOf index)).bind Answer.thrown).any Managed.isMissing

/-- What an answer makes of the item it was given for, after the answers `before`; nothing where an
error has no text. -/
def Answer.result (before : List Answer) (a : Answer) : Option OperationItem :=
  match a.call, a.outcome with
  | .perform, outcome => Managed.performResult a.item outcome
  | .refresh, .ok next =>
      if next.status ≠ a.item.status ∨ next.detail ≠ a.item.detail then some next else some a.item
  | .refresh, .error e =>
      (errorMessage e).map (Managed.unavailable a.item e (failuresInRow before a.index + 1))

/-- The last result for an index, the last answer coming first. -/
def lastResult : List Answer → Nat → Option OperationItem
  | [], _ => none
  | a :: before, i =>
      if a.index = i then (a.result before).or (lastResult before i) else lastResult before i

section Answers

variable {answers : List Answer} {a : Answer} {i : Nat}

theorem Answer.isRefreshOf_of_ne (h : i ≠ a.index) : a.isRefreshOf i = false := by
  rw [isRefreshOf, decide_eq_false (Ne.symm h), Bool.and_false]

theorem Answer.isRefreshOf_self (h : a.call = .refresh) : a.isRefreshOf a.index = true := by
  rw [isRefreshOf, h, decide_eq_true rfl, decide_eq_true rfl, Bool.and_self]

theorem failuresInRow_ok (hcall : a.call = .refresh) (hok : a.thrown = none) :
    failuresInRow (a :: answers) a.index = 0 := by
  rw [failuresInRow, List.filter_cons_of_pos (a.isRefreshOf_self hcall),
    List.takeWhile_cons_of_neg (by rw [hok]; exact Bool.false_ne_true), List.length_nil]

theorem failuresInRow_failed {e : Thrown} (hcall : a.call = .refresh) (he : a.thrown = some e) :
    failuresInRow (a :: answers) a.index = failuresInRow answers a.index + 1 := by
  rw [failuresInRow, List.filter_cons_of_pos (a.isRefreshOf_self hcall),
    List.takeWhile_cons_of_pos (by rw [he]; rfl), List.length_cons, failuresInRow]

theorem failuresInRow_cons_ne (h : i ≠ a.index) :
    failuresInRow (a :: answers) i = failuresInRow answers i := by
  rw [failuresInRow, List.filter_cons_of_neg (by rw [a.isRefreshOf_of_ne h]; exact Bool.false_ne_true),
    failuresInRow]

theorem lastMissing_cons (hcall : a.call = .refresh) : lastMissing (a :: answers) i
    = if i = a.index then a.thrown.any Managed.isMissing else lastMissing answers i := by
  unfold lastMissing
  by_cases h : i = a.index
  · rw [if_pos h, h, List.find?_cons_of_pos (a.isRefreshOf_self hcall)]
    rfl
  · rw [if_neg h, List.find?_cons_of_neg (by rw [a.isRefreshOf_of_ne h]; exact Bool.false_ne_true)]

/-- Nothing is known of an item that no refresh has answered for. -/
theorem not_marked_of_performs (h : ∀ a ∈ answers, a.call = .perform) :
    failuresInRow answers i = 0 ∧ lastMissing answers i = false := by
  have hnone (a : Answer) (ha : a ∈ answers) : ¬ a.isRefreshOf i = true := by
    rw [Answer.isRefreshOf, h a ha]
    exact Bool.false_ne_true
  constructor
  · rw [failuresInRow, List.filter_eq_nil_iff.mpr hnone]
    rfl
  · rw [lastMissing, List.find?_eq_none.mpr hnone]
    rfl

theorem lastResult_eq_none (h : ∀ a ∈ answers, a.index ≠ i) : lastResult answers i = none := by
  induction answers with
  | nil => rfl
  | cons a before ih =>
      rw [lastResult, if_neg (h a List.mem_cons_self)]
      exact ih fun b hb => h b (List.mem_cons_of_mem _ hb)

end Answers

/-! ## The book of an operation -/

/-- The items of an operation with all that was asked and answered for them. -/
structure Book where
  items : List OperationItem
  previewed : List OperationItem
  performed : List (Nat × OperationItem)
  answers : List Answer

def Managed.book (m : Managed) : Book where
  items := m.operation.items
  previewed := m.previewed
  performed := m.performed
  answers := m.answers

namespace Book

def perform (b : Book) (index : Nat) (item : OperationItem) : Book :=
  { b with
    items := b.items.set index { item with status := .running }
    performed := (index, item) :: b.performed }

def setItem (b : Book) (index : Nat) (item : OperationItem) : Book :=
  { b with items := b.items.set index item }

def answered (b : Book) (a : Answer) : Book := { b with answers := a :: b.answers }

/-- The item was pending when it was previewed. -/
def Pending (b : Book) (index : Nat) (item : OperationItem) : Prop :=
  b.previewed[index]? = some item ∧ item.status = .pending

instance (b : Book) (index : Nat) (item : OperationItem) : Decidable (b.Pending index item) :=
  inferInstanceAs (Decidable (_ ∧ _))

/-- `perform` is called at most once for an item, and only for those that were pending. -/
def Once (b : Book) : Prop :=
  ∀ i item, b.performed.count (i, item) ≤ 1 ∧ (0 < b.performed.count (i, item) → b.Pending i item)

/-- `perform` has been called for every item that was pending. -/
def All (b : Book) : Prop := ∀ i item, b.Pending i item → b.performed.count (i, item) = 1

/-- An item before any answer: as it was previewed, or running since `perform` was called with it. -/
def begun (b : Book) (i : Nat) : Option OperationItem :=
  match b.performed.find? (·.1 = i) with
  | some call => some { call.2 with status := .running }
  | none => b.previewed[i]?

/-- The item at an index, by the calls and their answers alone. -/
def expected (b : Book) (i : Nat) : Option OperationItem := (lastResult b.answers i).or (b.begun i)

/-- Every item is what came back for it at its own index. -/
def Truthful (b : Book) : Prop := ∀ i, b.items[i]? = b.expected i

/-- `perform` answers for the items it was called with. -/
def Asked (b : Book) : Prop :=
  ∀ a ∈ b.answers, a.call = .perform → (a.index, a.item) ∈ b.performed

/-- An item that cannot be refreshed is interrupted. -/
def Marked (b : Book) : Prop :=
  ∀ i item, b.items[i]? = some item →
    maxRefreshFailures ≤ failuresInRow b.answers i ∨ lastMissing b.answers i = true →
    item.status = .interrupted

/-- No item has the status. -/
def Without (b : Book) (status : OperationItemStatus) : Prop :=
  ∀ (i : Nat) (item : OperationItem), b.items[i]? = some item → item.status ≠ status

section Storing

variable {b : Book} {a : Answer} {item : OperationItem} {i index : Nat}

theorem begun_perform : (b.perform index item).begun i
    = if i = index then some { item with status := .running } else b.begun i := by
  unfold begun perform
  by_cases hi : i = index
  · rw [if_pos hi, List.find?_cons_of_pos (by simpa using hi.symm)]
  · rw [if_neg hi, List.find?_cons_of_neg (by simpa using Ne.symm hi)]

theorem expected_answered (h : a.result b.answers = some item) :
    (b.answered a).expected i = if i = a.index then some item else b.expected i := by
  show (lastResult (a :: b.answers) i).or (b.begun i) = _
  rw [lastResult]
  by_cases hi : i = a.index
  · rw [if_pos hi.symm, if_pos hi, h]
    rfl
  · rw [if_neg (Ne.symm hi), if_neg hi]
    rfl

/-- The result of an answer is stored at the index of its call. -/
theorem Truthful.setItem (h : b.Truthful) (hresult : a.result b.answers = some item)
    (hlt : a.index < b.items.length) : ((b.answered a).setItem a.index item).Truthful := by
  intro i
  show (b.items.set a.index item)[i]? = (b.answered a).expected i
  rw [expected_answered hresult]
  by_cases hi : i = a.index
  · rw [if_pos hi, hi, List.getElem?_set_self hlt]
  · rw [if_neg hi, List.getElem?_set_ne (Ne.symm hi), h i]

/-- The result of an answer is the item that stands there already. -/
theorem Truthful.unchanged (h : b.Truthful) (hresult : a.result b.answers = some item)
    (hitem : b.items[a.index]? = some item) : (b.answered a).Truthful := by
  intro i
  show b.items[i]? = _
  rw [expected_answered hresult]
  by_cases hi : i = a.index
  · rw [if_pos hi, hi, hitem]
  · rw [if_neg hi, h i]

/-- An answer without a result. -/
theorem Truthful.nothing (h : b.Truthful) (hresult : a.result b.answers = none) :
    (b.answered a).Truthful := by
  intro i
  show b.items[i]? = (lastResult (a :: b.answers) i).or (b.begun i)
  rw [lastResult, hresult, Option.none_or, ite_self, h i]
  rfl

end Storing

theorem Without.setItem {b : Book} {index : Nat} {item : OperationItem} {status : OperationItemStatus}
    (h : b.Without status) (hitem : item.status ≠ status) : (b.setItem index item).Without status := by
  intro i next hnext
  rcases List.mem_or_eq_of_mem_set (List.mem_of_getElem? hnext) with hmem | rfl
  · obtain ⟨j, hj⟩ := List.getElem?_of_mem hmem
    exact h j next hj
  · exact hitem

end Book

/-! ## The cursor -/

/-- The book when the workers have come up to index `n`. `K` says that nothing comes back as
pending. -/
structure Calls (K : Prop) (b : Book) (n : Nat) : Prop where
  length : b.items.length = b.previewed.length
  count : ∀ i item, b.performed.count (i, item) = if i < n ∧ b.Pending i item then 1 else 0
  later : ∀ i, n ≤ i → b.items[i]? = b.previewed[i]?
  passed : K → ∀ i < n, ∀ item, b.items[i]? = some item → item.status ≠ .pending
  logged : ∀ a ∈ b.answers, a.index < n ∧ a.call = .perform
  asked : b.Asked
  truthful : b.Truthful

section Cursor

variable {K : Prop} {now n index fuel : Nat} {b : Book} {m : Managed} {item next : OperationItem}
  {stopped : Bool}

/-- An item that is not pending is passed over. -/
theorem Calls.skip (h : Calls K b n) (hitem : b.items[n]? = some item)
    (hstatus : item.status ≠ .pending) : Calls K b (n + 1) where
  length := h.length
  count i other := by
    have hiff : (i < n + 1 ∧ b.Pending i other) ↔ (i < n ∧ b.Pending i other) := by
      constructor
      · rintro ⟨hi, hpending⟩
        refine ⟨Nat.lt_of_le_of_ne (by omega) fun hin => ?_, hpending⟩
        have hsame : some item = some other := by
          rw [← hitem, h.later n (Nat.le_refl n), ← hin, hpending.1]
        exact hstatus (Option.some.inj hsame ▸ hpending.2)
      · exact fun hi => ⟨by omega, hi.2⟩
    simp only [h.count i other, hiff]
  later i hi := h.later i (by omega)
  passed hK i hi next hnext := by
    by_cases hin : i = n
    · rw [hin, hitem] at hnext
      exact Option.some.inj hnext ▸ hstatus
    · exact h.passed hK i (by omega) next hnext
  logged a ha := ⟨Nat.lt_succ_of_lt (h.logged a ha).1, (h.logged a ha).2⟩
  asked := h.asked
  truthful := h.truthful

/-- The item at the cursor is handed to `perform`. -/
theorem Calls.perform (h : Calls K b n) (hitem : b.items[n]? = some item)
    (hstatus : item.status = .pending) : Calls K (b.perform n item) (n + 1) where
  length := by
    show (b.items.set n _).length = _
    rw [List.length_set]
    exact h.length
  count i other := by
    have hpreviewed : b.previewed[n]? = some item := by rw [← h.later n (Nat.le_refl n), hitem]
    show ((n, item) :: b.performed).count (i, other) = if i < n + 1 ∧ b.Pending i other then 1 else 0
    rw [List.count_cons, h.count i other]
    by_cases hi : i = n
    · have hiff : b.Pending n other ↔ item = other := by
        rw [Book.Pending, hpreviewed, Option.some.injEq]
        exact ⟨fun h => h.1, fun h => ⟨h, h ▸ hstatus⟩⟩
      simp [hi, hiff]
    · have hlt : i < n + 1 ↔ i < n := by omega
      simp [hlt, Ne.symm hi]
  later i hi := by
    show (b.items.set n _)[i]? = _
    rw [List.getElem?_set_ne (by omega)]
    exact h.later i (by omega)
  passed hK i hi next hnext := by
    have hnext : (b.items.set n { item with status := .running })[i]? = some next := hnext
    by_cases hin : i = n
    · rw [hin, List.getElem?_set_self (List.getElem?_eq_some_iff.mp hitem).1] at hnext
      rw [← Option.some.inj hnext]
      exact nofun
    · rw [List.getElem?_set_ne (Ne.symm hin)] at hnext
      exact h.passed hK i (by omega) next hnext
  logged a ha := ⟨Nat.lt_succ_of_lt (h.logged a ha).1, (h.logged a ha).2⟩
  asked a ha hcall := List.mem_cons_of_mem _ (h.asked a ha hcall)
  truthful i := by
    show (b.items.set n _)[i]? = (lastResult b.answers i).or ((b.perform n item).begun i)
    by_cases hi : i = n
    · have hnone : lastResult b.answers n = none :=
        lastResult_eq_none fun a ha => Nat.ne_of_lt (h.logged a ha).1
      rw [hi, List.getElem?_set_self (List.getElem?_eq_some_iff.mp hitem).1, hnone,
        Book.begun_perform, if_pos rfl, Option.none_or]
    · rw [List.getElem?_set_ne (Ne.symm hi), h.truthful i, Book.begun_perform, if_neg hi, Book.expected]

/-- `perform` answers for an item before the cursor. -/
theorem Calls.nothing {a : Answer} (h : Calls K b n) (hcall : a.call = .perform) (hindex : a.index < n)
    (hasked : (a.index, a.item) ∈ b.performed) (hresult : a.result b.answers = none) :
    Calls K (b.answered a) n where
  length := h.length
  count := h.count
  later := h.later
  passed := h.passed
  logged := List.forall_mem_cons.mpr ⟨⟨hindex, hcall⟩, h.logged⟩
  asked := List.forall_mem_cons.mpr ⟨fun _ => hasked, h.asked⟩
  truthful := h.truthful.nothing hresult

/-- What comes of a call before the cursor is stored at its index. -/
theorem Calls.setItem {a : Answer} (h : Calls K b n) (hcall : a.call = .perform) (hindex : a.index < n)
    (hasked : (a.index, a.item) ∈ b.performed) (hresult : a.result b.answers = some next)
    (hlt : a.index < b.items.length) (hnext : K → next.status ≠ .pending) :
    Calls K ((b.answered a).setItem a.index next) n where
  length := by
    show (b.items.set a.index _).length = _
    rw [List.length_set]
    exact h.length
  count := h.count
  later i hi := by
    show (b.items.set a.index _)[i]? = _
    rw [List.getElem?_set_ne (by omega)]
    exact h.later i hi
  passed hK i hi item hitem := by
    have hitem : (b.items.set a.index next)[i]? = some item := hitem
    by_cases hin : i = a.index
    · rw [hin, List.getElem?_set_self hlt] at hitem
      exact Option.some.inj hitem ▸ hnext hK
    · rw [List.getElem?_set_ne (Ne.symm hin)] at hitem
      exact h.passed hK i hi item hitem
  logged := List.forall_mem_cons.mpr ⟨⟨hindex, hcall⟩, h.logged⟩
  asked := List.forall_mem_cons.mpr ⟨fun _ => hasked, h.asked⟩
  truthful := h.truthful.setItem hresult hlt

theorem Calls.once (h : Calls K b n) : b.Once := by
  intro i item
  rw [h.count i item]
  split
  · rename_i hpending
    exact ⟨Nat.le_refl 1, fun _ => hpending.2⟩
  · exact ⟨Nat.zero_le 1, fun hlt => absurd hlt (Nat.lt_irrefl 0)⟩

/-- The cursor has passed the last item. -/
theorem Calls.all (h : Calls K b n) (hn : b.items.length ≤ n) : b.All := by
  intro i item hpending
  have hi : i < b.previewed.length := (List.getElem?_eq_some_iff.mp hpending.1).1
  have hlength := h.length
  rw [h.count i item, if_pos ⟨by omega, hpending⟩]

theorem Calls.without_pending (h : Calls K b n) (hn : b.items.length ≤ n) (hK : K) :
    b.Without .pending := by
  intro i item hitem
  have hi : i < b.items.length := (List.getElem?_eq_some_iff.mp hitem).1
  exact h.passed hK i (by omega) item hitem

theorem Calls.performs (h : Calls K b n) : ∀ a ∈ b.answers, a.call = .perform :=
  fun a ha => (h.logged a ha).2

/-- What a worker does until its next await. -/
inductive WorkerTurn (K : Prop) (now : Nat) (stopped : Bool) (m : Managed) (n : Nat) :
    Managed × Nat × Worker → Prop
  | done (n' : Nat) (hle : n ≤ n') (hend : stopped = false → m.operation.items.length ≤ n')
      (h : Calls K m.book n') : WorkerTurn K now stopped m n (m, n', .done)
  | perform (i : Nat) (item : OperationItem) (hle : n ≤ i) (hpreviewed : m.previewed[i]? = some item)
      (h : Calls K (m.book.perform i item) (i + 1)) :
      WorkerTurn K now stopped m n (m.perform now i item, i + 1, .performing i item)

theorem workerLoop_turn (h : Calls K m.book n) (hfuel : m.operation.items.length - n ≤ fuel) :
    WorkerTurn K now stopped m n (Managed.workerLoop now stopped fuel m n) := by
  induction fuel generalizing n with
  | zero => exact .done n (Nat.le_refl n) (fun _ => by omega) h
  | succ fuel ih =>
      rw [Managed.workerLoop]
      split
      · rename_i hstopped
        exact .done n (Nat.le_refl n) (fun hgo => by rw [hgo] at hstopped; cases hstopped) h
      · split
        · rename_i hnone
          exact .done n (Nat.le_refl n) (fun _ => List.getElem?_eq_none_iff.mp hnone) h
        · rename_i item hitem
          split
          · rename_i hstatus
            exact .perform n item (Nat.le_refl n) (by rw [← hitem]; exact (h.later n (Nat.le_refl n)).symm)
              (h.perform hitem hstatus)
          · rename_i hstatus
            generalize hloop : Managed.workerLoop now stopped fuel m (n + 1) = result
            have hturn := hloop ▸ ih (h.skip hitem hstatus) (by omega)
            cases hturn with
            | done n' hle hend h' => exact .done n' (by omega) hend h'
            | perform i item hle hpreviewed h' => exact .perform i item (by omega) hpreviewed h'

theorem work_turn (now : Nat) (stopped : Bool) (h : Calls K m.book n) :
    WorkerTurn K now stopped m n (m.work now stopped n) :=
  workerLoop_turn h (Nat.le_refl _)

end Cursor

/-! ## The workers -/

/-- Where the workers stand between two events. -/
structure WorkersAt (K : Prop) (m : Managed) (w : Working) : Prop where
  calls : Calls K m.book w.nextIndex
  owned : ∀ index item, Worker.performing index item ∈ w.workers →
    index < w.nextIndex ∧ m.previewed[index]? = some item ∧ (index, item) ∈ m.performed
  finished : w.stopped = false → Worker.done ∈ w.workers → m.operation.items.length ≤ w.nextIndex
  halted : w.stopped = true → Worker.failed ∈ w.workers

section Workers

variable {K : Prop} {now n k worker : Nat} {m : Managed} {w : Working} {item next : OperationItem}
  {ws : List Worker} {outcome : Outcome}

/-- A worker goes on to its next await. -/
theorem WorkersAt.turn (now : Nat) (ws : List Worker) (h : WorkersAt K m w)
    (hsub : ∀ x ∈ ws, x ∈ w.workers ∨ x = (m.work now w.stopped w.nextIndex).2.2)
    (hfailed : Worker.failed ∈ w.workers → Worker.failed ∈ ws) :
    WorkersAt K (m.work now w.stopped w.nextIndex).1
      { workers := ws, nextIndex := (m.work now w.stopped w.nextIndex).2.1, stopped := w.stopped } := by
  generalize hwork : m.work now w.stopped w.nextIndex = result at hsub ⊢
  have hturn := hwork ▸ work_turn now w.stopped h.calls
  cases hturn with
  | done n' hle hend hcalls =>
      refine ⟨hcalls, fun index item hmem => ?_, fun hgo hmem => hend hgo, fun hstop =>
        hfailed (h.halted hstop)⟩
      rcases hsub _ hmem with hmem | heq
      · exact ⟨Nat.lt_of_lt_of_le (h.owned index item hmem).1 hle, (h.owned index item hmem).2⟩
      · cases heq
  | perform i next hle hpreviewed hcalls =>
      refine ⟨hcalls, fun index item hmem => ?_, fun hgo hmem => ?_, fun hstop =>
        hfailed (h.halted hstop)⟩
      · rcases hsub _ hmem with hmem | heq
        · have howned := h.owned index item hmem
          exact ⟨Nat.lt_succ_of_le (by omega), howned.2.1, List.mem_cons_of_mem _ howned.2.2⟩
        · cases heq
          exact ⟨Nat.lt_succ_self i, hpreviewed, List.mem_cons_self⟩
      · rcases hsub _ hmem with hmem | heq
        · have hlength := h.finished hgo hmem
          show (m.operation.items.set i _).length ≤ i + 1
          rw [List.length_set]
          omega
        · cases heq

/-- A worker leaves the status and the number of the items as they are. -/
theorem work_same (now : Nat) (stopped : Bool) (h : Calls K m.book n) :
    (m.work now stopped n).1.operation.status = m.operation.status
      ∧ (m.work now stopped n).1.operation.items.length = m.operation.items.length := by
  generalize hwork : m.work now stopped n = result
  have hturn := hwork ▸ work_turn now stopped h
  cases hturn with
  | done => exact ⟨rfl, rfl⟩
  | perform i item => exact ⟨rfl, List.length_set⟩

theorem startWorkers_spec (now k : Nat) (h : WorkersAt K m { workers := ws, nextIndex := n, stopped := false }) :
    let r := Managed.startWorkers now k m n ws
    WorkersAt K r.1 { workers := r.2.2, nextIndex := r.2.1, stopped := false }
      ∧ r.2.2.length = ws.length + k ∧ r.1.operation.status = m.operation.status
      ∧ r.1.operation.items.length = m.operation.items.length := by
  induction k generalizing m n ws with
  | zero => exact ⟨h, rfl, rfl, rfl⟩
  | succ k ih =>
      have hturn := h.turn now (ws ++ [(m.work now false n).2.2])
        (fun x hx => (List.mem_append.mp hx).imp_right List.mem_singleton.mp)
        (fun hx => List.mem_append_left _ hx)
      obtain ⟨hworkers, hlength, hstatus, hitems⟩ := ih hturn
      have hsame := work_same now false h.calls
      refine ⟨hworkers, ?_, hstatus.trans hsame.1, hitems.trans hsame.2⟩
      rw [Managed.startWorkers, hlength, List.length_append, List.length_singleton]
      omega

theorem status_performResult {item : OperationItem} (h : Managed.performResult item outcome = some next)
    (hK : K → ∀ returned, outcome = .ok returned → returned.status ≠ .pending) :
    K → next.status ≠ .pending := by
  intro hk
  cases outcome with
  | ok returned => exact Option.some.inj h ▸ hK hk returned rfl
  | error e =>
      obtain ⟨text, -, rfl⟩ := Option.map_eq_some_iff.mp h
      show Managed.failureStatus e ≠ _
      unfold Managed.failureStatus
      split
      · split
        · exact nofun
        · split <;> exact nofun
      · exact nofun

/-- `perform` answers a worker and its answer is stored. -/
theorem WorkersAt.store (now : Nat) (h : WorkersAt K m w) {index : Nat}
    (hmem : Worker.performing index item ∈ w.workers)
    (hresult : Managed.performResult item outcome = some next) (hnext : K → next.status ≠ .pending) :
    WorkersAt K ((m.answered { call := .perform, index, item, outcome }).setItem now index next) w where
  calls := by
    obtain ⟨hindex, hpreviewed, hasked⟩ := h.owned index item hmem
    have hlength : m.operation.items.length = m.previewed.length := h.calls.length
    have hlt : index < m.operation.items.length :=
      hlength ▸ (List.getElem?_eq_some_iff.mp hpreviewed).1
    exact h.calls.setItem (a := { call := .perform, index, item, outcome }) rfl hindex hasked hresult
      hlt hnext
  owned := h.owned
  finished hgo hmem := by
    show (m.operation.items.set index next).length ≤ _
    rw [List.length_set]
    exact h.finished hgo hmem
  halted := h.halted

theorem WorkersAt.inPhase (h : WorkersAt K m w) (phase : Phase) :
    WorkersAt K { m with phase } w :=
  ⟨h.calls, h.owned, h.finished, h.halted⟩

/-- A worker stops with an error. -/
theorem WorkersAt.fail (h : WorkersAt K m w) {index : Nat}
    (hworker : w.workers[worker]? = some (.performing index item))
    (hresult : Managed.performResult item outcome = none) :
    WorkersAt K (m.answered { call := .perform, index, item, outcome })
      { w with workers := w.workers.set worker .failed, stopped := true } where
  calls := by
    obtain ⟨hindex, -, hasked⟩ := h.owned index item (List.mem_of_getElem? hworker)
    exact h.calls.nothing (a := { call := .perform, index, item, outcome }) rfl hindex hasked hresult
  owned index item hmem := by
    rcases List.mem_or_eq_of_mem_set hmem with hmem | heq
    · exact h.owned index item hmem
    · cases heq
  finished hgo := by cases hgo
  halted _ := List.mem_set (List.getElem?_eq_some_iff.mp hworker).1 _

end Workers

/-! ## The rounds -/

/-- The book between two answers of `refresh`. `N` says that the number of workers was a number. -/
structure Polling (K N : Prop) (b : Book) (failures : Nat → Nat) : Prop where
  once : b.Once
  all : N → b.All
  settled : K → N → b.Without .pending
  asked : b.Asked
  truthful : b.Truthful
  marked : b.Marked
  counts : ∀ i, failures i = failuresInRow b.answers i

section Rounds

variable {K N : Prop} {b : Book} {failures failures' : Nat → Nat} {a : Answer}
  {current next : OperationItem}

theorem Book.Asked.refreshed (h : b.Asked) (hcall : a.call = .refresh) : (b.answered a).Asked :=
  List.forall_mem_cons.mpr ⟨fun hperform => (nomatch hcall.symm.trans hperform), h⟩

/-- An answer that does not change the item. -/
theorem Polling.unchanged (h : Polling K N b failures) (hcall : a.call = .refresh)
    (hok : a.thrown = none) (hresult : a.result b.answers = some current)
    (hcurrent : b.items[a.index]? = some current) :
    Polling K N (b.answered a) (Function.update failures a.index 0) where
  once := h.once
  all := h.all
  settled := h.settled
  asked := h.asked.refreshed hcall
  truthful := h.truthful.unchanged hresult hcurrent
  marked i item hitem hmark := by
    have hmark : maxRefreshFailures ≤ failuresInRow (a :: b.answers) i
      ∨ lastMissing (a :: b.answers) i = true := hmark
    rw [lastMissing_cons hcall] at hmark
    by_cases hi : i = a.index
    · rw [hi, failuresInRow_ok hcall hok, if_pos rfl, hok] at hmark
      rcases hmark with hmark | hmark <;> cases hmark
    · rw [if_neg hi, failuresInRow_cons_ne hi] at hmark
      exact h.marked i item hitem hmark
  counts i := by
    show _ = failuresInRow (a :: b.answers) i
    rw [Function.update_apply]
    by_cases hi : i = a.index
    · rw [if_pos hi, hi, failuresInRow_ok hcall hok]
    · rw [if_neg hi, failuresInRow_cons_ne hi, h.counts i]

/-- After an answer the item is replaced. -/
theorem Polling.replaced (h : Polling K N b failures) (hcall : a.call = .refresh)
    (hresult : a.result b.answers = some next) (hlt : a.index < b.items.length)
    (hnext : K → next.status ≠ .pending)
    (hmark : maxRefreshFailures ≤ failuresInRow (a :: b.answers) a.index
      ∨ a.thrown.any Managed.isMissing = true → next.status = .interrupted)
    (hcounts : failures' = Function.update failures a.index
      (failuresInRow (a :: b.answers) a.index)) :
    Polling K N ((b.answered a).setItem a.index next) failures' where
  once := h.once
  all := h.all
  settled hK hN := (h.settled hK hN).setItem (hnext hK)
  asked := h.asked.refreshed hcall
  truthful := h.truthful.setItem hresult hlt
  marked i item hitem hmarked := by
    have hitem : (b.items.set a.index next)[i]? = some item := hitem
    have hmarked : maxRefreshFailures ≤ failuresInRow (a :: b.answers) i
      ∨ lastMissing (a :: b.answers) i = true := hmarked
    rw [lastMissing_cons hcall] at hmarked
    by_cases hi : i = a.index
    · rw [hi, List.getElem?_set_self hlt] at hitem
      rw [hi, if_pos rfl] at hmarked
      exact Option.some.inj hitem ▸ hmark hmarked
    · rw [List.getElem?_set_ne (Ne.symm hi)] at hitem
      rw [if_neg hi, failuresInRow_cons_ne hi] at hmarked
      exact h.marked i item hitem hmarked
  counts i := by
    show _ = failuresInRow (a :: b.answers) i
    rw [hcounts, Function.update_apply]
    by_cases hi : i = a.index
    · rw [if_pos hi, hi]
    · rw [if_neg hi, failuresInRow_cons_ne hi, h.counts i]

end Rounds

end GhcpConsole.Management
