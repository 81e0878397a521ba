import GhcpConsole.Diagnostics.Store
import Mathlib.Algebra.GroupWithZero.Nat

/-!
# What the store has kept after any run

Every `append` may be cut off after any of its calls, and its write after any of its bytes. A run is followed
on pieces, which say where in the files a record stands that was written whole (`kept`). What is lost is the
oldest: the records that are still there are the last ones that were completed, all of them are listed, and
those that fit into one file are among them (`snapshot_run`).
-/

namespace GhcpConsole.Diagnostics.ErrorDiagnosticsStore

open Rotated

inductive Event where
  | append (record : ProxyErrorDiagnosticRecordDto) (reach : Reach)
  /-- A call of `clear` that gives the directory another name. -/
  | clear

/-- A call that fails leaves the files as they are. -/
def Event.next (options : ErrorDiagnosticsStoreOptions) (files : LogFiles) : Event → LogFiles
  | .append record reach => performAll files (reach.calls (appendCalls options files record))
  | .clear => (ErrorDiagnosticsStore.clear options).toOption.getD files

def run (options : ErrorDiagnosticsStoreOptions) (events : List Event) : LogFiles :=
  events.foldl (Event.next options) fun _ => none

/-- The records whose `append` has come to its end since the last `clear`, the oldest first. -/
def completed (events : List Event) : List ProxyErrorDiagnosticRecordDto :=
  events.foldl (fun records event =>
    match event with
    | .append record .whole => records ++ [record]
    | .append _ (.cut ..) => records
    | .clear => []) []

/-- The bytes of a record and of a line end before it. -/
def Event.cost : Event → Nat
  | .append record _ => (blockBytes record).length + 1
  | .clear => 0

def cost (events : List Event) : Nat := (events.map Event.cost).sum

/-! ## Steps on pieces -/

/-- The calls before the write. -/
def preparation {α : Type} (options : ErrorDiagnosticsStoreOptions) (files : LogFiles)
    (record : ProxyErrorDiagnosticRecordDto) : List (Call α) :=
  if rotates options files record then rotate options.maxFiles else []

/-- What is written before the record. -/
def separator (options : ErrorDiagnosticsStoreOptions) (files : LogFiles)
    (record : ProxyErrorDiagnosticRecordDto) : List UInt8 :=
  if rotates options files record then [] else lineEnd files

abbrev PieceFiles := Files Piece

def PieceFiles.bytes (pieces : PieceFiles) : LogFiles := pieces.flatMap Piece.bytes

/-- A call that may be cut off writes no whole record. -/
def asPart : Call UInt8 → Call Piece
  | .remove i => .remove i
  | .rename i j => .rename i j
  | .append bytes => .append [.part bytes]

/-- The calls of an event, on the pieces of the files. -/
def Event.nextPieces (options : ErrorDiagnosticsStoreOptions) (pieces : PieceFiles) : Event → PieceFiles
  | .append record .whole =>
      performAll pieces (preparation options pieces.bytes record
        ++ [.append [.part (separator options pieces.bytes record), .whole record]])
  | .append record (.cut n written) =>
      performAll pieces (((Reach.cut n written).calls (appendCalls options pieces.bytes record)).map asPart)
  | .clear => fun _ => none

def runPieces (options : ErrorDiagnosticsStoreOptions) (events : List Event) : PieceFiles :=
  events.foldl (Event.nextPieces options) fun _ => none

/-- The records that stand whole in the files after a run, the oldest first. -/
def kept (options : ErrorDiagnosticsStoreOptions) (events : List Event) : List ProxyErrorDiagnosticRecordDto :=
  (contents options.maxFiles (runPieces options events)).filterMap Piece.record?

/-- What an event does to the pieces of the files. -/
inductive PieceStep (options : ErrorDiagnosticsStoreOptions) (pieces : PieceFiles) : Event → PieceFiles → Prop where
  | written (record : ProxyErrorDiagnosticRecordDto) : PieceStep options pieces (.append record .whole)
      ((Call.append [.part (separator options pieces.bytes record), .whole record]).perform
        (performAll pieces (preparation options pieces.bytes record)))
  | prepared (record : ProxyErrorDiagnosticRecordDto) (n m : Nat) (written : Option Nat) :
      PieceStep options pieces (.append record (.cut n written))
        (performAll pieces ((preparation options pieces.bytes record).take m))
  | begun (record : ProxyErrorDiagnosticRecordDto) (n : Nat) (written : Option Nat) {bytes : List UInt8}
      (first : bytes <+: separator options pieces.bytes record ++ blockBytes record) :
      PieceStep options pieces (.append record (.cut n written))
        ((Call.append [.part bytes]).perform (performAll pieces (preparation options pieces.bytes record)))
  | cleared : PieceStep options pieces .clear fun _ => none

section Steps

variable {options : ErrorDiagnosticsStoreOptions} {pieces pieces' : PieceFiles} {event : Event}
  {record : ProxyErrorDiagnosticRecordDto}

theorem appendCalls_eq (enabled : options.enabled = true) (files : LogFiles)
    (record : ProxyErrorDiagnosticRecordDto) : appendCalls options files record
      = preparation options files record ++ [.append (separator options files record ++ blockBytes record)] := by
  rw [appendCalls, if_neg (by simp [enabled]), preparation, separator]
  split
  · rfl
  · rfl

theorem preparation_flatMap (files : LogFiles) : (preparation options files record).map (Call.flatMap Piece.bytes)
    = preparation options files record := by
  unfold preparation
  split
  · exact rotate_flatMap _
  · rfl

theorem preparation_asPart (files : LogFiles) :
    (preparation options files record).map asPart = preparation options files record := by
  have renamed : ∀ k, (renames k).map asPart = renames k := by
    intro k
    induction k with
    | zero => rfl
    | succ k ih =>
        rw [renames, List.map_cons, ih]
        rfl
  unfold preparation
  split
  · rw [rotate, List.map_cons, renamed]
    rfl
  · rfl

theorem flatMap_asPart (call : Call UInt8) : (asPart call).flatMap Piece.bytes = call := by
  cases call with
  | remove i => rfl
  | rename i j => rfl
  | append bytes =>
      rw [asPart, Call.flatMap, List.flatMap_singleton]
      rfl

theorem performAll_bytes (calls : List (Call Piece)) :
    performAll pieces.bytes (calls.map (Call.flatMap Piece.bytes)) = PieceFiles.bytes (performAll pieces calls) :=
  performAll_flatMap pieces calls

theorem performAll_concat {α : Type} (files : Files α) (calls : List (Call α)) (call : Call α) :
    performAll files (calls ++ [call]) = call.perform (performAll files calls) := by
  rw [performAll, List.foldl_append]
  rfl

/-- The files of the store follow the pieces. -/
theorem next_bytes (enabled : options.enabled = true) (pieces : PieceFiles) (event : Event) :
    event.next options pieces.bytes = (event.nextPieces options pieces).bytes := by
  cases event with
  | clear =>
      rw [Event.next, ErrorDiagnosticsStore.clear, if_neg (by simp [enabled])]
      rfl
  | append record reach =>
      cases reach with
      | whole =>
          have write : (Call.append [.part (separator options pieces.bytes record), .whole record]).flatMap Piece.bytes
              = .append (separator options pieces.bytes record ++ blockBytes record) := by
            rw [Call.flatMap, List.flatMap_cons, List.flatMap_singleton]
            rfl
          rw [Event.nextPieces, ← performAll_bytes, List.map_append, preparation_flatMap, List.map_singleton, write,
            ← appendCalls_eq enabled]
          rfl
      | cut n written =>
          have same := List.map_congr_left fun call (_ : call ∈ (Reach.cut n written).calls
            (appendCalls options pieces.bytes record)) => flatMap_asPart call
          rw [Event.nextPieces, ← performAll_bytes, List.map_map]
          exact congrArg (performAll pieces.bytes) (same.trans (List.map_id _)).symm

theorem pieceStep (enabled : options.enabled = true) (pieces : PieceFiles) (event : Event) :
    PieceStep options pieces event (event.nextPieces options pieces) := by
  cases event with
  | clear => exact .cleared
  | append record reach =>
      cases reach with
      | whole =>
          rw [Event.nextPieces, performAll_concat]
          exact .written record
      | cut n written =>
          have noWrite : ∀ call ∈ preparation options pieces.bytes record, ∀ items : List UInt8, call ≠ .append items := by
            intro call mem
            unfold preparation at mem
            split at mem
            · exact not_append_of_rotate mem
            · cases mem
          rw [Event.nextPieces, appendCalls_eq enabled]
          rcases cut_calls noWrite (separator options pieces.bytes record ++ blockBytes record) n written with
            ⟨m, cut⟩ | ⟨m, cut⟩
          · rw [cut, List.map_take, preparation_asPart]
            exact .prepared record n m written
          · rw [cut, List.map_append, preparation_asPart, List.map_singleton, performAll_concat]
            exact .begun record n written (List.take_prefix _ _)

/-- The files are as they were, or a rotation is under way. -/
theorem preparation_take (options : ErrorDiagnosticsStoreOptions) (pieces : PieceFiles)
    (record : ProxyErrorDiagnosticRecordDto) (m : Nat) :
    performAll pieces ((preparation options pieces.bytes record).take m) = pieces
      ∨ rotates options pieces.bytes record
        ∧ performAll pieces ((preparation options pieces.bytes record).take m)
          = performAll pieces ((rotate options.maxFiles).take m) := by
  unfold preparation
  split
  · rename_i full
    exact .inr ⟨full, rfl⟩
  · rw [List.take_nil]
    exact .inl rfl

theorem exists_maxFiles (options : ErrorDiagnosticsStoreOptions) : ∃ n, options.maxFiles = n + 1 :=
  Nat.exists_eq_add_one.mpr options.maxFiles_pos

/-- Before the write: a rotation that is done leaves no `diagnostics.log`. -/
theorem preparation_all (options : ErrorDiagnosticsStoreOptions) (pieces : PieceFiles)
    (record : ProxyErrorDiagnosticRecordDto) :
    ¬ rotates options pieces.bytes record
        ∧ performAll pieces (preparation options pieces.bytes record) = pieces
      ∨ rotates options pieces.bytes record
        ∧ performAll pieces (preparation options pieces.bytes record) = performAll pieces (rotate options.maxFiles)
        ∧ performAll pieces (preparation options pieces.bytes record) 0 = none := by
  unfold preparation
  split
  · rename_i full
    obtain ⟨n, count⟩ := exists_maxFiles options
    rw [count]
    exact .inr ⟨full, rfl, rotate_first n pieces⟩
  · rename_i fits
    exact .inl ⟨fits, rfl⟩

/-- Every file of the directory is one that was there before, unless it has been written to. -/
theorem PieceStep.files {i : Nat} {items : List Piece} (step : PieceStep options pieces event pieces')
    (file : pieces' i = some items) :
    (∃ j, pieces j = some items ∧ (options.maxFiles ≤ i → options.maxFiles ≤ j))
      ∨ i = 0 ∧ ∃ record reach new, event = .append record reach
        ∧ (new = [.part (separator options pieces.bytes record), .whole record]
          ∨ ∃ bytes, bytes <+: separator options pieces.bytes record ++ blockBytes record ∧ new = [.part bytes])
        ∧ items = (if rotates options pieces.bytes record then [] else (pieces 0).getD []) ++ new := by
  obtain ⟨n, count⟩ := exists_maxFiles options
  have moved : ∀ record m, performAll pieces ((preparation options pieces.bytes record).take m) i = some items →
      ∃ j, pieces j = some items ∧ (options.maxFiles ≤ i → options.maxFiles ≤ j) := by
    intro record m file
    rcases preparation_take options pieces record m with same | ⟨_, rotated⟩
    · rw [same] at file
      exact ⟨i, file, id⟩
    · rw [rotated, count] at file
      obtain ⟨j, file, above⟩ := exists_of_rotate file
      exact ⟨j, file, by omega⟩
  have wrote : ∀ record new, ((Call.append new).perform
      (performAll pieces (preparation options pieces.bytes record))) i = some items →
      (∃ j, pieces j = some items ∧ (options.maxFiles ≤ i → options.maxFiles ≤ j))
        ∨ i = 0 ∧ items = (if rotates options pieces.bytes record then [] else (pieces 0).getD []) ++ new := by
    intro record new file
    rw [Call.perform] at file
    by_cases first : i = 0
    · rw [first, Function.update_self, Option.some.injEq] at file
      refine .inr ⟨first, ?_⟩
      rcases preparation_all options pieces record with ⟨fits, same⟩ | ⟨full, _, none⟩
      · rw [if_neg fits, ← file, same]
      · rw [if_pos full, ← file, none]
        rfl
    · rw [Function.update_of_ne first] at file
      have whole := List.take_length (l := (preparation options pieces.bytes record : List (Call Piece)))
      rw [← whole] at file
      exact .inl (moved record _ file)
  cases step with
  | written record =>
      rcases wrote record _ file with old | ⟨first, items⟩
      · exact .inl old
      · exact .inr ⟨first, record, .whole, _, rfl, .inl rfl, items⟩
  | prepared record n m written => exact .inl (moved record m file)
  | begun record n written start =>
      rcases wrote record _ file with old | ⟨first, items⟩
      · exact .inl old
      · exact .inr ⟨first, record, _, _, rfl, .inr ⟨_, start, rfl⟩, items⟩
  | cleared => cases file

theorem contents_preparation (options : ErrorDiagnosticsStoreOptions) (pieces : PieceFiles)
    (record : ProxyErrorDiagnosticRecordDto) (m : Nat) :
    contents options.maxFiles (performAll pieces ((preparation options pieces.bytes record).take m))
      <:+ contents options.maxFiles pieces := by
  obtain ⟨n, count⟩ := exists_maxFiles options
  rcases preparation_take options pieces record m with same | ⟨_, rotated⟩
  · rw [same]
  · rw [rotated, count]
    exact contents_rotate n m pieces

theorem separator_length_le (options : ErrorDiagnosticsStoreOptions) (files : LogFiles)
    (record : ProxyErrorDiagnosticRecordDto) : (separator options files record).length ≤ 1 := by
  unfold separator lineEnd
  split
  · exact Nat.zero_le 1
  · split
    · exact Nat.le_refl 1
    · exact Nat.zero_le 1

end Steps

/-! ## Records that were completed -/

section Completed

variable {events : List Event} {record : ProxyErrorDiagnosticRecordDto}

theorem completed_whole (events : List Event) (record : ProxyErrorDiagnosticRecordDto) :
    completed (events ++ [.append record .whole]) = completed events ++ [record] := by
  rw [completed, List.foldl_append]
  rfl

theorem completed_cut (events : List Event) (record : ProxyErrorDiagnosticRecordDto) (n : Nat)
    (written : Option Nat) : completed (events ++ [.append record (.cut n written)]) = completed events := by
  rw [completed, List.foldl_append]
  rfl

theorem cost_concat (events : List Event) (event : Event) : cost (events ++ [event]) = cost events + event.cost := by
  rw [cost, List.map_append, List.sum_append]
  rfl

end Completed

/-! ## The newest records -/

section Recent

variable {options : ErrorDiagnosticsStoreOptions} {pieces pieces' : PieceFiles} {later later' : List Event}
  {event : Event} {record : ProxyErrorDiagnosticRecordDto}

/-- The records that were completed in the events are in `diagnostics.log`, or there was a rotation, and what
has been written since then is small. -/
def Recent (pieces : PieceFiles) (later : List Event) : Prop :=
  (∃ pre post, (pieces 0).getD [] = pre ++ post ∧ post.filterMap Piece.record? = completed later
      ∧ (post.flatMap Piece.bytes).length ≤ cost later)
    ∨ ∃ pre post, (pieces 1).getD [] = pre ++ post
      ∧ (post ++ (pieces 0).getD []).filterMap Piece.record? = completed later
      ∧ (((pieces 0).getD []).flatMap Piece.bytes).length ≤ cost later

theorem Recent.nil (pieces : PieceFiles) : Recent pieces [] :=
  .inl ⟨_, [], (List.append_nil _).symm, rfl, Nat.le_refl 0⟩

theorem Recent.mono (h : Recent pieces later) (same : completed later' = completed later)
    (more : cost later ≤ cost later') : Recent pieces later' := by
  rcases h with ⟨pre, post, split, records, bound⟩ | ⟨pre, post, split, records, bound⟩
  · exact .inl ⟨pre, post, split, records.trans same.symm, Nat.le_trans bound more⟩
  · exact .inr ⟨pre, post, split, records.trans same.symm, Nat.le_trans bound more⟩

theorem active_bytes (pieces : PieceFiles) : active pieces.bytes = ((pieces 0).getD []).flatMap Piece.bytes := by
  unfold active PieceFiles.bytes Files.flatMap
  cases pieces 0 <;> rfl

/-- Of a rotation only the first file is looked at. -/
theorem preparation_first (two : 2 ≤ options.maxFiles) (pieces : PieceFiles)
    (record : ProxyErrorDiagnosticRecordDto) (m : Nat) :
    performAll pieces ((preparation options pieces.bytes record).take m) = pieces
      ∨ rotates options pieces.bytes record
        ∧ (performAll pieces ((preparation options pieces.bytes record).take m) 0 = pieces 0
          ∨ performAll pieces ((preparation options pieces.bytes record).take m) 0 = none
            ∧ performAll pieces ((preparation options pieces.bytes record).take m) 1 = pieces 0) := by
  obtain ⟨n, count⟩ := exists_maxFiles options
  rcases preparation_take options pieces record m with same | ⟨full, rotated⟩
  · exact .inl same
  · refine .inr ⟨full, ?_⟩
    rw [rotated, count]
    cases m with
    | zero => exact .inl rfl
    | succ m =>
        rw [performAll_rotate]
        unfold shifted
        rcases Nat.eq_zero_or_pos (n - m) with last | more
        · rw [last, if_pos rfl, if_neg (by omega), if_pos (by omega)]
          exact .inr ⟨rfl, rfl⟩
        · rw [if_neg (by omega), if_neg (by omega)]
          exact .inl rfl

/-- Where the records fit into one file, there is one rotation at most. -/
theorem Recent.prepared (two : 2 ≤ options.maxFiles) (h : Recent pieces later)
    (fits : cost later + ((blockBytes record).length + 1) ≤ options.maxFileBytes) (m : Nat) :
    Recent (performAll pieces ((preparation options pieces.bytes record).take m)) later := by
  rcases preparation_first two pieces record m with same | ⟨full, first⟩
  · rwa [same]
  · rcases h with ⟨pre, post, split, records, bound⟩ | ⟨pre, post, split, records, bound⟩
    · rcases first with same | ⟨none, moved⟩
      · exact .inl ⟨pre, post, by rw [same, split], records, bound⟩
      · refine .inr ⟨pre, post, by rw [moved, split], ?_, ?_⟩
        · rw [none]
          simpa using records
        · rw [none]
          exact Nat.zero_le _
    · -- `diagnostics.log` has only what was written since, so that nothing is rotated
      have small : (lineEnd pieces.bytes).length ≤ 1 := by
        unfold lineEnd
        split
        · exact Nat.le_refl 1
        · exact Nat.zero_le 1
      have large := full.2
      rw [active_bytes] at large
      omega

theorem Recent.written (h : Recent pieces later) (items : List Piece)
    (records : completed later' = completed later ++ items.filterMap Piece.record?)
    (more : cost later + (items.flatMap Piece.bytes).length ≤ cost later') :
    Recent ((Call.append items).perform pieces) later' := by
  have first : (((Call.append items).perform pieces) 0).getD [] = (pieces 0).getD [] ++ items := by
    rw [Call.perform, Function.update_self]
    rfl
  have second : ((Call.append items).perform pieces) 1 = pieces 1 := by
    rw [Call.perform, Function.update_of_ne Nat.one_ne_zero]
  rcases h with ⟨pre, post, split, before, bound⟩ | ⟨pre, post, split, before, bound⟩
  · refine .inl ⟨pre, post ++ items, ?_, ?_, ?_⟩
    · rw [first, split, List.append_assoc]
    · rw [List.filterMap_append, before, records]
    · rw [List.flatMap_append, List.length_append]
      omega
  · refine .inr ⟨pre, post, ?_, ?_, ?_⟩
    · rw [second, split]
    · rw [first, ← List.append_assoc, List.filterMap_append, before, records]
    · rw [first, List.flatMap_append, List.length_append]
      omega

theorem Recent.step (two : 2 ≤ options.maxFiles) (h : Recent pieces later)
    (step : PieceStep options pieces event pieces') (noClear : event ≠ .clear)
    (fits : cost (later ++ [event]) ≤ options.maxFileBytes) : Recent pieces' (later ++ [event]) := by
  rw [cost_concat] at fits
  have all : ∀ record, cost later + ((blockBytes record).length + 1) ≤ options.maxFileBytes →
      Recent (performAll pieces (preparation options pieces.bytes record)) later := by
    intro record fits
    have whole := h.prepared two fits (preparation options pieces.bytes record : List (Call Piece)).length
    rwa [List.take_length] at whole
  cases step with
  | written record =>
      refine (all record fits).written _ (completed_whole later record) ?_
      have short := separator_length_le options pieces.bytes record
      rw [cost_concat, Event.cost, List.flatMap_cons, List.flatMap_singleton, Piece.bytes, Piece.bytes,
        List.length_append]
      omega
  | prepared record n m written =>
      refine (h.prepared two fits m).mono (completed_cut later record n written) ?_
      rw [cost_concat]
      omega
  | begun record n written start =>
      refine (all record fits).written _ ?_ ?_
      · rw [completed_cut]
        exact (List.append_nil _).symm
      · have short := separator_length_le options pieces.bytes record
        have part := start.length_le
        rw [List.length_append] at part
        rw [cost_concat, Event.cost, List.flatMap_singleton, Piece.bytes]
        omega
  | cleared => exact absurd rfl noClear

/-- They are among the records of all files. -/
theorem Recent.suffix (two : 2 ≤ options.maxFiles) (h : Recent pieces later) :
    completed later <:+ (contents options.maxFiles pieces).filterMap Piece.record? := by
  obtain ⟨n, count⟩ := Nat.exists_eq_add_of_le' two
  have last : (pieces 1).getD [] ++ (pieces 0).getD [] <:+ contents (n + 2) pieces := by
    clear count
    induction n with
    | zero =>
        rw [contents_succ, contents_succ, contents_zero, List.append_nil]
    | succ n ih =>
        rw [contents_succ]
        exact ih.trans (List.suffix_append _ _)
  rw [count]
  refine List.IsSuffix.trans ?_ (last.filterMap Piece.record?)
  rcases h with ⟨pre, post, split, records, _⟩ | ⟨pre, post, split, records, _⟩
  · rw [split, ← records, ← List.append_assoc]
    exact (List.suffix_append _ post).filterMap _
  · rw [split, ← records, List.append_assoc]
    exact (List.suffix_append pre _).filterMap _

end Recent

/-! ## Runs -/

section Runs

variable {options : ErrorDiagnosticsStoreOptions} {pieces pieces' : PieceFiles} {events : List Event}
  {event : Event} {record : ProxyErrorDiagnosticRecordDto}

/-- A file is not larger than it may be, or it has a part of a single record in it. -/
def Bounded (options : ErrorDiagnosticsStoreOptions) (events : List Event) (bytes : List UInt8) : Prop :=
  bytes.length ≤ options.maxFileBytes
    ∨ ∃ record reach, .append record reach ∈ events ∧ bytes <+: blockBytes record

structure Inv (options : ErrorDiagnosticsStoreOptions) (events : List Event) (pieces : PieceFiles) : Prop where
  numbers : ∀ i items, pieces i = some items → i < options.maxFiles
  aligned : ∀ i items, pieces i = some items → Aligned [] items
  bounded : ∀ i items, pieces i = some items → Bounded options events (items.flatMap Piece.bytes)
  kept : (contents options.maxFiles pieces).filterMap Piece.record? <:+ completed events
  recent : 2 ≤ options.maxFiles → ∀ before later, events = before ++ later → .clear ∉ later →
    cost later ≤ options.maxFileBytes → Recent pieces later

theorem inv_empty (options : ErrorDiagnosticsStoreOptions) : Inv options [] fun _ => none where
  numbers := fun _ _ file => by cases file
  aligned := fun _ _ file => by cases file
  bounded := fun _ _ file => by cases file
  kept := by
    rw [contents_empty]
    exact List.nil_suffix
  recent := by
    intro _ before later split _ _
    rw [(List.append_eq_nil_iff.mp split.symm).2]
    exact .nil _

/-- Where nothing is rotated, the file is empty or there is room in it. -/
theorem bounded_append {bytes : List UInt8} (fits : ¬ rotates options pieces.bytes record)
    (first : bytes <+: separator options pieces.bytes record ++ blockBytes record) {reach : Reach}
    (mem : .append record reach ∈ events) : Bounded options events (active pieces.bytes ++ bytes) := by
  have same : separator options pieces.bytes record = lineEnd pieces.bytes := if_neg fits
  rw [same] at first
  by_cases empty : active pieces.bytes = []
  · have none : lineEnd pieces.bytes = [] := if_neg (by simp [empty])
    rw [none, List.nil_append] at first
    rw [empty, List.nil_append]
    exact .inr ⟨record, reach, mem, first⟩
  · have length := first.length_le
    have some := List.length_pos_of_ne_nil empty
    rw [List.length_append] at length
    refine .inl ?_
    rw [List.length_append]
    by_contra large
    exact fits ⟨some, by omega⟩

theorem Inv.bounded_next (inv : Inv options events pieces) (step : PieceStep options pieces event pieces') :
    ∀ i items, pieces' i = some items → Bounded options (events ++ [event]) (items.flatMap Piece.bytes) := by
  intro i items file
  rcases step.files file with ⟨j, old, _⟩ | ⟨_, record, reach, new, rfl, made, rfl⟩
  · refine (inv.bounded j items old).imp_right ?_
    rintro ⟨record, reach, mem, first⟩
    exact ⟨record, reach, List.mem_append_left _ mem, first⟩
  · have mem : Event.append record reach ∈ events ++ [.append record reach] := by simp
    have first : new.flatMap Piece.bytes <+: separator options pieces.bytes record ++ blockBytes record := by
      rcases made with rfl | ⟨bytes, first, rfl⟩
      · rw [List.flatMap_cons, List.flatMap_singleton]
        exact List.prefix_rfl
      · rwa [List.flatMap_singleton]
    rw [List.flatMap_append]
    by_cases full : rotates options pieces.bytes record
    · have none : separator options pieces.bytes record = [] := if_pos full
      rw [none, List.nil_append] at first
      rw [if_pos full, List.flatMap_nil, List.nil_append]
      exact .inr ⟨record, reach, mem, first⟩
    · rw [if_neg full, ← active_bytes]
      exact bounded_append full first mem

theorem lineStart_separator (fits : ¬ rotates options pieces.bytes record) :
    LineStart (active pieces.bytes ++ separator options pieces.bytes record) := by
  have same : separator options pieces.bytes record = lineEnd pieces.bytes := if_neg fits
  rw [same, lineEnd]
  split
  · intro b last
    rw [List.getLast?_concat, Option.mem_some_iff] at last
    exact last.symm
  · rename_i closed
    rw [List.append_nil]
    intro b last
    have some : 0 < (active pieces.bytes).length := List.length_pos_iff_exists_mem.mpr ⟨b, List.mem_of_getLast? last⟩
    have ends : endsWithNewline (active pieces.bytes) = true := by
      rw [← Bool.not_eq_false]
      exact fun open_ => closed ⟨some, open_⟩
    rw [endsWithNewline, decide_eq_true_eq, Option.mem_def.mp last, Option.some.injEq] at ends
    exact ends

theorem Inv.aligned_next (inv : Inv options events pieces) (step : PieceStep options pieces event pieces') :
    ∀ i items, pieces' i = some items → Aligned [] items := by
  intro i items file
  rcases step.files file with ⟨j, old, _⟩ | ⟨_, record, reach, new, rfl, made, rfl⟩
  · exact inv.aligned j items old
  · have before : Aligned [] (if rotates options pieces.bytes record then [] else (pieces 0).getD []) := by
      split
      · trivial
      · cases first : pieces 0 with
        | none => trivial
        | some items => exact inv.aligned 0 items first
    rcases made with rfl | ⟨bytes, _, rfl⟩
    · rw [List.append_cons]
      refine (before.concat_part _).concat_whole ?_ record
      rw [List.nil_append, List.flatMap_append, List.flatMap_singleton, Piece.bytes]
      split
      · rename_i full
        rw [separator, if_pos full]
        exact fun b last => (Option.not_mem_none b last).elim
      · rename_i fits
        rw [← active_bytes]
        exact lineStart_separator fits
    · exact before.concat_part bytes

theorem Inv.kept_next (inv : Inv options events pieces) (step : PieceStep options pieces event pieces') :
    (contents options.maxFiles pieces').filterMap Piece.record? <:+ completed (events ++ [event]) := by
  have prepared : ∀ record m, (contents options.maxFiles (performAll pieces
      ((preparation options pieces.bytes record).take m))).filterMap Piece.record? <:+ completed events :=
    fun record m => ((contents_preparation options pieces record m).filterMap _).trans inv.kept
  have wrote : ∀ record items, (contents options.maxFiles ((Call.append items).perform
      (performAll pieces (preparation options pieces.bytes record)))).filterMap Piece.record?
        <:+ completed events ++ items.filterMap Piece.record? := by
    intro record items
    have base := prepared record (preparation options pieces.bytes record : List (Call Piece)).length
    obtain ⟨n, count⟩ := exists_maxFiles options
    rw [List.take_length, count] at base
    rw [count, contents_append, List.filterMap_append]
    obtain ⟨lost, split⟩ := base
    exact ⟨lost, by rw [← split, List.append_assoc]⟩
  cases step with
  | written record =>
      rw [completed_whole]
      exact wrote record _
  | prepared record n m written =>
      rw [completed_cut]
      exact prepared record m
  | begun record n written start =>
      rw [completed_cut, ← List.append_nil (completed events)]
      exact wrote record _
  | cleared =>
      rw [contents_empty]
      exact List.nil_suffix

theorem Inv.next (inv : Inv options events pieces) (step : PieceStep options pieces event pieces') :
    Inv options (events ++ [event]) pieces' where
  numbers := by
    intro i items file
    rcases step.files file with ⟨j, old, above⟩ | ⟨rfl, _⟩
    · have known := inv.numbers j items old
      omega
    · exact options.maxFiles_pos
  aligned := inv.aligned_next step
  bounded := inv.bounded_next step
  kept := inv.kept_next step
  recent := by
    intro two before later split noClear fits
    rcases List.eq_nil_or_concat later with rfl | ⟨later, last, rfl⟩
    · exact .nil pieces'
    · rw [List.concat_eq_append] at split noClear fits ⊢
      rw [← List.append_assoc] at split
      obtain ⟨earlier, same⟩ := List.append_inj' split rfl
      cases same
      rw [List.mem_append, List.mem_singleton, not_or] at noClear
      have known := inv.recent two before later earlier noClear.1 (by rw [cost_concat] at fits; omega)
      exact known.step two step (Ne.symm noClear.2) fits

theorem inv_run (enabled : options.enabled = true) (events : List Event) :
    Inv options events (runPieces options events) := by
  induction events using List.reverseRecOn with
  | nil => exact inv_empty options
  | append_singleton events event ih =>
      rw [runPieces, List.foldl_append]
      exact ih.next (pieceStep enabled _ event)

theorem run_eq (enabled : options.enabled = true) (events : List Event) :
    run options events = (runPieces options events).bytes := by
  induction events using List.reverseRecOn with
  | nil => rfl
  | append_singleton events event ih =>
      rw [run, runPieces, List.foldl_append, List.foldl_append]
      exact (congrArg (fun files => event.next options files) ih).trans (next_bytes enabled _ event)

/-- A record is the newest one right after it was written. -/
theorem kept_whole (before : List Event) (record : ProxyErrorDiagnosticRecordDto) :
    [record] <:+ kept options (before ++ [.append record .whole]) := by
  obtain ⟨n, count⟩ := exists_maxFiles options
  rw [kept, runPieces, List.foldl_append, List.foldl_cons, List.foldl_nil, Event.nextPieces, performAll_concat, count,
    contents_append, List.filterMap_append]
  exact List.suffix_append _ _

/-- The records are listed, the newest first. -/
theorem sublist_visitNewestFirst (options : ErrorDiagnosticsStoreOptions) (pieces : PieceFiles)
    (aligned : ∀ i items, pieces i = some items → Aligned [] items) :
    (((contents options.maxFiles pieces).filterMap Piece.record?).map toDiagnosticSummary).reverse.Sublist
      ((visitNewestFirst options pieces.bytes).map withoutContent) := by
  unfold visitNewestFirst
  induction options.maxFiles with
  | zero => exact List.nil_sublist _
  | succ n ih =>
      have own : ((((pieces n).getD []).filterMap Piece.record?).map toDiagnosticSummary).reverse.Sublist
          (((pieces.bytes n).elim [] fun bytes => (parseDiagnosticLog (Utf8.decode bytes)).reverse).map
            withoutContent) := by
        unfold PieceFiles.bytes Files.flatMap
        cases file : pieces n with
        | none => exact List.nil_sublist _
        | some items =>
            rw [Option.map_some, Option.elim_some, List.map_reverse]
            exact (sublist_parseDiagnosticLog (aligned n items file)).reverse
      rw [contents_succ, List.range_succ, List.flatMap_append, List.flatMap_singleton, List.map_append,
        List.filterMap_append, List.map_append, List.reverse_append]
      exact ih.append own

end Runs

theorem hasId_withoutContent (id : JsString) (detail : Detail) : hasId id (withoutContent detail) = hasId id detail := by
  have same : (withoutContent detail).get (utf16 "id") = detail.get (utf16 "id") :=
    OrderedMap.get_erase_ne (by decide)
  rw [hasId, same, hasId]

theorem hasId_toDiagnosticSummary (record : ProxyErrorDiagnosticRecordDto) :
    hasId record.id.text (toDiagnosticSummary record) = true := by
  rw [hasId, get_id_toDiagnosticSummary]
  exact decide_eq_true rfl

/-- `get` answers with the newest record that is listed with the id. -/
theorem get_eq (enabled : options.enabled = true) {files : LogFiles} {id : JsString} {summary : Detail}
    (listed : summary ∈ (visitNewestFirst options files).map withoutContent) (own : hasId id summary = true) :
    ∃ detail, get options files id = .ok (some detail)
      ∧ ((visitNewestFirst options files).map withoutContent).find? (hasId id) = some (withoutContent detail) := by
  obtain ⟨visited, isVisited, rfl⟩ := List.mem_map.mp listed
  rw [hasId_withoutContent] at own
  cases found : (visitNewestFirst options files).find? (hasId id) with
  | none => exact absurd own (List.find?_eq_none.mp found visited isVisited)
  | some detail =>
      refine ⟨detail, by rw [get, if_neg (by simp [enabled]), found], ?_⟩
      have same : hasId id ∘ withoutContent = hasId id := funext (hasId_withoutContent id)
      rw [List.find?_map, same, found]
      rfl

namespace Sample

def request : ProxyErrorDiagnosticRequestDto where
  method := utf16 "POST"
  url := utf16 "/responses"
  headers := []
  body := none

def record (id : DiagnosticId) : ProxyErrorDiagnosticRecordDto where
  id := id
  timestamp := utf16 "2026-02-01T00:00:00.000Z"
  failureKind := .stream
  identity := utf16 "ccc.c00"
  enterpriseId := none
  path := .responses
  model := none
  redacted := false
  inboundRequest := request
  upstreamRequest := request
  upstreamResponse := none
  error := none

def first : ProxyErrorDiagnosticRecordDto :=
  record ⟨utf16 "5f0c1a52-0000-4000-8000-000000000001", by decide, by decide⟩

def second : ProxyErrorDiagnosticRecordDto :=
  record ⟨utf16 "5f0c1a52-0000-4000-8000-000000000002", by decide, by decide⟩

/-- Two records fit into a file. -/
def options : ErrorDiagnosticsStoreOptions where
  enabled := true
  maxFileBytes := 1800
  maxFiles := 2
  maxFiles_pos := by decide

/-- The third record and the fifth one do not fit, and the last write is cut off. -/
def events : List Event :=
  [.append first .whole, .append first .whole, .append second .whole, .append first .whole, .append second .whole,
    .append first (.cut 0 (some 7))]

theorem files : (kept options events).map (·.id.text) = [second.id.text, first.id.text, second.id.text]
    ∧ run options events 1 = some (blockBytes second ++ blockBytes first)
    ∧ run options events 0 = some (blockBytes second ++ (blockBytes first).take 7) := by
  decide +kernel

end Sample

/-- The directory never has more files than it may have, and none of them is too large, unless it has a part of
a single record in it. -/
theorem bounded_run (options : ErrorDiagnosticsStoreOptions) (enabled : options.enabled = true)
    (events : List Event) {i : Nat} {bytes : List UInt8} (file : run options events i = some bytes) :
    i < options.maxFiles ∧ (bytes.length ≤ options.maxFileBytes
      ∨ ∃ record reach, .append record reach ∈ events ∧ bytes <+: blockBytes record) := by
  have inv := inv_run enabled events
  rw [run_eq enabled, PieceFiles.bytes, Files.flatMap, Option.map_eq_some_iff] at file
  obtain ⟨items, file, rfl⟩ := file
  exact ⟨inv.numbers i items file, inv.bounded i items file⟩

/-- The file that was rotated last has two records, and the one that is written to a record and a part of one. -/
theorem bounded_run_events :
    (1 < 2 ∧ ((blockBytes Sample.second ++ blockBytes Sample.first).length ≤ Sample.options.maxFileBytes
      ∨ ∃ record reach, .append record reach ∈ Sample.events
        ∧ blockBytes Sample.second ++ blockBytes Sample.first <+: blockBytes record))
    ∧ 0 < 2 ∧ ((blockBytes Sample.second ++ (blockBytes Sample.first).take 7).length ≤ Sample.options.maxFileBytes
      ∨ ∃ record reach, .append record reach ∈ Sample.events
        ∧ blockBytes Sample.second ++ (blockBytes Sample.first).take 7 <+: blockBytes record) :=
  ⟨bounded_run Sample.options rfl Sample.events Sample.files.2.1,
    bounded_run Sample.options rfl Sample.events Sample.files.2.2⟩

end GhcpConsole.Diagnostics.ErrorDiagnosticsStore
