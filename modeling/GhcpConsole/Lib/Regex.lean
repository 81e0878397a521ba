import GhcpConsole.Lib.CodeUnits
import GhcpConsole.Lib.Replacing
import Mathlib.Data.List.TakeWhile

/-!
# Regular expressions

Patterns over code units as a backtracking matcher reads them. `ends` gives the ends of all the matches
that begin at a place, the preferred ones first; `match?` is the first of them.
-/

namespace GhcpConsole

/-- The characters of `\\w`, which `\\b` looks at. -/
def isWord (u : CodeUnit) : Bool :=
  (codeUnit 'a' ≤ u && u ≤ codeUnit 'z') || (codeUnit 'A' ≤ u && u ≤ codeUnit 'Z')
    || (codeUnit '0' ≤ u && u ≤ codeUnit '9') || u = codeUnit '_'

/-- A quantifier stands behind a single set only, except for `?`. All of them are greedy. -/
inductive Regex
  | one (set : CodeUnit → Bool)
  | many (least : Nat) (set : CodeUnit → Bool)
  | empty
  | boundary
  | optional (part : Regex)
  | seq (first second : Regex)
  | either (first second : Regex)

namespace Regex

/-- A text without regard to case. -/
def text : String → Regex := fun text =>
  (text.toList.map fun c => one fun u => lowerAscii u = codeUnit c).foldr seq empty

/-- One of the alternatives, the first ones first. -/
def oneOf : Regex → List Regex → Regex
  | first, [] => first
  | first, second :: others => either first (oneOf second others)

/-- One part behind the other. -/
def inOrder : Regex → List Regex → Regex
  | first, [] => first
  | first, second :: others => seq first (inOrder second others)

/-- The lengths of the matches at the front of a text, which has a unit before it. -/
def ends : Regex → Option CodeUnit → JsString → List Nat
  | one set, _, text => if text.head?.any set then [1] else []
  | many least set, _, text =>
      let run := (text.takeWhile set).length
      (List.range (run + 1 - least)).map (run - ·)
  | empty, _, _ => [0]
  | boundary, before, text => if before.any isWord = text.head?.any isWord then [] else [0]
  | optional part, before, text => ends part before text ++ [0]
  | seq first second, before, text =>
      (ends first before text).flatMap fun n =>
        (ends second ((text.take n).getLast?.or before) (text.drop n)).map (n + ·)
  | either first second, before, text => ends first before text ++ ends second before text

section
-- Generates the equations here, once for all the proofs below.
attribute [local simp] Regex.ends
end

def match? (r : Regex) (before : Option CodeUnit) (text : JsString) : Option Nat := (r.ends before text).head?

/-- `r.test(text)`. -/
def test (r : Regex) (before : Option CodeUnit) : JsString → Bool
  | [] => (r.match? before []).isSome
  | u :: text => (r.match? before (u :: text)).isSome || test r (some u) text

/-- `text.replace(r, put)`, with the flag `g`, for a pattern that does not match the empty text. -/
def replace (r : Regex) (put : JsString → JsString) (text : JsString) : JsString :=
  replaceWith r.match? put none 0 text

section Matches

variable {r first second : Regex} {before : Option CodeUnit} {text : JsString} {n : Nat}

theorem le_length_of_mem_ends (h : n ∈ r.ends before text) : n ≤ text.length := by
  induction r generalizing before text n with
  | one set =>
      rw [ends] at h
      split at h
      · cases text with
        | nil => contradiction
        | cons u text => simp_all
      · cases h
  | many least set =>
      obtain ⟨m, _, rfl⟩ := List.mem_map.mp h
      exact (Nat.sub_le _ _).trans (List.takeWhile_prefix _).length_le
  | empty => simp_all [ends]
  | boundary =>
      rw [ends] at h
      split at h
      · cases h
      · simp_all
  | optional part ih =>
      rcases List.mem_append.mp h with h | h
      · exact ih h
      · simp_all
  | seq first second ihFirst ihSecond =>
      obtain ⟨i, hi, h⟩ := List.mem_flatMap.mp h
      obtain ⟨j, hj, rfl⟩ := List.mem_map.mp h
      have := ihFirst hi
      have := ihSecond hj
      rw [List.length_drop] at this
      omega
  | either first second ihFirst ihSecond =>
      rcases List.mem_append.mp h with h | h
      · exact ihFirst h
      · exact ihSecond h

theorem mem_ends_of_match? (h : r.match? before text = some n) : n ∈ r.ends before text :=
  List.mem_of_head? h

theorem within_match? : Within r.match? :=
  fun _ _ _ h => le_length_of_mem_ends (mem_ends_of_match? h)

/-- The pattern has no set with this character. -/
def avoids (c : CodeUnit) : Regex → Bool
  | one set => !set c
  | many _ set => !set c
  | empty => true
  | boundary => true
  | optional part => avoids c part
  | seq first second => avoids c first && avoids c second
  | either first second => avoids c first && avoids c second

section
-- Generates the equations here, once for all the proofs below.
attribute [local simp] Regex.avoids
end

theorem not_mem_of_avoids {c : CodeUnit} (avoids : r.avoids c = true) (h : n ∈ r.ends before text) :
    c ∉ text.take n := by
  induction r generalizing before text n with
  | one set =>
      rw [ends] at h
      split at h
      · rename_i here
        cases text with
        | nil => cases here
        | cons u text =>
            rw [List.mem_singleton.mp h]
            intro mem
            rw [List.take_succ_cons, List.take_zero, List.mem_singleton] at mem
            subst mem
            simp_all [Regex.avoids]
      · cases h
  | many least set =>
      obtain ⟨m, _, rfl⟩ := List.mem_map.mp h
      intro mem
      have part : text.take ((text.takeWhile set).length - m) <+: text.takeWhile set := by
        conv_lhs => rw [← List.takeWhile_append_dropWhile (p := set) (l := text)]
        rw [List.take_append_of_le_length (by simp)]
        exact List.take_prefix _ _
      have inSet := List.mem_takeWhile_imp (part.subset mem)
      simp_all [Regex.avoids]
  | empty =>
      rw [ends, List.mem_singleton] at h
      simp [h]
  | boundary =>
      rw [ends] at h
      split at h
      · cases h
      · simp_all
  | optional part ih =>
      rcases List.mem_append.mp h with h | h
      · exact ih avoids h
      · simp_all
  | seq first second ihFirst ihSecond =>
      rw [Regex.avoids, Bool.and_eq_true] at avoids
      obtain ⟨i, hi, h⟩ := List.mem_flatMap.mp h
      obtain ⟨j, hj, rfl⟩ := List.mem_map.mp h
      rw [List.take_add, List.mem_append, not_or]
      exact ⟨ihFirst avoids.1 hi, ihSecond avoids.2 hj⟩
  | either first second ihFirst ihSecond =>
      rw [Regex.avoids, Bool.and_eq_true] at avoids
      rcases List.mem_append.mp h with h | h
      · exact ihFirst avoids.1 h
      · exact ihSecond avoids.2 h

theorem takeWhile_append_cons {set : CodeUnit → Bool} {u v : JsString} {c : CodeUnit} (stop : set c = false) :
    (u ++ c :: v).takeWhile set = u.takeWhile set := by
  induction u with
  | nil => simp [stop]
  | cons d u ih => rw [List.cons_append, List.takeWhile_cons, List.takeWhile_cons, ih]

theorem head?_append_cons {u v : JsString} {c : CodeUnit} : (u ++ c :: v).head? = (u ++ [c]).head? := by
  cases u <;> rfl

/-- The text behind a character that the pattern has no set with makes no difference. -/
theorem ends_append_cons {c : CodeUnit} {u v : JsString} (avoids : r.avoids c = true) :
    r.ends before (u ++ c :: v) = r.ends before (u ++ [c]) := by
  induction r generalizing before u with
  | one set => rw [ends, ends, head?_append_cons]
  | many least set =>
      rw [Regex.avoids, Bool.not_eq_true'] at avoids
      rw [ends, ends, takeWhile_append_cons avoids, takeWhile_append_cons avoids]
  | empty => rfl
  | boundary => rw [ends, ends, head?_append_cons]
  | optional part ih => rw [ends, ends, ih avoids]
  | seq first second ihFirst ihSecond =>
      rw [Regex.avoids, Bool.and_eq_true] at avoids
      rw [ends, ends, ihFirst avoids.1, List.flatMap_def, List.flatMap_def]
      refine congrArg List.flatten (List.map_congr_left fun n found => ?_)
      have bound : n ≤ u.length := by
        by_contra beyond
        rw [Nat.not_le] at beyond
        refine not_mem_of_avoids avoids.1 found ?_
        have all : (u ++ [c]).length ≤ n := by
          rw [List.length_append]
          exact beyond
        rw [List.take_of_length_le all]
        simp
      rw [List.take_append_of_le_length bound, List.take_append_of_le_length bound,
        List.drop_append_of_le_length bound, List.drop_append_of_le_length bound, ihSecond avoids.2]
  | either first second ihFirst ihSecond =>
      rw [Regex.avoids, Bool.and_eq_true] at avoids
      rw [ends, ends, ihFirst avoids.1, ihSecond avoids.2]

theorem match?_seq_of_nil (h : first.ends before text = []) : (seq first second).match? before text = none := by
  rw [match?, ends, h]
  rfl

theorem exists_of_match?_seq (h : (seq first second).match? before text = some n) :
    ∃ i j, n = i + j ∧ second.match? ((text.take i).getLast?.or before) (text.drop i) = some j := by
  rw [match?, ends] at h
  generalize first.ends before text = starts at h
  induction starts with
  | nil => cases h
  | cons i starts ih =>
      rw [List.flatMap_cons, List.head?_append, List.head?_map] at h
      cases found : (second.ends ((text.take i).getLast?.or before) (text.drop i)).head? with
      | none =>
          rw [found] at h
          exact ih h
      | some j =>
          rw [found] at h
          exact ⟨i, j, (Option.some.inj h).symm, found⟩

theorem match?_either (h : (either first second).match? before text = some n) :
    first.match? before text = some n ∨ second.match? before text = some n := by
  rw [match?, ends, List.head?_append] at h
  cases found : (first.ends before text).head? with
  | none =>
      rw [found] at h
      exact .inr h
  | some m =>
      rw [found] at h
      exact .inl (found.trans h)

end Matches

section Closes

variable {mark : JsString} {first second : Regex} {set : CodeUnit → Bool}

/-- A match goes on to a character that no mark has, or ends with one. -/
def Closes (mark : JsString) (r : Regex) : Prop :=
  ∀ before text n, r.match? before text = some n →
    (∀ c ∈ (text.drop n).head?, c ∉ mark) ∨ ∃ c, (text.take n).getLast? = some c ∧ c ∉ mark

theorem Closes.seq (h : Closes mark second) : Closes mark (seq first second) := by
  intro before text n found
  obtain ⟨i, j, rfl, later⟩ := exists_of_match?_seq found
  refine (h _ _ _ later).imp (fun next => ?_) fun ⟨c, last, other⟩ => ⟨c, ?_, other⟩
  · rwa [List.drop_drop] at next
  · rw [List.take_add, List.getLast?_append, last]
    rfl

theorem Closes.either (hfirst : Closes mark first) (hsecond : Closes mark second) :
    Closes mark (either first second) := by
  intro before text n found
  rcases match?_either found with found | found
  · exact hfirst _ _ _ found
  · exact hsecond _ _ _ found

theorem closes_one (h : ∀ c ∈ mark, set c = false) : Closes mark (one set) := by
  intro before text n found
  refine .inr ?_
  cases text with
  | nil => cases found
  | cons u text =>
      rw [match?, ends] at found
      split at found
      · rename_i inSet
        cases found
        refine ⟨u, rfl, fun mem => ?_⟩
        rw [List.head?_cons, Option.any_some, h u mem] at inSet
        cases inSet
      · cases found

/-- The longest run is preferred. -/
theorem closes_many {least : Nat} (h : ∀ c ∈ mark, set c = true) : Closes mark (many least set) := by
  intro before text n found
  refine .inl fun c next mem => ?_
  rw [match?, ends, List.head?_map] at found
  obtain ⟨m, zero, rfl⟩ := Option.map_eq_some_iff.mp found
  obtain rfl : m = 0 := by
    cases run : (text.takeWhile set).length + 1 - least with
    | zero =>
        rw [run] at zero
        cases zero
    | succ k =>
        rw [run, List.range_succ_eq_map] at zero
        exact (Option.some.inj zero).symm
  have rest : text.drop (text.takeWhile set).length = text.dropWhile set := by
    have behind : (text.takeWhile set ++ text.dropWhile set).drop (text.takeWhile set).length
        = text.dropWhile set := List.drop_left
    rwa [List.takeWhile_append_dropWhile] at behind
  rw [Nat.sub_zero, rest] at next
  have stop := List.head?_dropWhile_not set text
  rw [Option.mem_def.mp next] at stop
  simp [h c mem] at stop

end Closes

/-- A pattern of which no match begins or ends inside a mark. -/
theorem spares_match? {r : Regex} {c : CodeUnit} {mark : JsString}
    (starts : ∀ before d rest, c :: mark = before ++ d :: rest → before ≠ [] →
      ∀ text, r.match? before.getLast? (d :: rest ++ text) = none)
    (closes : r.avoids c = true ∨ Closes (c :: mark) r) : Spares (c :: mark) r.match? where
  first before d rest split nonempty text n found := by
    rw [starts before d rest split nonempty text] at found
    cases found
  last before text n u p q v found split hp hq front back := by
    obtain ⟨e, p, rfl⟩ := List.exists_cons_of_ne_nil hp
    obtain ⟨f, q, rfl⟩ := List.exists_cons_of_ne_nil hq
    obtain rfl : c = e := (List.cons.inj split).1
    rcases closes with avoids | closes
    · refine not_mem_of_avoids avoids (mem_ends_of_match? found) ?_
      simp [front]
    · rcases closes before text n found with next | ⟨d, last, other⟩
      · refine next f (by rw [back]; rfl) ?_
        simp [split]
      · refine other ?_
        rw [split, List.mem_append]
        rw [front, List.getLast?_append_of_ne_nil _ hp] at last
        exact .inl (List.mem_of_getLast? last)

end Regex

end GhcpConsole
