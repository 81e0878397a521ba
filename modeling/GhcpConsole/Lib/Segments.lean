import GhcpConsole.Lib.Deciding
import Mathlib.Data.List.Induction
import Mathlib.Data.List.Infix

/-!
# Texts cut at delimiters, chunk by chunk

A text that arrives in chunks is cut at the leftmost delimiter as long as there is one, and what is
left waits for the next chunk. A delimiter that straddles two chunks is found when the second one is
there. The segments do not depend on where the text was cut into chunks (`drain_chunks`), because
the first segment of a text is the first segment of every text that begins with it (`text_next`).
-/

namespace GhcpConsole

variable {α σ : Type}

structure Segment (α : Type) where
  body : List α
  delimiter : List α
deriving DecidableEq

def Segment.text (s : Segment α) : List α := s.body ++ s.delimiter

/-- How the first segment of a text is found. -/
structure Splitter (α : Type) where
  next : List α → Option (Segment α × List α)
  split {u r : List α} {s : Segment α} : next u = some (s, r) → u = s.text ++ r ∧ s.delimiter ≠ []
  text_next {u r : List α} {s : Segment α} : next u = some (s, r) →
    ∀ v, next (s.text ++ v) = some (s, v)

namespace Splitter

variable (S : Splitter α)

/-- `for (;;)` over the segments: each one is handed to `f`; what has no delimiter stays. -/
def drainWithin (f : σ → Segment α → σ) : Nat → σ → List α → σ × List α
  | 0, state, u => (state, u)
  | n + 1, state, u =>
      match S.next u with
      | none => (state, u)
      | some (s, r) => drainWithin f n (f state s) r

def drain (f : σ → Segment α → σ) (state : σ) (u : List α) : σ × List α :=
  S.drainWithin f u.length state u

def segments (u : List α) : List (Segment α) := (S.drain (fun l s => l ++ [s]) [] u).1

def remainder (u : List α) : List α := (S.drain (fun l s => l ++ [s]) [] u).2

section
-- Generates the equations here, once for all the proofs below.
attribute [local simp] drainWithin drain segments remainder
end

section Drain

variable {S} {f : σ → Segment α → σ} {state : σ} {u v r : List α} {s : Segment α}

theorem next_append (h : S.next u = some (s, r)) (v : List α) :
    S.next (u ++ v) = some (s, r ++ v) := by
  rw [(S.split h).1, List.append_assoc]
  exact S.text_next h _

theorem next_nil : S.next [] = none := by
  cases h : S.next [] with
  | none => rfl
  | some found =>
      obtain ⟨hnil, hd⟩ := S.split (s := found.1) (r := found.2) h
      have hnil := List.append_eq_nil_iff.mp (List.append_eq_nil_iff.mp hnil.symm).1
      exact absurd hnil.2 hd

theorem length_lt_of_next (h : S.next u = some (s, r)) : r.length < u.length := by
  obtain ⟨rfl, hd⟩ := S.split h
  have hpos := List.length_pos_iff.mpr hd
  rw [Segment.text, List.length_append, List.length_append]
  omega

theorem drainWithin_of_le {n m : Nat} (hn : u.length ≤ n) (hm : u.length ≤ m) :
    S.drainWithin f n state u = S.drainWithin f m state u := by
  induction n generalizing m state u with
  | zero =>
      obtain rfl := List.length_eq_zero_iff.mp (Nat.le_zero.mp hn)
      cases m with
      | zero => rfl
      | succ m => rw [drainWithin, drainWithin, next_nil]
  | succ n ih =>
      cases m with
      | zero =>
          obtain rfl := List.length_eq_zero_iff.mp (Nat.le_zero.mp hm)
          rw [drainWithin, drainWithin, next_nil]
      | succ m =>
          rw [drainWithin, drainWithin]
          cases hnext : S.next u with
          | none => rfl
          | some found =>
              have := length_lt_of_next (s := found.1) (r := found.2) hnext
              exact ih (by omega) (by omega)

theorem drain_of_none (h : S.next u = none) : S.drain f state u = (state, u) := by
  unfold drain
  cases u with
  | nil => rfl
  | cons c u => rw [List.length_cons, drainWithin, h]

theorem drain_of_some (h : S.next u = some (s, r)) :
    S.drain f state u = S.drain f (f state s) r := by
  have hlt := length_lt_of_next h
  unfold drain
  rw [drainWithin_of_le (Nat.le_refl _) (Nat.le_succ u.length), drainWithin, h]
  exact drainWithin_of_le (by omega) (Nat.le_refl _)

/-- Induction along the segments of a text. -/
theorem drain_induction {motive : List α → Prop} (u : List α)
    (rest : ∀ u, S.next u = none → motive u)
    (segment : ∀ u s r, S.next u = some (s, r) → motive r → motive u) : motive u := by
  induction hlength : u.length using Nat.strongRecOn generalizing u with
  | _ n ih =>
      cases hnext : S.next u with
      | none => exact rest u hnext
      | some found =>
          obtain ⟨s, r⟩ := found
          exact segment u s r hnext (ih r.length (hlength ▸ length_lt_of_next hnext) r rfl)

theorem drain_collect (l : List (Segment α)) :
    S.drain (fun l s => l ++ [s]) l u = (l ++ S.segments u, S.remainder u) := by
  induction u using S.drain_induction generalizing l with
  | rest u h => simp only [segments, remainder, drain_of_none h, List.append_nil]
  | segment u s r h ih =>
      have hfirst : S.drain (fun l s => l ++ [s]) [] u = ([s] ++ S.segments r, S.remainder r) := by
        rw [drain_of_some h, ih, List.nil_append]
      have hs : S.segments u = [s] ++ S.segments r := by rw [segments, hfirst]
      have hr : S.remainder u = S.remainder r := by
        rw [remainder, hfirst]
      rw [drain_of_some h, ih, hs, hr, List.append_assoc]

theorem segments_of_none (h : S.next u = none) : S.segments u = [] := by
  rw [segments, drain_of_none h]

theorem remainder_of_none (h : S.next u = none) : S.remainder u = u := by
  rw [remainder, drain_of_none h]

theorem segments_of_some (h : S.next u = some (s, r)) : S.segments u = s :: S.segments r := by
  rw [segments, drain_of_some h, drain_collect]
  rfl

theorem remainder_of_some (h : S.next u = some (s, r)) : S.remainder u = S.remainder r := by
  rw [remainder, drain_of_some h, drain_collect]

theorem drain_eq_foldl : S.drain f state u = ((S.segments u).foldl f state, S.remainder u) := by
  induction u using S.drain_induction generalizing state with
  | rest u h => rw [drain_of_none h, segments_of_none h, remainder_of_none h, List.foldl_nil]
  | segment u s r h ih =>
      rw [drain_of_some h, segments_of_some h, remainder_of_some h, ih, List.foldl_cons]

/-- Nothing is lost. -/
theorem flatten_segments (u : List α) :
    ((S.segments u).map Segment.text).flatten ++ S.remainder u = u := by
  induction u using S.drain_induction with
  | rest u h => rw [segments_of_none h, remainder_of_none h, List.map_nil, List.flatten_nil, List.nil_append]
  | segment u s r h ih =>
      rw [segments_of_some h, remainder_of_some h, List.map_cons, List.flatten_cons,
        List.append_assoc, ih, (S.split h).1]

theorem delimiter_ne_nil : ∀ s ∈ S.segments u, s.delimiter ≠ [] := by
  induction u using S.drain_induction with
  | rest u h =>
      rw [segments_of_none h]
      exact fun _ hs => absurd hs List.not_mem_nil
  | segment u s r h ih =>
      rw [segments_of_some h]
      exact List.forall_mem_cons.mpr ⟨(S.split h).2, ih⟩

/-- What comes last is in the last delimiter or in what is left. -/
theorem mem_of_concat {x : α} (h : S.remainder (u ++ [x]) = []) :
    ∃ s ∈ S.segments (u ++ [x]), x ∈ s.delimiter := by
  have hflatten := flatten_segments (S := S) (u ++ [x])
  rw [h, List.append_nil] at hflatten
  rcases List.eq_nil_or_concat (S.segments (u ++ [x])) with hnil | ⟨l, s, hl⟩
  · rw [hnil] at hflatten
    exact absurd hflatten.symm (List.append_ne_nil_of_right_ne_nil _ (List.cons_ne_nil _ _))
  · rw [List.concat_eq_append] at hl
    have hmem : s ∈ S.segments (u ++ [x]) := hl ▸ List.mem_append_right _ List.mem_cons_self
    have hne := delimiter_ne_nil s hmem
    have hlast := congrArg List.getLast? hflatten
    rw [hl, List.map_append, List.flatten_append, List.map_singleton, List.flatten_singleton,
      Segment.text, ← List.append_assoc, List.getLast?_append_of_ne_nil _ hne,
      List.getLast?_concat] at hlast
    exact ⟨s, hmem, List.mem_of_getLast? hlast⟩

theorem next_remainder (u : List α) : S.next (S.remainder u) = none := by
  induction u using S.drain_induction with
  | rest u h => rw [remainder_of_none h, h]
  | segment u s r h ih => rw [remainder_of_some h, ih]

/-- What arrives later is cut as if it followed what was left. -/
theorem segments_append (u v : List α) :
    S.segments (u ++ v) = S.segments u ++ S.segments (S.remainder u ++ v) := by
  induction u using S.drain_induction with
  | rest u h => rw [segments_of_none h, remainder_of_none h, List.nil_append]
  | segment u s r h ih =>
      rw [segments_of_some (next_append h v), segments_of_some h, remainder_of_some h, ih,
        List.cons_append]

theorem remainder_append (u v : List α) :
    S.remainder (u ++ v) = S.remainder (S.remainder u ++ v) := by
  induction u using S.drain_induction with
  | rest u h => rw [remainder_of_none h]
  | segment u s r h ih => rw [remainder_of_some (next_append h v), remainder_of_some h, ih]

theorem drain_append (u v : List α) : S.drain f state (u ++ v)
    = S.drain f (S.drain f state u).1 ((S.drain f state u).2 ++ v) := by
  rw [drain_eq_foldl, drain_eq_foldl, drain_eq_foldl, segments_append, remainder_append,
    List.foldl_append]

/-- However a text is cut into chunks, its segments are handed over as if it came at once. -/
theorem drain_chunks (state : σ) (chunks : List (List α)) :
    chunks.foldl (fun p chunk => S.drain f p.1 (p.2 ++ chunk)) (state, [])
      = S.drain f state chunks.flatten := by
  induction chunks using List.reverseRecOn with
  | nil => rfl
  | append_singleton chunks chunk ih =>
      rw [List.foldl_append, List.foldl_cons, List.foldl_nil, ih, List.flatten_append,
        List.flatten_singleton, ← drain_append]

/-- What has arrived of a segment so far is a part of it, or of what is left in the end. -/
theorem remainder_prefix (u v : List α) :
    (∃ s ∈ S.segments (u ++ v), S.remainder u <+: s.text) ∨ S.remainder u <+: S.remainder (u ++ v) := by
  rw [segments_append, remainder_append]
  cases hnext : S.next (S.remainder u ++ v) with
  | none =>
      rw [remainder_of_none hnext]
      exact .inr (List.prefix_append _ _)
  | some found =>
      obtain ⟨s, r⟩ := found
      refine .inl ⟨s, List.mem_append_right _ (segments_of_some hnext ▸ List.mem_cons_self), ?_⟩
      have hboth : s.text <+: S.remainder u ++ v := ⟨r, (S.split hnext).1.symm⟩
      rcases List.prefix_or_prefix_of_prefix (List.prefix_append (S.remainder u) v) hboth with h | h
      · exact h
      · obtain ⟨w, hw⟩ := h
        have hfound := S.text_next hnext w
        rw [hw, next_remainder] at hfound
        cases hfound

end Drain

end Splitter

/-! ## Words as delimiters -/

/-- Words of which none begins with another, and none holds another inside but where some word ends
with that one. -/
structure Delimiting [DecidableEq α] (words : List (List α)) : Prop where
  ne_nil : ∀ w ∈ words, w ≠ []
  prefixFree : ∀ w ∈ words, ∀ w' ∈ words, w <+: w' → w = w'
  inside : ∀ w ∈ words, ∀ w' ∈ words, ∀ i < w'.length, 0 < i → w <+: w'.drop i →
    ∃ w'' ∈ words, w'' <+: w'.take (i + w.length)

section Words

variable [DecidableEq α] (words : List (List α))

def wordAt (u : List α) : Option (List α) := words.find? (·.isPrefixOf u)

/-- The text before the leftmost of the words, the word, and what follows. -/
def nextWord : List α → Option (Segment α × List α)
  | [] => none
  | c :: u =>
      match wordAt words (c :: u) with
      | some w => some (⟨[], w⟩, (c :: u).drop w.length)
      | none => (nextWord u).map fun (s, r) => (⟨c :: s.body, s.delimiter⟩, r)

variable {words} {u v r : List α} {s : Segment α} {w : List α}

section
-- Generates the equations here, once for all the proofs below.
attribute [local simp] wordAt nextWord
end

theorem wordAt_eq_some (h : wordAt words u = some w) : w ∈ words ∧ w <+: u :=
  ⟨List.mem_of_find?_eq_some h, by simpa using List.find?_some h⟩

theorem wordAt_eq_none : wordAt words u = none ↔ ∀ w ∈ words, ¬w <+: u := by
  rw [wordAt, List.find?_eq_none]
  simp

theorem wordAt_append (hwords : Delimiting words) (hw : w ∈ words) (v : List α) :
    wordAt words (w ++ v) = some w := by
  cases hfound : wordAt words (w ++ v) with
  | none => exact absurd (List.prefix_append w v) (wordAt_eq_none.mp hfound w hw)
  | some w' =>
      obtain ⟨hw', hprefix⟩ := wordAt_eq_some hfound
      rcases List.prefix_or_prefix_of_prefix hprefix (List.prefix_append w v) with h | h
      · rw [hwords.prefixFree _ hw' _ hw h]
      · rw [hwords.prefixFree _ hw _ hw' h]

/-- No word starts before another one and is seen only behind that one's end. -/
theorem wordAt_overlap {x : List α} (hwords : Delimiting words) (hw : w ∈ words) (hx : x ≠ [])
    (h : wordAt words (x ++ w ++ u) = none) (v : List α) : wordAt words (x ++ w ++ v) = none := by
  refine wordAt_eq_none.mpr fun w' hw' hprefix => ?_
  have hearly : ∀ w'' ∈ words, ¬w'' <+: x ++ w := fun w'' hw'' hpre =>
    wordAt_eq_none.mp h w'' hw'' (hpre.trans (List.prefix_append _ _))
  rcases List.prefix_or_prefix_of_prefix hprefix (List.prefix_append (x ++ w) v) with hin | hover
  · exact hearly w' hw' hin
  · obtain ⟨y, rfl⟩ := hover
    have hpos := List.length_pos_iff.mpr hx
    have hwpos := List.length_pos_iff.mpr (hwords.ne_nil w hw)
    have hdrop : w <+: (x ++ w ++ y).drop x.length := by
      rw [List.append_assoc, List.drop_left]
      exact List.prefix_append w y
    obtain ⟨w'', hw'', hpre⟩ := hwords.inside w hw _ hw' x.length
      (by rw [List.length_append, List.length_append]; omega) hpos hdrop
    rw [← List.length_append, List.take_left] at hpre
    exact hearly w'' hw'' hpre

theorem nextWord_cons_of_some {c : α} (h : wordAt words (c :: u) = some w) :
    nextWord words (c :: u) = some (⟨[], w⟩, (c :: u).drop w.length) := by
  rw [nextWord, h]

theorem nextWord_cons_of_none {c : α} (h : wordAt words (c :: u) = none) : nextWord words (c :: u)
    = (nextWord words u).map fun (s, r) => (⟨c :: s.body, s.delimiter⟩, r) := by
  rw [nextWord, h]

theorem nextWord_split (h : nextWord words u = some (s, r)) :
    u = s.text ++ r ∧ s.delimiter ∈ words := by
  induction u generalizing s with
  | nil => cases h
  | cons c u ih =>
      cases hat : wordAt words (c :: u) with
      | some w =>
          rw [nextWord_cons_of_some hat] at h
          obtain ⟨rfl, rfl⟩ := Prod.mk.inj (Option.some.inj h)
          obtain ⟨hw, v, hv⟩ := wordAt_eq_some hat
          rw [← hv, List.drop_left]
          exact ⟨rfl, hw⟩
      | none =>
          rw [nextWord_cons_of_none hat, Option.map_eq_some_iff] at h
          obtain ⟨⟨s', r'⟩, hnext, heq⟩ := h
          obtain ⟨rfl, rfl⟩ := Prod.mk.inj heq
          obtain ⟨rfl, hd⟩ := ih hnext
          exact ⟨rfl, hd⟩

/-- The leftmost word of a text is that of every text that begins with the same segment. -/
theorem nextWord_text (hwords : Delimiting words) (h : nextWord words u = some (s, r))
    (v : List α) : nextWord words (s.text ++ v) = some (s, v) := by
  induction u generalizing s with
  | nil => cases h
  | cons c u ih =>
      cases hat : wordAt words (c :: u) with
      | some w =>
          rw [nextWord_cons_of_some hat] at h
          obtain ⟨rfl, rfl⟩ := Prod.mk.inj (Option.some.inj h)
          obtain ⟨hw, -⟩ := wordAt_eq_some hat
          have hown := wordAt_append hwords hw v
          show nextWord words (w ++ v) = some (⟨[], w⟩, v)
          cases w with
          | nil => exact absurd rfl (hwords.ne_nil _ hw)
          | cons a w =>
              have hfirst := nextWord_cons_of_some (u := w ++ v) hown
              rw [← List.cons_append, List.drop_left] at hfirst
              exact hfirst
      | none =>
          rw [nextWord_cons_of_none hat, Option.map_eq_some_iff] at h
          obtain ⟨⟨s', r'⟩, hnext, heq⟩ := h
          obtain ⟨rfl, rfl⟩ := Prod.mk.inj heq
          obtain ⟨hu, hw⟩ := nextWord_split hnext
          have hnone : wordAt words (c :: (s'.text ++ v)) = none :=
            wordAt_overlap (x := c :: s'.body) hwords hw (List.cons_ne_nil _ _) (hu ▸ hat) v
          show nextWord words (c :: (s'.text ++ v)) = _
          rw [nextWord_cons_of_none hnone, ih hnext]
          rfl

/-- Cut at the leftmost of the words. -/
def Delimiting.splitter (hwords : Delimiting words) : Splitter α where
  next := nextWord words
  split h := (nextWord_split h).imp_right (hwords.ne_nil _)
  text_next h := nextWord_text hwords h

theorem delimiter_mem (hwords : Delimiting words) :
    ∀ s ∈ hwords.splitter.segments u, s.delimiter ∈ words := by
  induction u using hwords.splitter.drain_induction with
  | rest u h =>
      rw [Splitter.segments_of_none h]
      exact fun _ hs => absurd hs List.not_mem_nil
  | segment u s r h ih =>
      rw [Splitter.segments_of_some h]
      exact List.forall_mem_cons.mpr ⟨(nextWord_split h).2, ih⟩

/-- Where none of the words is, none of fewer words is. -/
theorem nextWord_eq_none_of_subset {fewer : List (List α)} (hsub : fewer ⊆ words)
    (h : nextWord words u = none) : nextWord fewer u = none := by
  induction u with
  | nil => rfl
  | cons c u ih =>
      cases hat : wordAt words (c :: u) with
      | some w =>
          rw [nextWord_cons_of_some hat] at h
          cases h
      | none =>
          have hfewer : wordAt fewer (c :: u) = none :=
            wordAt_eq_none.mpr fun w hw => wordAt_eq_none.mp hat w (hsub hw)
          rw [nextWord_cons_of_none hat, Option.map_eq_none_iff] at h
          rw [nextWord_cons_of_none hfewer, ih h]
          rfl

/-- The leftmost of the words is the leftmost of fewer words that it is among. -/
theorem nextWord_of_subset {fewer : List (List α)} (hfewer : Delimiting fewer)
    (hsub : fewer ⊆ words) (h : nextWord words u = some (s, r)) (hmem : s.delimiter ∈ fewer) :
    nextWord fewer u = some (s, r) := by
  induction u generalizing s with
  | nil => cases h
  | cons c u ih =>
      cases hat : wordAt words (c :: u) with
      | some w =>
          rw [nextWord_cons_of_some hat] at h
          obtain ⟨rfl, rfl⟩ := Prod.mk.inj (Option.some.inj h)
          obtain ⟨-, v, hv⟩ := wordAt_eq_some hat
          have hown : wordAt fewer (c :: u) = some w := hv ▸ wordAt_append hfewer hmem v
          exact nextWord_cons_of_some hown
      | none =>
          have hnone : wordAt fewer (c :: u) = none :=
            wordAt_eq_none.mpr fun w hw => wordAt_eq_none.mp hat w (hsub hw)
          rw [nextWord_cons_of_none hat, Option.map_eq_some_iff] at h
          obtain ⟨⟨s', r'⟩, hnext, heq⟩ := h
          obtain ⟨rfl, rfl⟩ := Prod.mk.inj heq
          have hrest := ih hnext hmem
          rw [nextWord_cons_of_none hnone, hrest]
          rfl

/-- Of two sets of words, segments with the same body have the same delimiter. -/
theorem delimiter_eq_of_body {fewer : List (List α)} {s' : Segment α} {r' : List α}
    (hwords : Delimiting words) (hsub : fewer ⊆ words) (h : nextWord words u = some (s, r))
    (h' : nextWord fewer u = some (s', r')) (hbody : s'.body = s.body) :
    s'.delimiter = s.delimiter := by
  obtain ⟨hu, hmem⟩ := nextWord_split h
  obtain ⟨hu', hmem'⟩ := nextWord_split h'
  have hsame : s.delimiter ++ r = s'.delimiter ++ r' := by
    rw [hu, Segment.text, Segment.text, hbody, List.append_assoc, List.append_assoc] at hu'
    exact List.append_cancel_left hu'
  have hfound := wordAt_append hwords hmem r
  rw [hsame, wordAt_append hwords (hsub hmem') r'] at hfound
  exact Option.some.inj hfound

/-- The leftmost word ends no later than any word of the text. -/
theorem nextWord_before (hwords : Delimiting words) (hw : w ∈ words) (x r : List α) :
    ∃ s y, nextWord words (x ++ w ++ r) = some (s, y ++ r) := by
  induction x with
  | nil =>
      have hown := wordAt_append hwords hw r
      cases w with
      | nil => exact absurd rfl (hwords.ne_nil _ hw)
      | cons a w =>
          refine ⟨⟨[], a :: w⟩, [], ?_⟩
          have hfirst := nextWord_cons_of_some (u := w ++ r) hown
          rw [← List.cons_append, List.drop_left] at hfirst
          exact hfirst
  | cons c x ih =>
      cases hat : wordAt words (c :: (x ++ w ++ r)) with
      | none =>
          obtain ⟨s, y, hnext⟩ := ih
          refine ⟨⟨c :: s.body, s.delimiter⟩, y, ?_⟩
          show nextWord words (c :: (x ++ w ++ r)) = _
          rw [nextWord_cons_of_none hat, hnext]
          rfl
      | some w' =>
          obtain ⟨hw', hprefix⟩ := wordAt_eq_some hat
          have hle : w'.length ≤ (c :: x ++ w).length := by
            by_contra hlt
            obtain ⟨y, rfl⟩ : c :: x ++ w <+: w' :=
              List.prefix_of_prefix_length_le (List.prefix_append (c :: x ++ w) r) hprefix (by omega)
            -- A word that starts earlier would hold this one inside.
            obtain ⟨w'', hw'', hpre⟩ := hwords.inside w hw _ hw' (c :: x).length
              (by simp only [List.length_append] at hlt ⊢; omega) (by simp)
              (by rw [List.append_assoc, List.drop_left]; exact List.prefix_append w y)
            rw [← List.length_append, List.take_left] at hpre
            rw [hwords.prefixFree _ hw'' _ hw' (hpre.trans (List.prefix_append _ _))] at hpre
            exact hlt hpre.length_le
          refine ⟨⟨[], w'⟩, (c :: x ++ w).drop w'.length, ?_⟩
          show nextWord words (c :: (x ++ w ++ r)) = _
          rw [nextWord_cons_of_some hat, ← List.drop_append_of_le_length hle]
          rfl

/-- Fewer words cut a text, or what is behind a part of it, into no more segments. -/
theorem length_segments_le {fewer : List (List α)} (hfewer : Delimiting fewer)
    (hwords : Delimiting words) (hsub : fewer ⊆ words) (x u : List α) :
    (hfewer.splitter.segments u).length ≤ (hwords.splitter.segments (x ++ u)).length := by
  induction u using hfewer.splitter.drain_induction generalizing x with
  | rest u h =>
      rw [Splitter.segments_of_none h]
      exact Nat.zero_le _
  | segment u s r h ih =>
      obtain ⟨hu, hdelimiter⟩ := nextWord_split h
      obtain ⟨s', y, hnext⟩ := nextWord_before hwords (hsub hdelimiter) (x ++ s.body) r
      have hcut : hwords.splitter.next (x ++ u) = some (s', y ++ r) := by
        rw [hu, Segment.text, ← List.append_assoc, ← List.append_assoc]
        exact hnext
      rw [Splitter.segments_of_some h, Splitter.segments_of_some hcut, List.length_cons,
        List.length_cons]
      exact Nat.succ_le_succ (ih y)

end Words

end GhcpConsole
