import Mathlib.Logic.Relation

/-!
# Event machines

A machine is in a state and takes one event after the other; `step s e` is the state after the event
`e`, none where `e` cannot happen. Nothing orders the events but this: a property of every reachable
state is one of every interleaving.
-/

namespace GhcpConsole

/-- `s'` is reached from `s` by some sequence of events. -/
def Reaches {σ ε : Type} (step : σ → ε → Option σ) : σ → σ → Prop :=
  Relation.ReflTransGen fun s s' => ∃ e, step s e = some s'

namespace Reaches

variable {σ ε : Type} {step : σ → ε → Option σ} {s s' s'' : σ}

theorem refl (s : σ) : Reaches step s s := Relation.ReflTransGen.refl

/-- What every event keeps holds in every state reached. -/
theorem invariant {I : σ → Prop} (h : Reaches step s s') (hs : I s)
    (hstep : ∀ s e s', I s → step s e = some s' → I s') : I s' := by
  induction h with
  | refl => exact hs
  | tail _ he ih =>
      obtain ⟨e, he⟩ := he
      exact hstep _ _ _ ih he

/-- A sequence of events, each taken where it can happen. -/
theorem of_foldlM {l : List ε} (h : l.foldlM step s = some s') : Reaches step s s' := by
  induction l generalizing s with
  | nil =>
      obtain rfl : s = s' := by simpa using h
      exact refl s
  | cons e l ih =>
      obtain ⟨s₁, hfirst, hrest⟩ := Option.bind_eq_some_iff.mp (by simpa using h)
      exact Relation.ReflTransGen.head ⟨e, hfirst⟩ (ih hrest)

end Reaches

/-- What each event of a run keeps holds after the run. -/
theorem foldlM_invariant {σ ε : Type} {step : σ → ε → Option σ} {s s' : σ} {I : σ → Prop} {l : List ε}
    (h : l.foldlM step s = some s') (hs : I s)
    (hstep : ∀ e ∈ l, ∀ s s', I s → step s e = some s' → I s') : I s' := by
  induction l generalizing s with
  | nil =>
      obtain rfl : s = s' := by simpa using h
      exact hs
  | cons e l ih =>
      obtain ⟨s₁, hfirst, hrest⟩ := Option.bind_eq_some_iff.mp (by simpa using h)
      exact ih hrest (hstep e List.mem_cons_self s s₁ hs hfirst)
        fun e' he' => hstep e' (List.mem_cons_of_mem e he')

end GhcpConsole
