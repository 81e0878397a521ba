import Mathlib.Init

/-!
# Programs over effects

A program performs effects one after the other, and the answer to each decides how it goes on.
Nothing is said about what an effect does: a property that holds for all answers holds under every
environment, with other programs in between, lost replies and services that answer anything.
-/

namespace GhcpConsole

/-- A program that returns an `α` or throws an `ε`; an effect `e` is answered by an `R e`. -/
inductive Prog (E : Type) (R : E → Type) (ε α : Type) : Type
  | done (a : α)
  | fail (e : ε)
  | perform (e : E) (next : R e → Prog E R ε α)

namespace Prog

variable {E : Type} {R : E → Type} {ε α β : Type}

protected def bind : Prog E R ε α → (α → Prog E R ε β) → Prog E R ε β
  | .done a, f => f a
  | .fail e, _ => .fail e
  | .perform e next, f => .perform e fun r => (next r).bind f

instance : Monad (Prog E R ε) where
  pure := .done
  bind := Prog.bind

private theorem bind_done (p : Prog E R ε α) : p.bind .done = p := by
  induction p with
  | done a => rfl
  | fail e => rfl
  | perform e next ih => simp only [Prog.bind, ih]

instance : LawfulMonad (Prog E R ε) := LawfulMonad.mk' _ bind_done (fun _ _ => rfl) <| by
  intro α β γ p f g
  change (Prog.bind p f).bind g = p.bind fun a => (f a).bind g
  induction p with
  | done a => rfl
  | fail e => rfl
  | perform e next ih => simp only [Prog.bind, ih]

def throw (e : ε) : Prog E R ε α := .fail e

/-- One effect, and its answer. -/
def call (e : E) : Prog E R ε (R e) := .perform e .done

/-! ## Runs in a shared state -/

section
variable {σ : Type} (perform : (e : E) → σ → R e × σ)

/-- A run in a state that others move as well: before each effect, by the next of `moves`. -/
def run : Prog E R ε α → List (σ → σ) → σ → Except ε α × σ
  | .done a, _, s => (.ok a, s)
  | .fail e, _, s => (.error e, s)
  | .perform e next, moves, s =>
      let answer := perform e (moves.headD id s)
      (next answer.1).run moves.tail answer.2

theorem run_pure (a : α) (moves : List (σ → σ)) (s : σ) :
    (pure a : Prog E R ε α).run perform moves s = (.ok a, s) := rfl

theorem run_throw (e : ε) (moves : List (σ → σ)) (s : σ) :
    (throw e : Prog E R ε α).run perform moves s = (.error e, s) := rfl

theorem run_call_bind (e : E) (f : R e → Prog E R ε α) (moves : List (σ → σ)) (s : σ) :
    (call e >>= f).run perform moves s
      = (f (perform e (moves.headD id s)).1).run perform moves.tail
          (perform e (moves.headD id s)).2 := rfl

end

end Prog

end GhcpConsole
