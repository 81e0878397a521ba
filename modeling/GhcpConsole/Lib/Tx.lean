import Mathlib.Data.List.Forall2
import Mathlib.Logic.Relation

/-!
# Transactional state programs

A program over a state `σ` either returns a value or throws an error, and the state it has
reached survives the throw. Undoing it is the business of `Tx.transaction`, which puts the
recoverable part of the old state back: a nested transaction is a savepoint, an outermost one
is the whole unit of work.

What is proved about programs here is compositional. `Tx.Commutes f m` says that `m` does the same
from a state that `f` has changed, and `Tx.Traces r m` that every run of `m`, successful or not,
moves the state along a chain of `r`-steps. A guarded statement of the program, with the reads its
guard rests on, is one `r`-step; everything else about a program follows from what one step does.
Results of programs are read off the run equations, which are simp lemmas.
-/

namespace GhcpConsole

theorem except_bind_eq_ok {ε α β : Type} {x : Except ε α} {f : α → Except ε β} {b : β} :
    x >>= f = .ok b ↔ ∃ a, x = .ok a ∧ f a = .ok b := by
  cases x with
  | error e => simp [bind, Except.bind]
  | ok a => simp [bind, Except.bind]

theorem except_map_eq_ok {ε α β : Type} {x : Except ε α} {f : α → β} {b : β} :
    x.map f = .ok b ↔ ∃ a, x = .ok a ∧ f a = b := by
  cases x <;> simp [Except.map]

/-- A list is mapped where every element is. -/
theorem except_mapM_eq_ok {ε α β : Type} {f : α → Except ε β} {l : List α} {mapped : List β} :
    l.mapM f = .ok mapped ↔ List.Forall₂ (fun a b => f a = .ok b) l mapped := by
  induction l generalizing mapped with
  | nil => cases mapped <;> simp [pure, Except.pure]
  | cons a l ih =>
      rw [List.mapM_cons, except_bind_eq_ok]
      constructor
      · rintro ⟨b, first, h⟩
        obtain ⟨others, rest, h⟩ := except_bind_eq_ok.mp h
        cases h
        exact .cons first (ih.mp rest)
      · rintro (_ | ⟨first, rest⟩)
        exact ⟨_, first, except_bind_eq_ok.mpr ⟨_, ih.mpr rest, rfl⟩⟩

/-- A program over `σ` that returns an `α` or throws an `ε`; the state survives a throw. -/
def Tx (σ ε α : Type) : Type := σ → Except ε α × σ

namespace Tx

variable {σ ε α β : Type}

instance : Monad (Tx σ ε) where
  pure a := fun s => (.ok a, s)
  bind m f := fun s =>
    match m s with
    | (.ok a, s') => f a s'
    | (.error e, s') => (.error e, s')

/-- Stop with an error; the state stays as it is. -/
def raise (e : ε) : Tx σ ε α := fun s => (.error e, s)

/-- Read a value off the state. -/
def read (f : σ → α) : Tx σ ε α := fun s => (.ok (f s), s)

/-- Replace the state. -/
def write (f : σ → σ) : Tx σ ε Unit := fun s => (.ok (), f s)

/-- Run `m` as one unit: a throw puts `restore old new` in place of the state reached. -/
def transaction (restore : σ → σ → σ) (m : Tx σ ε α) : Tx σ ε α := fun s =>
  match m s with
  | (.ok a, s') => (.ok a, s')
  | (.error e, s') => (.error e, restore s s')

/-- `try { return m } catch (e) { if (caught e) return e; throw e }`. -/
def tryReturn (caught : ε → Bool) (m : Tx σ ε α) : Tx σ ε (Except ε α) := fun s =>
  match m s with
  | (.ok a, s') => (.ok (.ok a), s')
  | (.error e, s') => if caught e then (.ok (.error e), s') else (.error e, s')

/-- Rethrow an error that was caught and returned as a value. -/
def rethrow : Except ε α → Tx σ ε α
  | .ok a => pure a
  | .error e => raise e

/-! ## Run equations -/

@[simp] theorem pure_run (a : α) (s : σ) : (pure a : Tx σ ε α) s = (.ok a, s) := rfl

@[simp] theorem raise_run (e : ε) (s : σ) : (raise e : Tx σ ε α) s = (.error e, s) := rfl

@[simp] theorem read_run (f : σ → α) (s : σ) : (read f : Tx σ ε α) s = (.ok (f s), s) := rfl

@[simp] theorem write_run (f : σ → σ) (s : σ) : (write f : Tx σ ε Unit) s = (.ok (), f s) := rfl

theorem bind_run (m : Tx σ ε α) (f : α → Tx σ ε β) (s : σ) :
    (m >>= f) s = match m s with
      | (.ok a, s') => f a s'
      | (.error e, s') => (.error e, s') := rfl

theorem bind_ok {m : Tx σ ε α} {f : α → Tx σ ε β} {s s' : σ} {a : α} (h : m s = (.ok a, s')) :
    (m >>= f) s = f a s' := by
  rw [bind_run, h]

theorem bind_error {m : Tx σ ε α} {f : α → Tx σ ε β} {s s' : σ} {e : ε}
    (h : m s = (.error e, s')) : (m >>= f) s = (.error e, s') := by
  rw [bind_run, h]

/-- A successful sequence is a successful first half followed by a successful second half. -/
theorem bind_eq_ok {m : Tx σ ε α} {f : α → Tx σ ε β} {s s' : σ} {b : β} :
    (m >>= f) s = (.ok b, s') ↔ ∃ a s1, m s = (.ok a, s1) ∧ f a s1 = (.ok b, s') := by
  rw [bind_run]
  rcases hm : m s with ⟨r, s1⟩
  cases r with
  | ok a =>
      refine ⟨fun h => ⟨a, s1, rfl, h⟩, ?_⟩
      rintro ⟨a', s1', heq, h⟩
      obtain ⟨rfl, rfl⟩ := by simpa using heq
      exact h
  | error e => simp

theorem transaction_eq_ok {restore : σ → σ → σ} {m : Tx σ ε α} {s s' : σ} {a : α} :
    transaction restore m s = (.ok a, s') ↔ m s = (.ok a, s') := by
  rw [transaction]
  rcases hm : m s with ⟨_ | _, _⟩ <;> simp

theorem transaction_eq_error {restore : σ → σ → σ} {m : Tx σ ε α} {s s' : σ} {e : ε}
    (h : transaction restore m s = (.error e, s')) :
    ∃ s1, m s = (.error e, s1) ∧ s' = restore s s1 := by
  rw [transaction] at h
  rcases hm : m s with ⟨_ | _, s1⟩ <;> simp [hm] at h
  exact ⟨s1, by rw [h.1], h.2.symm⟩

/-- An invariant that relates the rest of the list to the state holds at the end of a loop that
does not throw. -/
theorem forM_eq_ok {f : α → Tx σ ε PUnit} (I : List α → σ → Prop)
    (hstep : ∀ a l s s', I (a :: l) s → f a s = (.ok ⟨⟩, s') → I l s') :
    ∀ {l : List α} {s s' : σ}, I l s → l.forM f s = (.ok ⟨⟩, s') → I [] s'
  | [], _, _, h, hrun => by
      obtain ⟨-, rfl⟩ := by simpa using hrun
      exact h
  | a :: l, s, _, h, hrun => by
      obtain ⟨⟨⟩, s₁, hfirst, hrest⟩ := bind_eq_ok.mp (by simpa using hrun)
      exact forM_eq_ok I hstep (hstep a l s s₁ h hfirst) hrest

/-- A loop whose rounds never throw does not throw. -/
theorem forM_total {f : α → Tx σ ε PUnit} (hf : ∀ a s, ∃ s', f a s = (.ok ⟨⟩, s')) :
    ∀ (l : List α) (s : σ), ∃ s', l.forM f s = (.ok ⟨⟩, s')
  | [], s => ⟨s, rfl⟩
  | a :: l, s => by
      obtain ⟨s₁, hfirst⟩ := hf a s
      obtain ⟨s₂, hrest⟩ := forM_total hf l s₁
      exact ⟨s₂, (bind_ok hfirst).trans hrest⟩

/-- A loop over two lists is the loop over the first and then the loop over the second. -/
theorem forM_append_eq_ok {f : α → Tx σ ε PUnit} {l' : List α} {s' : σ} :
    ∀ {l : List α} {s : σ}, (l ++ l').forM f s = (.ok ⟨⟩, s') ↔
      ∃ s₁, l.forM f s = (.ok ⟨⟩, s₁) ∧ l'.forM f s₁ = (.ok ⟨⟩, s')
  | [], s => ⟨fun h => ⟨s, rfl, h⟩, by rintro ⟨_, ⟨⟩, h⟩; exact h⟩
  | a :: l, s => by
      constructor
      · intro h
        obtain ⟨⟨⟩, s₁, hfirst, hrest⟩ := bind_eq_ok.mp h
        obtain ⟨s₂, hleft, hright⟩ := forM_append_eq_ok.mp hrest
        exact ⟨s₂, bind_eq_ok.mpr ⟨⟨⟩, s₁, hfirst, hleft⟩, hright⟩
      · rintro ⟨s₂, hleft, hright⟩
        obtain ⟨⟨⟩, s₁, hfirst, hrest⟩ := bind_eq_ok.mp hleft
        exact bind_eq_ok.mpr ⟨⟨⟩, s₁, hfirst, forM_append_eq_ok.mpr ⟨s₂, hrest, hright⟩⟩

/-! ## Traces -/

/-- Running `m` from `s` ends at the end of a chain of `r`-steps from `s₀`. Here `s` is `s₀` but
for what reads have changed: the next `r`-step covers them too. -/
def Via (r : σ → σ → Prop) (s₀ : σ) (m : Tx σ ε α) (s : σ) : Prop :=
  Relation.ReflTransGen r s₀ (m s).2

/-- Every run of `m` moves the state along a chain of `r`-steps, whether it returns or throws. -/
def Traces (r : σ → σ → Prop) (m : Tx σ ε α) : Prop := ∀ s, Via r s m s

variable {r : σ → σ → Prop} {s₀ s : σ}

theorem Via.pure (a : α) (h : r s₀ s) : Via r s₀ (Pure.pure a : Tx σ ε α) s := .single h

/-- After a first half, the chain goes on from the state that half has reached. -/
theorem Via.bind {m : Tx σ ε α} {f : α → Tx σ ε β} (hm : Via r s₀ m s)
    (hf : ∀ a s', m s = (.ok a, s') → Via r s' (f a) s') : Via r s₀ (m >>= f) s := by
  unfold Via at *
  rw [bind_run]
  rcases hms : m s with ⟨_ | a, s'⟩
  · rw [hms] at hm
    exact hm
  · rw [hms] at hm
    exact hm.trans (hf a s' hms)

theorem Via.bind_assoc {γ : Type} {m : Tx σ ε α} {f : α → Tx σ ε β} {k : β → Tx σ ε γ} :
    Via r s₀ (m >>= f >>= k) s ↔ Via r s₀ (m >>= fun a => f a >>= k) s := by
  unfold Via
  simp only [bind_run]
  rcases m s with ⟨_ | a, s'⟩ <;> rfl

theorem Via.write {f : σ → σ} (h : r s₀ (f s)) : Via r s₀ (Tx.write f : Tx σ ε Unit) s :=
  .single h

theorem Via.tryReturn {caught : ε → Bool} {m : Tx σ ε α} (hm : Via r s₀ m s) :
    Via r s₀ (Tx.tryReturn caught m) s := by
  unfold Via at *
  rw [Tx.tryReturn]
  rcases hms : m s with ⟨e | a, s'⟩ <;> rw [hms] at hm
  · dsimp only
    split <;> exact hm
  · exact hm

/-- Rolling back is one step when it can stand for the whole chain it undoes. -/
theorem Via.transaction {restore : σ → σ → σ} {m : Tx σ ε α} (hm : Via r s₀ m s)
    (hundo : ∀ s', Relation.ReflTransGen r s₀ s' → r s₀ (restore s s')) :
    Via r s₀ (Tx.transaction restore m) s := by
  unfold Via at *
  rw [Tx.transaction]
  rcases hms : m s with ⟨e | a, s'⟩ <;> rw [hms] at hm
  · exact .single (hundo s' hm)
  · exact hm

/-- A loop keeps an invariant that relates the rest of the list to the state. -/
theorem Via.forM {f : α → Tx σ ε PUnit} (I : List α → σ → Prop)
    (hf : ∀ a l s, I (a :: l) s → Via r s (f a) s)
    (hI : ∀ a l s s', I (a :: l) s → f a s = (.ok ⟨⟩, s') → I l s') :
    ∀ (l : List α) (s : σ), I l s → Via r s (l.forM f) s
  | [], _, _ => .refl
  | a :: l, s, h =>
      .bind (hf a l s h) fun _ s' hs => Via.forM I hf hI l s' (hI a l s s' h hs)

/-! ## What a program leaves alone -/

section Keeps

variable {γ : Type} {f : σ → γ}

/-- `f` of the state is the same before and after, whether the program returns or throws. -/
def Keeps (f : σ → γ) (m : Tx σ ε α) : Prop := ∀ s, f (m s).2 = f s

theorem Keeps.pure (a : α) : Keeps f (Pure.pure a : Tx σ ε α) := fun _ => rfl

theorem Keeps.bind {m : Tx σ ε α} {k : α → Tx σ ε β} (hm : Keeps f m) (hk : ∀ a, Keeps f (k a)) :
    Keeps f (m >>= k) := by
  intro s
  have hs := hm s
  rw [bind_run]
  rcases hms : m s with ⟨_ | a, s'⟩
  · rw [hms] at hs
    exact hs
  · rw [hms] at hs
    exact (hk a s').trans hs

theorem Keeps.transaction {restore : σ → σ → σ} {m : Tx σ ε α} (hm : Keeps f m)
    (hrestore : ∀ s s', f (restore s s') = f s') : Keeps f (Tx.transaction restore m) := by
  intro s
  have hs := hm s
  rw [Tx.transaction]
  rcases hms : m s with ⟨_ | a, s'⟩
  · rw [hms] at hs
    exact (hrestore s s').trans hs
  · rw [hms] at hs
    exact hs

theorem Keeps.forM {k : α → Tx σ ε PUnit} (hk : ∀ a, Keeps f (k a)) :
    ∀ l : List α, Keeps f (l.forM k)
  | [] => .pure _
  | a :: l => .bind (hk a) fun _ => Keeps.forM hk l

end Keeps

/-! ## Programs that commute with a change of the state -/

section Commutes

variable {f : σ → σ}

/-- From the changed state the program has the same result, and reaches what it reached, changed. -/
def Commutes (f : σ → σ) (m : Tx σ ε α) : Prop := ∀ s, m (f s) = ((m s).1, f (m s).2)

theorem Commutes.pure (a : α) : Commutes f (Pure.pure a : Tx σ ε α) := fun _ => rfl

theorem Commutes.raise (e : ε) : Commutes f (Tx.raise e : Tx σ ε α) := fun _ => rfl

theorem Commutes.read {q : σ → α} (h : ∀ s, q (f s) = q s) : Commutes f (Tx.read q : Tx σ ε α) := by
  intro s
  rw [read_run, read_run, h]

theorem Commutes.write {g : σ → σ} (h : ∀ s, g (f s) = f (g s)) :
    Commutes f (Tx.write g : Tx σ ε Unit) := by
  intro s
  rw [write_run, write_run, h]

theorem Commutes.bind {m : Tx σ ε α} {k : α → Tx σ ε β} (hm : Commutes f m)
    (hk : ∀ a, Commutes f (k a)) : Commutes f (m >>= k) := by
  intro s
  rw [bind_run, bind_run, hm s]
  rcases m s with ⟨_ | a, s'⟩
  · rfl
  · exact hk a s'

theorem Commutes.transaction {restore : σ → σ → σ} {m : Tx σ ε α} (hm : Commutes f m)
    (hrestore : ∀ s s', restore (f s) (f s') = f (restore s s')) :
    Commutes f (Tx.transaction restore m) := by
  intro s
  rw [Tx.transaction, Tx.transaction, hm s]
  rcases m s with ⟨e | a, s'⟩
  · exact congrArg (Prod.mk _) (hrestore s s')
  · rfl

theorem Commutes.tryReturn {caught : ε → Bool} {m : Tx σ ε α} (hm : Commutes f m) :
    Commutes f (Tx.tryReturn caught m) := by
  intro s
  rw [Tx.tryReturn, Tx.tryReturn, hm s]
  rcases m s with ⟨e | a, s'⟩
  · dsimp only
    split <;> rfl
  · rfl

theorem Commutes.forM {k : α → Tx σ ε PUnit} :
    ∀ {l : List α}, (∀ a ∈ l, Commutes f (k a)) → Commutes f (l.forM k)
  | [], _ => .pure _
  | _ :: _, hk => .bind (hk _ (.head _)) fun _ => Commutes.forM fun a ha => hk a (.tail _ ha)

end Commutes

end Tx

end GhcpConsole
