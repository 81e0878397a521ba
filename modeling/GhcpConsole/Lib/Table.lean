import Mathlib.Data.List.Forall2
import Mathlib.Data.List.Nodup
import Mathlib.Logic.Relator

/-!
# Tables and bindings

A table is a list of rows, a unique constraint on it says that a key of its rows has no duplicates
(`Keyed`). Deleting rows and rewriting rows in place keep a key; so does appending a row whose key
is new.

A binding of `α` to `β` is exclusive when it is a partial injection, Mathlib's `Relator.BiUnique`.
It stays one when pairs go away, and when a pair is added that was there already or whose two ends
are both free.
-/

namespace GhcpConsole

/-! ## Keys -/

section Keyed

variable {α κ : Type} {key : α → κ} {rows : List α}

/-- No two rows share the key. -/
def Keyed (key : α → κ) (rows : List α) : Prop := (rows.map key).Nodup

instance [DecidableEq κ] : Decidable (Keyed key rows) :=
  inferInstanceAs (Decidable (rows.map key).Nodup)

theorem Keyed.nil : Keyed key [] := List.nodup_nil

theorem Keyed.eq (h : Keyed key rows) {a b : α} (ha : a ∈ rows) (hb : b ∈ rows)
    (hkey : key a = key b) : a = b :=
  List.inj_on_of_nodup_map h ha hb hkey

theorem Keyed.filter (h : Keyed key rows) (p : α → Bool) : Keyed key (rows.filter p) :=
  h.sublist (List.filter_sublist.map key)

theorem Keyed.map (h : Keyed key rows) {f : α → α} (hf : ∀ a, key (f a) = key a) :
    Keyed key (rows.map f) := by
  unfold Keyed at *
  rwa [List.map_map, show key ∘ f = key from funext hf]

theorem Keyed.append (h : Keyed key rows) {row : α} (hfresh : ∀ a ∈ rows, key a ≠ key row) :
    Keyed key (rows ++ [row]) := by
  unfold Keyed at *
  rw [List.map_append, List.nodup_append]
  refine ⟨h, by simp, ?_⟩
  intro k hk k' hk'
  obtain ⟨a, ha, rfl⟩ := List.mem_map.mp hk
  obtain rfl : k' = key row := by simpa using hk'
  exact hfresh a ha

theorem Keyed.sublist (h : Keyed key rows) {rows' : List α} (hsub : rows'.Sublist rows) :
    Keyed key rows' :=
  List.Nodup.sublist (hsub.map key) h

variable [DecidableEq κ]

/-- The first row of a key is its only one. -/
theorem Keyed.mem_eraseP (h : Keyed key rows) {a : α} {k : κ} :
    a ∈ rows.eraseP (key · == k) ↔ a ∈ rows ∧ key a ≠ k := by
  refine ⟨fun ha => ⟨List.mem_of_mem_eraseP ha, ?_⟩, ?_⟩
  · rintro rfl
    have hmem := List.mem_of_mem_eraseP ha
    obtain ⟨b, l₁, l₂, hl₁, hb, heq, herase⟩ :=
      List.exists_of_eraseP (p := (key · == key a)) hmem (by simp)
    rw [herase] at ha
    have hkeys : (rows.map key).Nodup := h
    rw [heq, List.map_append, List.map_cons] at hkeys
    rcases List.mem_append.mp ha with hleft | hright
    · exact hl₁ a hleft (by simp)
    · refine (List.nodup_cons.mp (List.nodup_append.mp hkeys).2.1).1 ?_
      rw [show key b = key a by simpa using hb]
      exact List.mem_map_of_mem hright
  · rintro ⟨ha, hne⟩
    exact (List.mem_eraseP_of_neg (by simpa using hne)).mpr ha

theorem Keyed.find? (h : Keyed key rows) {a : α} (ha : a ∈ rows) :
    rows.find? (fun b => key b = key a) = some a := by
  rcases hfind : rows.find? (fun b => key b = key a) with _ | b
  · have := List.find?_eq_none.mp hfind a ha
    simp at this
  · have hkey : key b = key a := by simpa using List.find?_some hfind
    rw [h.eq (List.mem_of_find?_eq_some hfind) ha hkey]

theorem find?_key_isSome {k : κ} :
    (rows.find? fun b => key b = k).isSome ↔ ∃ a ∈ rows, key a = k := by
  simp

/-- Rewriting rows without touching the key rewrites the row that is found. -/
theorem find?_map {f : α → α} (hf : ∀ a, key (f a) = key a) (k : κ) :
    (rows.map f).find? (fun b => key b = k) = (rows.find? fun b => key b = k).map f := by
  rw [List.find?_map]
  congr 2
  funext a
  simp [hf]

end Keyed

/-! ## Bindings -/

section Binding

variable {α β : Type} {R S : α → β → Prop}

theorem biUnique_mono (h : Relator.BiUnique R) (hsub : ∀ a b, S a b → R a b) :
    Relator.BiUnique S :=
  ⟨fun _ _ _ h₁ h₂ => h.1 (hsub _ _ h₁) (hsub _ _ h₂),
    fun _ _ _ h₁ h₂ => h.2 (hsub _ _ h₁) (hsub _ _ h₂)⟩

/-- Adding a pair that is there, or whose ends are both free, keeps a binding exclusive. -/
theorem biUnique_insert (h : Relator.BiUnique R) {a : α} {b : β}
    (hab : R a b ∨ ((∀ y, ¬R a y) ∧ ∀ x, ¬R x b))
    (hsub : ∀ x y, S x y → R x y ∨ (x = a ∧ y = b)) : Relator.BiUnique S := by
  rcases hab with hab | ⟨hleft, hright⟩
  · refine biUnique_mono h fun x y hxy => ?_
    rcases hsub x y hxy with hR | ⟨rfl, rfl⟩
    · exact hR
    · exact hab
  · constructor
    · intro x x' y h₁ h₂
      rcases hsub _ _ h₁ with h₁ | ⟨rfl, rfl⟩ <;> rcases hsub _ _ h₂ with h₂ | ⟨rfl, h₂⟩
      · exact h.1 h₁ h₂
      · exact absurd h₁ (h₂ ▸ hright x)
      · exact absurd h₂ (hright _)
      · rfl
    · intro x y y' h₁ h₂
      rcases hsub _ _ h₁ with h₁ | ⟨rfl, rfl⟩ <;> rcases hsub _ _ h₂ with h₂ | ⟨h₂, rfl⟩
      · exact h.2 h₁ h₂
      · exact absurd h₁ (h₂ ▸ hleft y)
      · exact absurd h₂ (hleft _)
      · rfl

end Binding

/-! ## Rows side by side -/

theorem forall₂_mem_left {α β : Type} {R : α → β → Prop} {l : List α} {r : List β} {a : α}
    (h : List.Forall₂ R l r) (ha : a ∈ l) : ∃ b ∈ r, R a b := by
  induction h with
  | nil => exact absurd ha List.not_mem_nil
  | cons hab _ ih =>
      rcases List.mem_cons.mp ha with rfl | ha
      · exact ⟨_, List.mem_cons_self, hab⟩
      · obtain ⟨b, hb, hab⟩ := ih ha
        exact ⟨b, List.mem_cons_of_mem _ hb, hab⟩

theorem forall₂_mem_right {α β : Type} {R : α → β → Prop} {l : List α} {r : List β} {b : β}
    (h : List.Forall₂ R l r) (hb : b ∈ r) : ∃ a ∈ l, R a b :=
  forall₂_mem_left (R := fun b a => R a b) h.flip hb

end GhcpConsole
