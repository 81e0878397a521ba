import GhcpConsole.Lib.Deciding

/-!
# Lower case

`String.prototype.toLowerCase` maps the whole of Unicode. What is said of it here is how it treats
ASCII characters.
-/

namespace GhcpConsole

structure LowerCase where
  toLowerCase : List Char → List Char
  ascii : ∀ text, (∀ c ∈ text, c.toNat < 128) → toLowerCase text = text.map Char.toLower
  inPlace : ∀ before c after, c.toNat < 128 → ∃ before' after',
    toLowerCase (before ++ c :: after) = before' ++ c.toLower :: after' ∧
      ('@' ∈ before' → '@' ∈ before)

theorem toLower_eq_at {c : Char} (h : c.toLower = '@') : c = '@' := by
  delta Char.toLower at h
  split at h
  · rename_i upper
    have value := congrArg (fun d : Char => d.val.toNat) h
    have low : 65 ≤ c.toNat := UInt32.le_iff_toNat_le.mp upper.1
    have high : c.toNat ≤ 90 := UInt32.le_iff_toNat_le.mp upper.2
    simp [UInt32.toNat_add] at value
    omega
  · exact h

/-- `toLowerCase` on ASCII texts. -/
def asciiLetters : LowerCase where
  toLowerCase := List.map Char.toLower
  ascii := fun _ _ => rfl
  inPlace := fun before c after _ => by
    refine ⟨before.map Char.toLower, after.map Char.toLower, by simp, fun mem => ?_⟩
    obtain ⟨d, mem, same⟩ := List.mem_map.mp mem
    exact toLower_eq_at same ▸ mem

end GhcpConsole
