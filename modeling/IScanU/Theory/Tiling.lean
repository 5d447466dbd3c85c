import Mathlib.Data.List.Basic

/-! # Intervals laid end to end

`Tiles a b ivs`: the intervals of `ivs` are non-empty, each starts right after the one before, the
first starts at `a` and the last ends at `b`. Such a list is a partition of `[a, b]`. -/

/-- The intervals of the list, both ends included, cover `[a, b]` from left to right. -/
inductive Tiles : Nat → Nat → List (Nat × Nat) → Prop where
  | last : a ≤ b → Tiles a b [(a, b)]
  | cons : a ≤ m → Tiles (m + 1) b ivs → Tiles a b ((a, m) :: ivs)

namespace Tiles

theorem le (h : Tiles a b ivs) : a ≤ b := by
  induction h with
  | last h => exact h
  | cons h _ ih => omega

theorem ne_nil (h : Tiles a b ivs) : ivs ≠ [] := by
  cases h <;> simp

theorem nonempty (h : Tiles a b ivs) : ∀ iv ∈ ivs, iv.1 ≤ iv.2 := by
  induction h with
  | last h => simpa using h
  | cons h _ ih => exact List.forall_mem_cons.mpr ⟨h, ih⟩

/-- The intervals cover exactly `[a, b]`. -/
theorem covers (h : Tiles a b ivs) (x : Nat) : (∃ iv ∈ ivs, iv.1 ≤ x ∧ x ≤ iv.2) ↔ a ≤ x ∧ x ≤ b := by
  induction h with
  | last _ => simp
  | cons hm hrest ih =>
    have := hrest.le
    simp only [List.exists_mem_cons_iff, ih]
    omega

/-- No two intervals overlap. -/
theorem disjoint (h : Tiles a b ivs) : ivs.Pairwise fun iv iv' => iv.2 < iv'.1 := by
  induction h with
  | last _ => simp
  | cons hm hrest ih =>
    refine List.pairwise_cons.mpr ⟨fun iv hiv => ?_, ih⟩
    have hle := hrest.nonempty iv hiv
    have hcov := (hrest.covers iv.1).mp ⟨iv, hiv, Nat.le_refl _, hle⟩
    exact hcov.1

/-- The only end of an interval within one of the intervals is its own. -/
theorem end_eq (h : Tiles a b ivs) (hiv : iv ∈ ivs) (hiv' : iv' ∈ ivs)
    (hx : iv.1 ≤ iv'.2 ∧ iv'.2 ≤ iv.2) : iv'.2 = iv.2 := by
  induction h with
  | last _ => rw [List.mem_singleton.1 hiv, List.mem_singleton.1 hiv']
  | @cons a m b ivs hm hrest ih =>
    have hlater : ∀ jv ∈ ivs, m < jv.1 ∧ jv.1 ≤ jv.2 := fun jv hjv =>
      ⟨((hrest.covers jv.1).1 ⟨jv, hjv, Nat.le_refl _, hrest.nonempty jv hjv⟩).1,
        hrest.nonempty jv hjv⟩
    rcases List.mem_cons.1 hiv with rfl | hiv <;> rcases List.mem_cons.1 hiv' with rfl | hiv'
    · rfl
    · have := hlater iv' hiv'
      simp only at hx
      omega
    · have := hlater iv hiv
      simp only at hx
      omega
    · exact ih hiv hiv'

end Tiles
