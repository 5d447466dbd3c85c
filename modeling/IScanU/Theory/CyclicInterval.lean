import Mathlib.Data.BitVec
import Mathlib.Data.List.Basic
import Mathlib.Tactic.Ring

/-! # Intervals of machine words walked with wrap-around

`icc a b` lists the words a counter meets when it is incremented from `a` until it equals `b`;
`ioc a b` leaves out `a` itself. A loop that stops only on equality with `b` walks exactly such a
list whatever the order of `a` and `b`, and when `a ≤ b` it is the usual interval in increasing
order. -/

namespace Cyclic

/-- The words met when walking up from `a` to `b`, both included. -/
def icc (a b : BitVec n) : List (BitVec n) :=
  (List.range ((b - a).toNat + 1)).map fun k => a + BitVec.ofNat n k

/-- The words met when walking up from `a` to `b`, without `a`. -/
def ioc (a b : BitVec n) : List (BitVec n) := (icc a b).tail

/-! ## Distances -/

theorem lt_of_le_of_ne {a b : BitVec n} (h : a ≤ b) (hne : a ≠ b) : a < b := by
  have : a.toNat ≠ b.toNat := fun e => hne (BitVec.eq_of_toNat_eq e)
  simp only [BitVec.le_def, BitVec.lt_def] at *
  omega

theorem toNat_succ_of_lt {a b : BitVec n} (h : a < b) : (a + 1#n).toNat = a.toNat + 1 := by
  have hb := b.isLt
  rw [BitVec.lt_def] at h
  have hn : 0 < n := by
    rcases Nat.eq_zero_or_pos n with rfl | hn
    · simp at hb; omega
    · exact hn
  rw [BitVec.toNat_add, BitVec.toNat_one hn, Nat.mod_eq_of_lt (by omega)]

theorem succ_le_of_lt {a b : BitVec n} (h : a < b) : a + 1#n ≤ b := by
  rw [BitVec.le_def, toNat_succ_of_lt h]
  exact h

theorem toNat_sub_of_lt {a b : BitVec n} (h : b < a) :
    (b - a).toNat = 2 ^ n - a.toNat + b.toNat := by
  have ha := a.isLt
  rw [BitVec.lt_def] at h
  rw [BitVec.toNat_sub, Nat.mod_eq_of_lt (by omega)]

/-- One step up brings `a` one step nearer to any other word. -/
theorem toNat_sub_succ {a b : BitVec n} (h : a ≠ b) :
    (b - a).toNat = (b - (a + 1#n)).toNat + 1 := by
  have h0 : b - a ≠ 0#n := fun e => h (by rw [← BitVec.sub_add_cancel b a, e, BitVec.zero_add])
  have h1 : b - (a + 1#n) = b - a - 1#n := by ring
  have hpos : 0 < (b - a).toNat := Nat.pos_of_ne_zero fun e => h0 (BitVec.eq_of_toNat_eq (by simp [e]))
  have hn : 0 < n := by
    rcases Nat.eq_zero_or_pos n with rfl | hn
    · exact absurd (Subsingleton.elim a b) h
    · exact hn
  have hle : 1#n ≤ b - a := by rw [BitVec.le_def, BitVec.toNat_one hn]; exact hpos
  rw [h1, BitVec.toNat_sub_of_le hle, BitVec.toNat_one hn]
  omega

/-- Induction on the distance still to walk to `b`. -/
theorem walk_induction {b : BitVec n} {motive : BitVec n → Prop}
    (step : ∀ a, (a ≠ b → motive (a + 1#n)) → motive a) (a : BitVec n) : motive a := by
  induction hd : (b - a).toNat generalizing a with
  | zero =>
    refine step a fun h => ?_
    rw [toNat_sub_succ h] at hd
    exact absurd hd (Nat.succ_ne_zero _)
  | succ d ih =>
    refine step a fun h => ih (a + 1#n) ?_
    rw [toNat_sub_succ h] at hd
    exact Nat.succ.inj hd

/-! ## The lists -/

theorem icc_eq_cons (a b : BitVec n) : icc a b = a :: ioc a b := by
  simp [icc, ioc, List.range_succ_eq_map]

@[simp] theorem ioc_self (a : BitVec n) : ioc a a = [] := by
  simp [ioc, icc]

theorem ioc_of_ne {a b : BitVec n} (h : a ≠ b) : ioc a b = icc (a + 1#n) b := by
  unfold ioc icc
  rw [toNat_sub_succ h, List.range_succ_eq_map, List.map_cons, List.tail_cons, List.map_map]
  refine List.map_congr_left fun k _ => ?_
  rw [Function.comp_apply, Nat.succ_eq_add_one, BitVec.ofNat_add]
  ring

theorem mem_icc {a b x : BitVec n} : x ∈ icc a b ↔ x - a ≤ b - a := by
  simp only [icc, List.mem_map, List.mem_range, BitVec.le_def]
  constructor
  · rintro ⟨k, hk, rfl⟩
    have hle := Nat.mod_le k (2 ^ n)
    rw [BitVec.add_comm, BitVec.add_sub_cancel, BitVec.toNat_ofNat]
    omega
  · intro h
    refine ⟨(x - a).toNat, by omega, ?_⟩
    rw [BitVec.ofNat_toNat, BitVec.setWidth_eq, BitVec.add_comm, BitVec.sub_add_cancel]

theorem not_mem_ioc_self (a b : BitVec n) : a ∉ ioc a b := by
  by_cases h : a = b
  · simp [h]
  · rw [ioc_of_ne h, mem_icc, BitVec.le_def]
    have hlast : a - (a + 1#n) = BitVec.allOnes n := by
      rw [← BitVec.neg_one_eq_allOnes]
      ring
    have hlt := (b - a).isLt
    rw [toNat_sub_succ h] at hlt
    rw [hlast, BitVec.toNat_allOnes]
    omega

theorem mem_icc_of_le {a b x : BitVec n} (h : a ≤ b) : x ∈ icc a b ↔ a ≤ x ∧ x ≤ b := by
  rw [mem_icc, BitVec.le_def, BitVec.toNat_sub_of_le h]
  have hx := x.isLt
  have ha := a.isLt
  have hb := b.isLt
  by_cases hax : a ≤ x
  · rw [BitVec.toNat_sub_of_le hax]
    simp only [BitVec.le_def] at *
    omega
  · have hlt : x < a := BitVec.not_le.mp hax
    rw [toNat_sub_of_lt hlt]
    simp only [BitVec.le_def, BitVec.lt_def] at *
    omega

theorem mem_ioc_of_le {a b x : BitVec n} (h : a ≤ b) : x ∈ ioc a b ↔ a < x ∧ x ≤ b := by
  by_cases hab : a = b
  · subst hab
    refine iff_of_false (by simp) fun hx => ?_
    simp only [BitVec.le_def, BitVec.lt_def] at hx
    omega
  · have hlt := lt_of_le_of_ne h hab
    rw [ioc_of_ne hab, mem_icc_of_le (succ_le_of_lt hlt)]
    simp only [BitVec.le_def, BitVec.lt_def, toNat_succ_of_lt hlt]
    omega

/-- One word more at the end, as long as the interval does not close. -/
theorem ioc_succ {a b : BitVec n} (h : b + 1#n ≠ a) : ioc a (b + 1#n) = ioc a b ++ [b + 1#n] := by
  have hdist : (b + 1#n - a).toNat = (b - a).toNat + 1 := by
    have := toNat_sub_succ (a := -(b + 1#n)) (b := -a) fun e => h (BitVec.neg_inj.1 e)
    have h1 : -a - -(b + 1#n) = b + 1#n - a := by ring
    have h2 : -a - (-(b + 1#n) + 1#n) = b - a := by ring
    rwa [h1, h2] at this
  have hlast : a + BitVec.ofNat n (b + 1#n - a).toNat = b + 1#n := by
    rw [BitVec.ofNat_toNat, BitVec.setWidth_eq, BitVec.add_comm, BitVec.sub_add_cancel]
  have hicc : icc a (b + 1#n) = icc a b ++ [b + 1#n] := by
    rw [icc, List.range_succ, List.map_append, List.map_singleton, hlast, hdist]
    rfl
  rw [ioc, hicc, icc_eq_cons]
  rfl

/-- Without wrap-around the list is strictly increasing. -/
theorem icc_sorted {a b : BitVec n} (h : a ≤ b) : (icc a b).Pairwise (· < ·) := by
  induction a using walk_induction (b := b) with
  | step a ih =>
    rw [icc_eq_cons]
    refine List.pairwise_cons.mpr ⟨fun x hx => ((mem_ioc_of_le h).mp hx).1, ?_⟩
    by_cases hab : a = b
    · simp [hab]
    · rw [ioc_of_ne hab]
      exact ih hab (succ_le_of_lt (lt_of_le_of_ne h hab))

/-- Walking on from the first hit of `p` meets exactly the remaining hits. -/
theorem filter_ioc_of_filter_icc {p : BitVec n → Bool} {a b w : BitVec n} {ws : List (BitVec n)}
    (h : (icc a b).filter p = w :: ws) : p w ∧ (ioc w b).filter p = ws := by
  induction a using walk_induction (b := b) with
  | step a ih =>
    rw [icc_eq_cons, List.filter_cons] at h
    split at h
    · rename_i hp
      obtain ⟨rfl, rfl⟩ := List.cons.inj h
      exact ⟨hp, rfl⟩
    · by_cases hab : a = b
      · subst hab
        simp at h
      · rw [ioc_of_ne hab] at h
        exact ih hab h

theorem filter_ioc_of_filter_ioc {p : BitVec n → Bool} {a b w : BitVec n} {ws : List (BitVec n)}
    (h : (ioc a b).filter p = w :: ws) : p w ∧ (ioc w b).filter p = ws := by
  by_cases hab : a = b
  · subst hab
    simp at h
  · rw [ioc_of_ne hab] at h
    exact filter_ioc_of_filter_icc h

theorem mem_ioc {a b x : BitVec n} : x ∈ ioc a b ↔ 0#n < x - a ∧ x - a ≤ b - a := by
  have hcons : x ∈ icc a b ↔ x = a ∨ x ∈ ioc a b := by
    rw [icc_eq_cons]
    exact List.mem_cons
  rw [← mem_icc, hcons]
  refine ⟨fun h => ⟨?_, .inr h⟩, fun ⟨hpos, h⟩ => h.resolve_left ?_⟩
  · rw [BitVec.lt_def, BitVec.toNat_zero]
    refine Nat.pos_of_ne_zero fun e => not_mem_ioc_self a b ?_
    have : x - a = 0#n := BitVec.eq_of_toNat_eq (by simp [e])
    rwa [← BitVec.sub_add_cancel x a, this, BitVec.zero_add] at h
  · rintro rfl
    simp at hpos

/-- The distance to a word of the interval and that from it to the end. -/
theorem toNat_sub_add_of_mem {a b x : BitVec n} (h : x ∈ ioc a b) :
    (x - a).toNat + (b - x).toNat = (b - a).toNat := by
  have hle := (mem_ioc.1 h).2
  have hsub : b - x = b - a - (x - a) := by ring
  rw [hsub, BitVec.toNat_sub_of_le hle]
  rw [BitVec.le_def] at hle
  omega

theorem last_mem_ioc {a b : BitVec n} (h : a ≠ b) : b ∈ ioc a b := by
  refine mem_ioc.2 ⟨?_, BitVec.le_refl _⟩
  rw [BitVec.lt_def, BitVec.toNat_zero, toNat_sub_succ h]
  exact Nat.succ_pos _

/-- The words are met in the order of their distance from the start. -/
theorem ioc_pairwise {a b : BitVec n} : (ioc a b).Pairwise fun x y => x - a < y - a := by
  suffices h : (icc a b).Pairwise fun x y => x - a < y - a by
    rw [icc_eq_cons] at h
    exact h.of_cons
  rw [icc, List.pairwise_map]
  refine List.Pairwise.imp_of_mem (fun {i j} _ hj hij => ?_) List.pairwise_lt_range
  have hlt := (b - a).isLt
  rw [List.mem_range] at hj
  rw [BitVec.add_comm, BitVec.add_sub_cancel, BitVec.add_comm, BitVec.add_sub_cancel, BitVec.lt_def,
    BitVec.toNat_ofNat, BitVec.toNat_ofNat, Nat.mod_eq_of_lt (by omega), Nat.mod_eq_of_lt (by omega)]
  exact hij

/-- The head of an ordered list comes before all its other elements. -/
theorem eq_or_rel_of_head? {R : α → α → Prop} {l : List α} {w x : α} (hl : l.Pairwise R)
    (hw : l.head? = some w) (hx : x ∈ l) : x = w ∨ R w x := by
  cases l with
  | nil => cases hw
  | cons v vs =>
    cases hw
    exact (List.mem_cons.1 hx).imp id (List.rel_of_pairwise_cons hl)

/-- The first hit of `p` is the one nearest to the start. -/
theorem head?_filter_ioc_eq_some {p : BitVec n → Bool} {a b w : BitVec n} :
    ((ioc a b).filter p).head? = some w ↔
      (0#n < w - a ∧ w - a ≤ b - a ∧ p w = true) ∧
        ∀ x, 0#n < x - a → x - a < w - a → p x = false := by
  have hmem : ∀ x, x ∈ (ioc a b).filter p ↔ 0#n < x - a ∧ x - a ≤ b - a ∧ p x = true := by
    simp [mem_ioc, and_assoc]
  have hsorted := (ioc_pairwise (a := a) (b := b)).filter p
  generalize (ioc a b).filter p = l at hmem hsorted
  constructor
  · intro hhead
    have hw := (hmem w).1 (List.mem_of_mem_head? hhead)
    refine ⟨hw, fun x hpos hlt => ?_⟩
    rw [Bool.eq_false_iff]
    intro hp
    -- A hit before the head would be in the list, behind the head.
    have hle : x - a ≤ b - a := Nat.le_trans (Nat.le_of_lt hlt) hw.2.1
    rcases eq_or_rel_of_head? hsorted hhead ((hmem x).2 ⟨hpos, hle, hp⟩) with rfl | hx
    · exact BitVec.lt_irrefl _ hlt
    · exact BitVec.lt_asymm hlt hx
  · rintro ⟨hw, hfirst⟩
    obtain ⟨v, hhead⟩ : ∃ v, l.head? = some v :=
      ⟨_, List.head?_eq_some_head (List.ne_nil_of_mem ((hmem w).2 hw))⟩
    have hv := (hmem v).1 (List.mem_of_mem_head? hhead)
    rcases eq_or_rel_of_head? hsorted hhead ((hmem w).2 hw) with rfl | hlt
    · exact hhead
    · have := hfirst v hv.1 hlt
      rw [hv.2.2] at this
      cases this

theorem head?_filter_ioc_eq_none {p : BitVec n → Bool} {a b : BitVec n} :
    ((ioc a b).filter p).head? = none ↔ ∀ x, 0#n < x - a → x - a ≤ b - a → p x = false := by
  rw [List.head?_eq_none_iff, List.filter_eq_nil_iff]
  simp [mem_ioc]

theorem ioc_sorted {a b : BitVec n} (h : a ≤ b) : (ioc a b).Pairwise (· < ·) := by
  have hsorted := icc_sorted h
  rw [icc_eq_cons] at hsorted
  exact hsorted.of_cons

/-- Without wrap-around the first hit of `p` is the least one. -/
theorem le_of_head?_filter_ioc {p : BitVec n → Bool} {a b w : BitVec n} (h : a ≤ b)
    (hw : ((ioc a b).filter p).head? = some w) :
    (a < w ∧ w ≤ b ∧ p w) ∧ ∀ x, a < x → x ≤ b → p x → w ≤ x := by
  have hmem : ∀ x, x ∈ (ioc a b).filter p ↔ a < x ∧ x ≤ b ∧ p x := by
    simp [mem_ioc_of_le h, and_assoc]
  refine ⟨(hmem w).1 (List.mem_of_mem_head? hw), fun x hax hxb hpx => ?_⟩
  rcases eq_or_rel_of_head? ((ioc_sorted h).filter p) hw ((hmem x).2 ⟨hax, hxb, hpx⟩) with rfl | hlt
  · exact BitVec.le_refl _
  · exact BitVec.le_of_lt hlt

theorem eq_false_of_head?_filter_ioc {p : BitVec n → Bool} {a b : BitVec n} (h : a ≤ b)
    (hw : ((ioc a b).filter p).head? = none) : ∀ x, a < x → x ≤ b → p x = false := by
  intro x hax hxb
  rw [List.head?_eq_none_iff, List.filter_eq_nil_iff] at hw
  simpa using hw x ((mem_ioc_of_le h).mpr ⟨hax, hxb⟩)

end Cyclic
