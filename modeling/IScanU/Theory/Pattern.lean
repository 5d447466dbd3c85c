import Mathlib.Data.BitVec
import Mathlib.Data.Nat.Bitwise
import Mathlib.Data.Fintype.EquivFin

/-! # Patterns of words

A pattern fixes some bits of a word and leaves the others free. Its members are enumerated by
depositing the bits of a counter, from the lowest on, in the free positions. -/

/-- The words that agree with `base` outside `free`. -/
structure Pattern (w : Nat) where
  base : BitVec w
  free : BitVec w
deriving DecidableEq, Repr

namespace Pattern

instance : Membership (BitVec w) (Pattern w) where
  mem p x := ∀ i < w, p.free.getLsbD i = false → x.getLsbD i = p.base.getLsbD i

/-- The masked comparison of programs. -/
theorem mem_iff {p : Pattern w} {x : BitVec w} :
    x ∈ p ↔ x &&& ~~~p.free = p.base &&& ~~~p.free := by
  refine ⟨fun h => BitVec.eq_of_getLsbD_eq fun i hi => ?_, fun h i hi hf => ?_⟩
  · simp only [BitVec.getLsbD_and, BitVec.getLsbD_not]
    cases hf : p.free.getLsbD i with
    | true => simp
    | false => rw [h i hi hf]
  · have := congrArg (·.getLsbD i) h
    simp only [BitVec.getLsbD_and, BitVec.getLsbD_not, hf, hi] at this
    simpa using this

instance {p : Pattern w} {x : BitVec w} : Decidable (x ∈ p) := decidable_of_iff' _ mem_iff

theorem base_mem {p : Pattern w} : p.base ∈ p := mem_iff.2 rfl

/-- A pattern without free bits has one member. -/
theorem mem_zero {b x : BitVec w} : x ∈ Pattern.mk b 0#w ↔ x = b := by
  simp [mem_iff]

/-- Bits of the base under the free ones do not matter. -/
theorem mem_clear {b m x : BitVec w} : x ∈ Pattern.mk (b &&& ~~~m) m ↔ x ∈ Pattern.mk b m := by
  simp [mem_iff, BitVec.and_assoc]

/-! ## Depositing a counter -/

/-- The number of set bits below position `i`. -/
def rank (m : BitVec w) (i : Nat) : Nat := m.cpopNatRec i 0

@[simp] theorem rank_zero {m : BitVec w} : rank m 0 = 0 := rfl

theorem rank_succ {m : BitVec w} {i : Nat} : rank m (i + 1) = rank m i + (m.getLsbD i).toNat := by
  rw [rank, BitVec.cpopNatRec_succ, BitVec.cpopNatRec_add, rank]

theorem rank_succ_of_free {m : BitVec w} {i : Nat} (h : m.getLsbD i = true) :
    rank m (i + 1) = rank m i + 1 := by
  rw [rank_succ, h, Bool.toNat_true]

theorem rank_succ_of_care {m : BitVec w} {i : Nat} (h : m.getLsbD i = false) :
    rank m (i + 1) = rank m i := by
  rw [rank_succ, h, Bool.toNat_false, Nat.add_zero]

theorem rank_le_succ {m : BitVec w} {i : Nat} : rank m i ≤ rank m (i + 1) := by
  rw [rank_succ]
  exact Nat.le_add_right ..

theorem rank_mono {m : BitVec w} {i j : Nat} (h : i ≤ j) : rank m i ≤ rank m j := by
  induction h with
  | refl => exact Nat.le_refl _
  | step _ ih => exact Nat.le_trans ih rank_le_succ

theorem rank_le {m : BitVec w} {i : Nat} : rank m i ≤ i := by
  have : rank m i ≤ 0 + i := BitVec.cpopNatRec_le i
  rwa [Nat.zero_add] at this

/-- Passing over fixed positions does not change the rank. -/
theorem rank_eq_of_care {m : BitVec w} {i k : Nat} (h : i ≤ k)
    (hcare : ∀ j, i ≤ j → j < k → m.getLsbD j = false) : rank m k = rank m i := by
  induction h with
  | refl => rfl
  | step h ih =>
    rw [Nat.succ_eq_add_one, rank_succ_of_care (hcare _ h (Nat.lt_succ_self _))]
    exact ih fun j hj hj' => hcare j hj (Nat.lt_succ_of_lt hj')

/-- A free position at or above `i` is counted beyond `i`. -/
theorem lt_of_rank_eq {m : BitVec w} {i j k : Nat} (h : m.getLsbD j = true) (hj : j < k)
    (hr : rank m k = rank m i) : j < i := by
  apply Nat.lt_of_not_le
  intro hij
  have h1 := rank_mono (m := m) (Nat.succ_le_of_lt hj)
  have h2 := rank_mono (m := m) hij
  rw [Nat.succ_eq_add_one, rank_succ_of_free h] at h1
  omega

theorem rank_eq_countP {m : BitVec w} {i : Nat} :
    rank m i = (List.range i).countP (m.getLsbD ·) := by
  induction i with
  | zero => rfl
  | succ i ih =>
    rw [rank_succ, ih, List.range_succ, List.countP_append]
    cases h : m.getLsbD i <;> simp [h]

/-- The number of words of the pattern is `2 ^ p.width`. -/
def width (p : Pattern w) : Nat := rank p.free w

/-- `x` has the bits of `p.base` in the fixed positions and, from the lowest on, those of `n` in
the free ones. -/
def Deposit (p : Pattern w) (n : Nat) (x : BitVec w) : Prop :=
  ∀ i < w, x.getLsbD i = if p.free.getLsbD i then n.testBit (rank p.free i) else p.base.getLsbD i

theorem Deposit.mem {p : Pattern w} (h : p.Deposit n x) : x ∈ p := by
  intro i hi hf
  rw [h i hi, hf, if_neg Bool.false_ne_true]

theorem Deposit.unique {p : Pattern w} (hx : p.Deposit n x) (hy : p.Deposit n y) : x = y := by
  apply BitVec.eq_of_getLsbD_eq
  intro i hi
  rw [hx i hi, hy i hi]

/-- The free bits of a word below position `i`, as a counter. -/
theorem exists_counter (m x : BitVec w) (i : Nat) :
    ∃ n < 2 ^ rank m i, ∀ j < i, m.getLsbD j = true → x.getLsbD j = n.testBit (rank m j) := by
  induction i with
  | zero => exact ⟨0, by simp, nofun⟩
  | succ i ih =>
    obtain ⟨n, hn, hx⟩ := ih
    cases hf : m.getLsbD i with
    | false =>
      refine ⟨n, rank_succ_of_care hf ▸ hn, fun j hj hj' => hx j ?_ hj'⟩
      apply lt_of_le_of_ne (Nat.le_of_lt_succ hj)
      rintro rfl
      simp [hf] at hj'
    | true =>
      -- The new bit goes above those of `n`.
      refine ⟨n + 2 ^ rank m i * (x.getLsbD i).toNat, ?_, fun j hj hj' => ?_⟩
      · rw [rank_succ_of_free hf, Nat.pow_succ]
        have := Nat.mul_le_mul_left (2 ^ rank m i) (Bool.toNat_le (x.getLsbD i))
        omega
      · rw [Nat.add_comm, Nat.testBit_two_pow_mul_add _ hn]
        rcases Nat.lt_succ_iff_lt_or_eq.1 hj with hj | rfl
        · have hr : rank m j < rank m i := by
            have := rank_mono (m := m) (Nat.succ_le_of_lt hj)
            rw [Nat.succ_eq_add_one, rank_succ_of_free hj'] at this
            exact this
          rw [if_pos hr]
          exact hx j hj hj'
        · rw [if_neg (Nat.lt_irrefl _), Nat.sub_self]
          cases x.getLsbD j <;> rfl

/-- Every member of a pattern is met by the enumeration. -/
theorem exists_deposit {p : Pattern w} (h : x ∈ p) : ∃ n < 2 ^ p.width, p.Deposit n x := by
  obtain ⟨n, hn, hx⟩ := exists_counter p.free x w
  refine ⟨n, hn, fun i hi => ?_⟩
  cases hf : p.free.getLsbD i with
  | true => exact hx i hi hf
  | false => exact h i hi hf

/-- The bit that decides between two numbers. -/
theorem exists_top_bit {n k : Nat} (h : n < k) : ∃ b, n.testBit b = false ∧ k.testBit b = true ∧
    ∀ i, b < i → n.testBit i = k.testBit i := by
  have hne : n ^^^ k ≠ 0 := by
    rw [Ne, Nat.xor_eq_zero_iff]
    exact Nat.ne_of_lt h
  obtain ⟨b, hb, habove⟩ := Nat.exists_most_significant_bit hne
  have hsame : ∀ i, b < i → n.testBit i = k.testBit i := by
    intro i hi
    have := habove i hi
    rwa [Nat.testBit_xor, bne_eq_false_iff_eq] at this
  rw [Nat.testBit_xor] at hb
  cases hn : n.testBit b with
  | false => exact ⟨b, hn, by simpa [hn] using hb, hsame⟩
  | true =>
    have hk : k.testBit b = false := by simpa [hn] using hb
    have := Nat.lt_of_testBit b hk hn fun i hi => (hsame i hi).symm
    omega

/-- Every value of the rank below the width is that of a free position. -/
theorem exists_rank_eq {m : BitVec w} (h : n < rank m i) :
    ∃ j < i, m.getLsbD j = true ∧ rank m j = n := by
  induction i with
  | zero => simp at h
  | succ i ih =>
    rcases Nat.lt_or_ge n (rank m i) with hlt | hge
    · obtain ⟨j, hj, hfree, hr⟩ := ih hlt
      exact ⟨j, Nat.lt_succ_of_lt hj, hfree, hr⟩
    · cases hf : m.getLsbD i with
      | false =>
        rw [rank_succ_of_care hf] at h
        omega
      | true =>
        rw [rank_succ_of_free hf] at h
        exact ⟨i, Nat.lt_succ_self i, hf, by omega⟩

/-- A counter that is greater is deposited as a greater word. -/
theorem Deposit.lt {p : Pattern w} (hx : p.Deposit n x) (hy : p.Deposit k y) (hnk : n < k)
    (hk : k < 2 ^ p.width) : x < y := by
  obtain ⟨b, hnb, hkb, habove⟩ := exists_top_bit hnk
  have hb : b < rank p.free w := by
    have := Nat.ge_two_pow_of_testBit hkb
    exact (Nat.pow_lt_pow_iff_right Nat.one_lt_two).1 (Nat.lt_of_le_of_lt this hk)
  obtain ⟨j, hj, hfree, hrank⟩ := exists_rank_eq hb
  refine Nat.lt_of_testBit j ?_ ?_ fun i hi => ?_
  · rw [BitVec.testBit_toNat, hx j hj, hfree, if_pos rfl, hrank, hnb]
  · rw [BitVec.testBit_toNat, hy j hj, hfree, if_pos rfl, hrank, hkb]
  · rw [BitVec.testBit_toNat, BitVec.testBit_toNat]
    by_cases hiw : i < w
    · rw [hx i hiw, hy i hiw]
      -- The free positions above `j` hold the bits above `b`.
      have hr : b < rank p.free i := by
        have := rank_mono (m := p.free) (Nat.succ_le_of_lt hi)
        rw [Nat.succ_eq_add_one, rank_succ_of_free hfree] at this
        omega
      rw [habove _ hr]
    · rw [BitVec.getLsbD_of_ge x i (Nat.le_of_not_lt hiw),
        BitVec.getLsbD_of_ge y i (Nat.le_of_not_lt hiw)]

/-- Only a pattern that fixes nothing has all positions free. -/
theorem width_eq_iff {p : Pattern w} : p.width = w ↔ p.free = BitVec.allOnes w := by
  rw [width, rank_eq_countP]
  conv_lhs => rhs; rw [← List.length_range (n := w)]
  rw [List.countP_eq_length]
  refine ⟨fun h => BitVec.eq_of_getLsbD_eq fun i hi => ?_, fun h i hi => ?_⟩
  · rw [h i (List.mem_range.2 hi), BitVec.getLsbD_allOnes, decide_eq_true hi]
  · rw [h, BitVec.getLsbD_allOnes, decide_eq_true (List.mem_range.1 hi)]

/-! ## The order of the members -/

/-- A word is the sum of its parts outside and inside a mask. -/
theorem toNat_split (x m : BitVec w) : x.toNat = (x &&& ~~~m).toNat + (x &&& m).toNat := by
  have hzero : (x &&& ~~~m) &&& (x &&& m) = 0#w := by
    apply BitVec.eq_of_getLsbD_eq
    intro i hi
    simp only [BitVec.getLsbD_and, BitVec.getLsbD_not, BitVec.getLsbD_zero]
    cases m.getLsbD i <;> simp
  rw [← BitVec.toNat_add_of_and_eq_zero hzero, BitVec.add_eq_or_of_and_eq_zero _ _ hzero]
  congr 1
  apply BitVec.eq_of_getLsbD_eq
  intro i hi
  simp only [BitVec.getLsbD_or, BitVec.getLsbD_and, BitVec.getLsbD_not, hi]
  cases m.getLsbD i <;> simp

theorem toNat_and_le (x m : BitVec w) : (x &&& m).toNat ≤ m.toNat := by
  rw [BitVec.toNat_and]
  exact Nat.and_le_right

/-- The members lie at distances from each other that are words of the free bits. -/
theorem toNat_of_mem {p : Pattern w} (h : x ∈ p) :
    x.toNat + (p.base &&& p.free).toNat = p.base.toNat + (x &&& p.free).toNat := by
  have hx := toNat_split x p.free
  have hb := toNat_split p.base p.free
  rw [mem_iff.1 h] at hx
  omega

theorem le_of_mem {p : Pattern w} (h : x ∈ p) : x.toNat ≤ p.base.toNat + p.free.toNat := by
  have := toNat_of_mem h
  have := toNat_and_le x p.free
  omega

/-- The base has to be clear under the free bits for the last member to be that far from it. -/
theorem and_eq_zero_of_mem {p : Pattern w} (h : x ∈ p)
    (ht : x.toNat = p.base.toNat + p.free.toNat) : p.base &&& p.free = 0#w := by
  have := toNat_of_mem h
  have := toNat_and_le x p.free
  apply BitVec.eq_of_toNat_eq
  rw [BitVec.toNat_ofNat, Nat.zero_mod]
  omega

/-- The mask of `n` bits from bit `s` on. -/
def field (w s n : Nat) : BitVec w := BitVec.ofNat w ((2 ^ n - 1) <<< s)

theorem getLsbD_field (hi : i < w) : (field w s n).getLsbD i = decide (s ≤ i ∧ i < s + n) := by
  rw [field, BitVec.getLsbD_ofNat, Nat.testBit_shiftLeft, Nat.testBit_two_pow_sub_one,
    Bool.eq_iff_iff]
  simp only [Bool.and_eq_true, decide_eq_true_eq]
  omega

theorem and_field_eq_zero_iff {b : BitVec w} :
    b &&& field w s n = 0#w ↔ ∀ i < s + n, s ≤ i → b.getLsbD i = false := by
  refine ⟨fun h i hn hs => ?_, fun h => BitVec.eq_of_getLsbD_eq fun i hi => ?_⟩
  · by_cases hi : i < w
    · have := congrArg (·.getLsbD i) h
      simp only [BitVec.getLsbD_and, getLsbD_field hi, BitVec.getLsbD_zero] at this
      simpa [hs, hn] using this
    · exact BitVec.getLsbD_of_ge b i (Nat.le_of_not_lt hi)
  · rw [BitVec.getLsbD_and, getLsbD_field hi, BitVec.getLsbD_zero]
    by_cases hin : s ≤ i ∧ i < s + n
    · rw [h i hin.2 hin.1, Bool.false_and]
    · rw [decide_eq_false hin, Bool.and_false]

theorem toNat_and_field {x : BitVec w} :
    (x &&& field w s n).toNat = x.toNat >>> s % 2 ^ n * 2 ^ s := by
  rw [BitVec.toNat_and, ← Nat.shiftLeft_eq]
  apply Nat.eq_of_testBit_eq
  intro i
  rw [Nat.testBit_and, Nat.testBit_shiftLeft, Nat.testBit_mod_two_pow, Nat.testBit_shiftRight]
  by_cases hs : s ≤ i
  · have h1 : s + (i - s) = i := Nat.add_sub_of_le hs
    have h2 : i - s < n ↔ i < s + n := by omega
    rw [h1]
    by_cases hi : i < w
    · rw [BitVec.testBit_toNat, BitVec.testBit_toNat, getLsbD_field hi]
      simp only [hs, h2, true_and, decide_true, Bool.true_and]
      exact Bool.and_comm _ _
    · rw [BitVec.testBit_toNat, BitVec.getLsbD_of_ge x i (Nat.le_of_not_lt hi)]
      simp
  · by_cases hi : i < w
    · rw [BitVec.testBit_toNat, BitVec.testBit_toNat, getLsbD_field hi]
      simp [hs]
    · rw [BitVec.testBit_toNat, BitVec.getLsbD_of_ge x i (Nat.le_of_not_lt hi)]
      simp [hs]

/-- A pattern with one field free and clear in the base is an arithmetic progression. -/
theorem mem_field_iff {b : BitVec w} (hb : b &&& field w s n = 0#w) :
    x ∈ Pattern.mk b (field w s n) ↔ ∃ j < 2 ^ n, x.toNat = b.toNat + j * 2 ^ s := by
  refine ⟨fun h => ⟨x.toNat >>> s % 2 ^ n, Nat.mod_lt _ (Nat.two_pow_pos n), ?_⟩, ?_⟩
  · have hsum := toNat_of_mem h
    simpa only [hb, BitVec.toNat_ofNat, Nat.zero_mod, Nat.add_zero, toNat_and_field] using hsum
  · rintro ⟨j, hj, hx⟩
    have hlt : j * 2 ^ s < 2 ^ w := by
      have := x.isLt
      omega
    -- The distance, as a word; its bits are in the field.
    have hbit : ∀ i < w, (BitVec.ofNat w (j * 2 ^ s)).getLsbD i = true → s ≤ i ∧ i < s + n := by
      intro i hi h
      rw [BitVec.getLsbD_ofNat, Nat.testBit_mul_two_pow] at h
      simp only [Bool.and_eq_true, decide_eq_true_eq] at h
      refine ⟨h.2.1, ?_⟩
      have := Nat.ge_two_pow_of_testBit h.2.2
      have := (Nat.pow_lt_pow_iff_right (by decide)).1 (Nat.lt_of_le_of_lt this hj)
      omega
    have hzero : b &&& BitVec.ofNat w (j * 2 ^ s) = 0#w := by
      apply BitVec.eq_of_getLsbD_eq
      intro i hi
      rw [BitVec.getLsbD_and, BitVec.getLsbD_zero]
      cases h : (BitVec.ofNat w (j * 2 ^ s)).getLsbD i with
      | false => exact Bool.and_false _
      | true =>
        obtain ⟨h1, h2⟩ := hbit i hi h
        rw [and_field_eq_zero_iff.1 hb i h2 h1, Bool.false_and]
    have hsum : x = b ||| BitVec.ofNat w (j * 2 ^ s) := by
      rw [← BitVec.add_eq_or_of_and_eq_zero _ _ hzero]
      apply BitVec.eq_of_toNat_eq
      rw [BitVec.toNat_add_of_and_eq_zero hzero, BitVec.toNat_ofNat, Nat.mod_eq_of_lt hlt, hx]
    intro i hi hf
    have : (BitVec.ofNat w (j * 2 ^ s)).getLsbD i = false := by
      rw [Bool.eq_false_iff]
      intro h
      rw [getLsbD_field hi, decide_eq_false_iff_not] at hf
      exact hf (hbit i hi h)
    rw [hsum, BitVec.getLsbD_or, this, Bool.or_false]

/-- Membership, field by field: the fixed bits are the fields `(s, n)` of the list. -/
theorem mem_iff_fields {p : Pattern w} {fixed : List (Nat × Nat)}
    (hfixed : ∀ i < w, p.free.getLsbD i =
      !fixed.any fun c => decide (c.1 ≤ i) && decide (i < c.1 + c.2)) :
    x ∈ p ↔ ∀ c ∈ fixed,
      x.toNat / 2 ^ c.1 % 2 ^ c.2 = p.base.toNat / 2 ^ c.1 % 2 ^ c.2 := by
  have hfield : ∀ (y : BitVec w) (c : Nat × Nat) (i : Nat),
      (y.toNat / 2 ^ c.1 % 2 ^ c.2).testBit i = (decide (i < c.2) && y.getLsbD (i + c.1)) := by
    intro y c i
    rw [Nat.testBit_mod_two_pow, Nat.testBit_div_two_pow, BitVec.testBit_toNat]
  refine ⟨fun h c hc => Nat.eq_of_testBit_eq fun i => ?_, fun h i hi hf => ?_⟩
  · rw [hfield, hfield]
    by_cases hin : i + c.1 < w
    · cases hlen : decide (i < c.2) with
      | false => rfl
      | true =>
        have hlen := of_decide_eq_true hlen
        rw [h (i + c.1) hin]
        rw [hfixed _ hin, Bool.not_eq_false', List.any_eq_true]
        refine ⟨c, hc, ?_⟩
        simp only [Bool.and_eq_true, decide_eq_true_eq]
        omega
    · rw [BitVec.getLsbD_of_ge x _ (Nat.le_of_not_lt hin),
        BitVec.getLsbD_of_ge p.base _ (Nat.le_of_not_lt hin)]
  · rw [hfixed i hi, Bool.not_eq_false', List.any_eq_true] at hf
    obtain ⟨c, hc, hin⟩ := hf
    simp only [Bool.and_eq_true, decide_eq_true_eq] at hin
    have hbit := congrArg (Nat.testBit · (i - c.1)) (h c hc)
    simp only [hfield, Nat.sub_add_cancel hin.1, show i - c.1 < c.2 by omega, decide_true,
      Bool.true_and] at hbit
    exact hbit

/-! ## Counting the members -/

instance : Fintype (BitVec w) :=
  .ofEquiv (Fin (2 ^ w)) ⟨BitVec.ofFin, BitVec.toFin, fun _ => rfl, fun _ => rfl⟩

@[irreducible] def words (p : Pattern w) : Finset (BitVec w) := {x | x ∈ p}

@[simp] theorem mem_words {p : Pattern w} : x ∈ p.words ↔ x ∈ p := by simp [words]

theorem card_words_pos {p : Pattern w} : 0 < p.words.card :=
  Finset.card_pos.2 ⟨p.base, mem_words.2 base_mem⟩

theorem card_words_le (b b' m : BitVec w) :
    (Pattern.mk b m).words.card ≤ (Pattern.mk b' m).words.card := by
  apply Finset.card_le_card_of_injOn (· ^^^ (b ^^^ b'))
  · intro x hx
    rw [Finset.mem_coe, mem_words] at hx ⊢
    intro i hi hf
    rw [BitVec.getLsbD_xor, BitVec.getLsbD_xor, hx i hi hf, ← Bool.xor_assoc, Bool.xor_self,
      Bool.false_xor]
  · intro x _ y _ h
    have h : x ^^^ (b ^^^ b') = y ^^^ (b ^^^ b') := h
    exact (BitVec.xor_left_inj _).1 h

/-- The number of members depends on the free bits alone. -/
theorem card_words_congr (b b' m : BitVec w) :
    (Pattern.mk b m).words.card = (Pattern.mk b' m).words.card :=
  Nat.le_antisymm (card_words_le b b' m) (card_words_le b' b m)

/-- One more free bit at most doubles the number of members. -/
theorem card_words_or_twoPow (b m : BitVec w) (i : Nat) :
    (Pattern.mk b (m ||| BitVec.twoPow w i)).words.card ≤ 2 * (Pattern.mk b m).words.card := by
  have hsub : (Pattern.mk b (m ||| BitVec.twoPow w i)).words ⊆
      (Pattern.mk b m).words ∪ (Pattern.mk (b ^^^ BitVec.twoPow w i) m).words := by
    intro x hx
    rw [mem_words] at hx
    rw [Finset.mem_union, mem_words, mem_words]
    -- Does `x` agree with the base in the new bit?
    by_cases hb : x.getLsbD i = b.getLsbD i
    · refine .inl fun j hj hf => ?_
      by_cases hji : j = i
      · rw [hji]
        exact hb
      · apply hx j hj
        rw [BitVec.getLsbD_or, hf, BitVec.getLsbD_twoPow]
        simp [Ne.symm hji]
    · refine .inr fun j hj hf => ?_
      rw [BitVec.getLsbD_xor, BitVec.getLsbD_twoPow]
      by_cases hji : j = i
      · subst hji
        cases hx' : x.getLsbD j <;> cases hb' : b.getLsbD j <;> simp_all
      · rw [hx j hj (by rw [BitVec.getLsbD_or, hf, BitVec.getLsbD_twoPow]; simp [Ne.symm hji])]
        simp [Ne.symm hji]
  calc (Pattern.mk b (m ||| BitVec.twoPow w i)).words.card
      ≤ (Pattern.mk b m).words.card + (Pattern.mk (b ^^^ BitVec.twoPow w i) m).words.card :=
        (Finset.card_le_card hsub).trans (Finset.card_union_le _ _)
    _ = 2 * (Pattern.mk b m).words.card := by rw [card_words_congr (b ^^^ _) b, Nat.two_mul]

/-- The words of a list of patterns. -/
def union (ps : List (Pattern w)) : Finset (BitVec w) := {x | ∃ p ∈ ps, x ∈ p}

theorem mem_union {ps : List (Pattern w)} : x ∈ union ps ↔ ∃ p ∈ ps, x ∈ p := by simp [union]

theorem union_cons {p : Pattern w} {ps : List (Pattern w)} :
    union (p :: ps) = p.words ∪ union ps := by
  ext x
  simp [mem_union]

theorem card_union_le (ps : List (Pattern w)) :
    (union ps).card ≤ (ps.map (·.words.card)).sum := by
  induction ps with
  | nil => simp [union]
  | cons p ps ih =>
    rw [union_cons, List.map_cons, List.sum_cons]
    exact (Finset.card_union_le _ _).trans (Nat.add_le_add_left ih _)

/-- No word is a member of both. -/
def Apart (p q : Pattern w) : Prop := ∀ x, x ∈ p → x ∉ q

theorem card_union_eq {ps : List (Pattern w)} (h : ps.Pairwise Apart) :
    (union ps).card = (ps.map (·.words.card)).sum := by
  induction h with
  | nil => simp [union]
  | cons hp _ ih =>
    rw [union_cons, List.map_cons, List.sum_cons, Finset.card_union_of_disjoint, ih]
    rw [Finset.disjoint_left]
    intro x hx hx'
    obtain ⟨q, hq, hxq⟩ := mem_union.1 hx'
    exact hp q hq x (mem_words.1 hx) hxq

end Pattern
