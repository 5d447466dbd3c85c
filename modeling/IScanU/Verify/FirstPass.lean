import IScanU.FirstPass
import IScanU.RangeCompress
import IScanU.Theory.Pattern

/-! # The first pass

The loop of `firstPass.py` writes the pieces that `Progression.cut` takes from its input
(`FirstPass.loop_eq_cut`). Read additively the lines are therefore the input; read as patterns, the
way the second pass reads them, they are it exactly when each piece is aligned. -/

namespace IScanU.FirstPass

open Progression (Piece cut front links walk walk_eq)

/-! ## The arithmetic of the script -/

theorem isPower2_iff {num : Int} : isPower2 num = true ↔ ∃ s, num = 2 ^ s := by
  rw [isPower2, Bool.and_eq_true, bne_iff_ne, beq_iff_eq]
  cases num with
  | ofNat n =>
    cases n with
    | zero =>
      refine iff_of_false (fun h => h.1 rfl) fun ⟨s, h⟩ => ?_
      have : (0 : Int) < 2 ^ s := Int.pow_pos (by decide)
      exact absurd (Int.ofNat_zero ▸ h) (ne_of_lt this)
    | succ n =>
      have hsub : Int.ofNat (n + 1) - 1 = Int.ofNat n := by simp
      have hiff := Nat.ne_zero_and_sub_one_eq_zero_iff_isPowerOfTwo (n := n + 1)
      rw [hsub]
      simp only [Int.land, Int.ofNat_eq_natCast, Nat.add_sub_cancel] at *
      rw [Int.natCast_eq_zero, Int.natCast_ne_zero, hiff, Nat.isPowerOfTwo]
      norm_cast
  | negSucc n =>
    refine iff_of_false (fun h => ?_) fun ⟨s, h⟩ => ?_
    · have : Int.negSucc n - 1 = Int.negSucc (n + 1) := rfl
      rw [this] at h
      exact absurd h.2 (Int.negSucc_ne_zero _)
    · have : (0 : Int) < 2 ^ s := Int.pow_pos (by decide)
      omega

theorem bitLength_two_pow {s : Nat} : bitLength (2 ^ s) = s + 1 := by
  rw [bitLength, Int.natAbs_pow]
  exact Nat.size_pow

/-- Whether or not the run is cut back, the number of bits is that of the longest power of two of
elements in it. -/
theorem variableBits_eq {diff : Nat} : variableBits diff = (diff + 1).log2 := by
  rw [variableBits, bitLength, Int.natAbs_natCast]
  split
  case isTrue h =>
    obtain ⟨n, hn⟩ := isPower2_iff.1 h
    have hn : diff + 1 = 2 ^ n := by exact_mod_cast hn
    rw [hn, Nat.log2_two_pow]
    apply Nat.le_antisymm
    · exact Nat.size_le.2 (by omega)
    · cases n with
      | zero => exact Nat.zero_le _
      | succ n =>
        apply Nat.succ_le_of_lt
        rw [Nat.lt_size]
        have := Nat.one_le_two_pow (n := n)
        rw [Nat.pow_succ] at hn
        omega
  case isFalse h =>
    have hle := Nat.log2_self_le (n := diff + 1) (Nat.succ_ne_zero diff)
    have hlt := Nat.lt_log2_self (n := diff + 1)
    have hne : diff + 1 ≠ 2 ^ (diff + 1).log2 := by
      intro e
      exact h (isPower2_iff.2 ⟨_, by exact_mod_cast e⟩)
    have h1 : (diff + 1).log2 < diff.size := Nat.lt_size.2 (by omega)
    have h2 : diff.size ≤ (diff + 1).log2 + 1 := Nat.size_le.2 (by omega)
    omega

/-- The step back and the increment together pass over the elements of the line. -/
theorem nextIndex_eq {inputData : List Int} {delta : Int} {i : Nat} :
    nextIndex inputData delta i =
      i + 2 ^ variableBits (runEnd inputData delta i - i) := by
  have hle : i ≤ runEnd inputData delta i := by
    rw [runEnd]
    split
    · exact Progression.le_walk
    · exact Nat.le_refl _
  have hbits := Nat.log2_self_le (n := runEnd inputData delta i - i + 1) (Nat.succ_ne_zero _)
  have hpos := Nat.one_le_two_pow (n := (runEnd inputData delta i - i + 1).log2)
  simp only [nextIndex]
  rw [variableBits_eq]
  split
  case isTrue h =>
    obtain ⟨n, hn⟩ := isPower2_iff.1 h
    have hn : runEnd inputData delta i - i + 1 = 2 ^ n := by exact_mod_cast hn
    rw [hn, Nat.log2_two_pow, ← hn]
    omega
  case isFalse h => omega

/-- The mask of a piece. -/
theorem foldl_mask {s : Nat} (n : Nat) :
    (List.range n).foldl (fun mask (k : Nat) => mask ||| 1 <<< ((k : Int) + s).toNat) 0 =
      (2 ^ n - 1) <<< s := by
  induction n with
  | zero => simp
  | succ n ih =>
    rw [List.range_succ, List.foldl_append, ih, List.foldl_cons, List.foldl_nil]
    have : ((n : Int) + (s : Int)).toNat = n + s := by omega
    rw [this]
    apply Nat.eq_of_testBit_eq
    intro i
    simp only [Nat.testBit_or, Nat.testBit_shiftLeft, Nat.testBit_two_pow_sub_one,
      Nat.one_shiftLeft, Nat.testBit_two_pow]
    rw [Bool.eq_iff_iff]
    simp only [Bool.or_eq_true, Bool.and_eq_true, decide_eq_true_eq]
    omega

/-! ## The lines are the pieces -/

/-- The line written for a piece. -/
def line (p : Piece) : Line := ⟨p.base, (2 ^ p.bits - 1) <<< p.shift⟩

section
variable {inputData : List Int} {delta : Int}

/-- `delta` is what the loop has computed for index `i`: the difference to the next element. At the
last element it may have any value. -/
def Fresh (inputData : List Int) (delta : Int) (i : Nat) : Prop :=
  ∀ h : i + 1 < inputData.length, delta = inputData[i + 1] - inputData[i]

theorem diff_eq : runEnd inputData delta i - i =
    if isPower2 delta then links (fun a b => a + delta == b) (inputData.drop i) else 0 := by
  rw [runEnd]
  split
  · rw [walk_eq, Nat.add_sub_cancel_left]
  · exact Nat.sub_self i

/-- One pass of the loop handles the piece at the front of what is left. -/
theorem pass_eq (h : i < inputData.length) (hd : Fresh inputData delta i) :
    ⟨inputData[i], lineMask inputData delta i⟩ =
        line (front inputData[i] (inputData.drop (i + 1))) ∧
      nextIndex inputData delta i =
        i + 2 ^ (front inputData[i] (inputData.drop (i + 1))).bits := by
  rw [nextIndex_eq, lineMask, variableBits_eq, diff_eq, List.drop_eq_getElem_cons h]
  by_cases hn : i + 1 < inputData.length
  · obtain rfl := hd hn
    rw [List.drop_eq_getElem_cons hn]
    generalize inputData[i] = x, inputData[i + 1] = y, inputData.drop (i + 1 + 1) = l
    by_cases hp : isPower2 (y - x) = true
    · obtain ⟨s, hs⟩ := isPower2_iff.1 hp
      rw [if_pos hp, Progression.front_of_step hs, hs, bitLength_two_pow, line]
      refine ⟨?_, rfl⟩
      push_cast
      simp only [Int.add_sub_cancel]
      rw [foldl_mask]
    · have hne : ∀ s : Nat, y - x ≠ 2 ^ s := fun s e => hp (isPower2_iff.2 ⟨s, e⟩)
      rw [if_neg hp, Progression.front_of_not_step hne]
      exact ⟨rfl, rfl⟩
  · -- At the last element the value of `delta` does not matter.
    have hnil : inputData.drop (i + 1) = [] := List.drop_eq_nil_of_le (Nat.le_of_not_lt hn)
    have hlinks : (if isPower2 delta then links (fun a b => a + delta == b) [inputData[i]] else 0) =
        0 := ite_self 0
    rw [hnil, hlinks]
    exact ⟨rfl, rfl⟩

/-- The loop writes the pieces of what is left of the input. -/
theorem loop_eq_cut (hd : Fresh inputData delta i) :
    loop inputData delta i = (cut (inputData.drop i)).map line := by
  fun_induction loop inputData delta i with
  | case1 delta i h next ih =>
    obtain ⟨hline, hnext⟩ := pass_eq h hd
    have hfresh : Fresh inputData (if h : next + 1 < inputData.length then
        inputData[next + 1] - inputData[next] else delta) next := by
      intro hlt
      rw [dif_pos hlt]
    rw [ih hfresh, List.drop_eq_getElem_cons h, cut, List.map_cons, hline, List.drop_drop]
    have : next = i + 1 + (2 ^ (front inputData[i] (inputData.drop (i + 1))).bits - 1) := by
      have := Nat.one_le_two_pow (n := (front inputData[i] (inputData.drop (i + 1))).bits)
      change nextIndex inputData delta i = _
      omega
    rw [this]
  | case2 delta i h =>
    rw [List.drop_eq_nil_of_le (Nat.le_of_not_lt h), cut, List.map_nil]

end

theorem firstPass_eq_cut {inputData : List Int} (h : 2 ≤ inputData.length) :
    firstPass inputData = some ((cut inputData).map line) := by
  match inputData, h with
  | a :: b :: l, _ =>
    rw [firstPass, loop_eq_cut, List.drop_zero]
    exact fun _ => rfl

/-! ## The additive reading -/

/-- With `n` set bits in the mask from bit `s` on, `base + k * 2 ^ s` for `k` below `2 ^ n`; the
base alone when the mask is zero. -/
def Line.additive (l : Line) : List Int :=
  (List.range (2 ^ l.mask.bits.count true)).map fun k : Nat =>
    l.base + k * 2 ^ l.mask.bits.idxOf true

theorem bits_mask {s n : Nat} (h : 0 < n) :
    ((2 ^ n - 1) <<< s).bits = List.replicate s false ++ List.replicate n true := by
  have hpow := Nat.one_lt_two_pow (Nat.ne_of_gt h)
  induction s with
  | zero =>
    rw [Nat.shiftLeft_zero, List.replicate_zero, List.nil_append]
    clear hpow
    induction n with
    | zero => rfl
    | succ n ih =>
      cases n with
      | zero => simp
      | succ n =>
        have : 2 ^ (n + 1 + 1) - 1 = 2 * (2 ^ (n + 1) - 1) + 1 := by
          have := Nat.one_le_two_pow (n := n + 1)
          rw [Nat.pow_succ]
          omega
        rw [this, Nat.bit1_bits, ih (Nat.succ_pos n)]
        rfl
  | succ s ih =>
    have hne : (2 ^ n - 1) <<< s ≠ 0 := by
      rw [Nat.shiftLeft_eq]
      have := Nat.one_le_two_pow (n := s)
      exact Nat.mul_ne_zero (by omega) (by omega)
    rw [Nat.shiftLeft_succ, Nat.bit0_bits _ hne, ih]
    rfl

theorem additive_line {p : Piece} : (line p).additive = p.elements := by
  rw [Line.additive, Piece.elements, line]
  cases h : p.bits with
  | zero => simp
  | succ n =>
    have hcount : ((2 ^ (n + 1) - 1) <<< p.shift).bits.count true = n + 1 := by
      rw [bits_mask (Nat.succ_pos n)]
      simp [List.count_replicate]
    have hidx : ((2 ^ (n + 1) - 1) <<< p.shift).bits.idxOf true = p.shift := by
      rw [bits_mask (Nat.succ_pos n), List.idxOf_append_of_notMem (by simp),
        List.length_replicate, List.replicate_succ, List.idxOf_cons_self, Nat.add_zero]
    rw [hcount, hidx]

/-- The loop ends, and its lines read additively are the input, element by element. -/
theorem firstPass_additive (inputData : List Int) (h : 2 ≤ inputData.length) :
    ∃ lines, firstPass inputData = some lines ∧ lines.flatMap Line.additive = inputData := by
  refine ⟨_, firstPass_eq_cut h, ?_⟩
  rw [List.flatMap_map]
  simp only [additive_line]
  exact Progression.flatMap_elements_cut

/-- A run of seven, a run in steps of 4 that falls behind it, a duplicate, a step down and a step of
bit 33. -/
theorem firstPass_additive_mixed :
    ∃ lines, firstPass [-1, 0, 1, 2, 3, 4, 5, 9, 13, 13, 2, 2 + 2 ^ 33] = some lines ∧
      lines.flatMap Line.additive = [-1, 0, 1, 2, 3, 4, 5, 9, 13, 13, 2, 2 + 2 ^ 33] :=
  firstPass_additive _ (by decide)

/-! ## The reading of the second pass -/

open RangeCompress (readLine)

/-- A piece of words that is aligned: the bits that tell its elements apart are clear in the
base. -/
def Aligned (p : Piece) : Prop :=
  ∀ i < p.shift + p.bits, p.shift ≤ i → p.base.toNat.testBit i = false

instance : DecidablePred Aligned := fun p =>
  inferInstanceAs (Decidable (∀ i < p.shift + p.bits, _ → _))

/-- The words the second pass takes the line of a piece for. -/
def Covers (p : Piece) (k : InstrT) : Prop := k ∈ (readLine (line p)).pattern

/-- The last element of the piece, which starts at the word `x`. -/
structure Fits (p : Piece) (x : InstrT) : Prop where
  base : p.base = (x.toNat : Int)
  last : x.toNat + (2 ^ p.bits - 1) * 2 ^ p.shift < 2 ^ 32

section
variable {p : Piece} {x k : InstrT}

theorem covers_iff (h : Fits p x) :
    Covers p k ↔ k ∈ Pattern.mk x (Pattern.field 32 p.shift p.bits) := by
  rw [Covers, readLine, RangeCompress.MaskedInstruction.pattern, line, h.base, Pattern.field]
  have : BitVec.ofInt 32 (x.toNat : Int) = x := by simp
  rw [this]
  exact Pattern.mem_clear

theorem Fits.toNat_field (h : Fits p x) :
    (Pattern.field 32 p.shift p.bits).toNat = (2 ^ p.bits - 1) * 2 ^ p.shift := by
  rw [Pattern.field, BitVec.toNat_ofNat, Nat.shiftLeft_eq, Nat.mod_eq_of_lt]
  exact Nat.lt_of_le_of_lt (Nat.le_add_left _ _) h.last

theorem Fits.aligned_iff (h : Fits p x) :
    Aligned p ↔ x &&& Pattern.field 32 p.shift p.bits = 0#32 := by
  rw [Pattern.and_field_eq_zero_iff, Aligned, h.base]
  exact Iff.rfl

/-- Nothing beyond its last element is read out of a line. -/
theorem Fits.le_of_covers (h : Fits p x) (hk : Covers p k) :
    k.toNat ≤ x.toNat + (2 ^ p.bits - 1) * 2 ^ p.shift := by
  have := Pattern.le_of_mem ((covers_iff h).1 hk)
  rwa [h.toNat_field] at this

/-- The last element is read only out of an aligned line. -/
theorem Fits.aligned_of_covers (h : Fits p x) (hk : Covers p k)
    (hlast : k.toNat = x.toNat + (2 ^ p.bits - 1) * 2 ^ p.shift) : Aligned p := by
  rw [h.aligned_iff]
  apply Pattern.and_eq_zero_of_mem ((covers_iff h).1 hk)
  rw [h.toNat_field]
  exact hlast

/-- An aligned line is read as its elements. -/
theorem Fits.covers_iff_mem (h : Fits p x) (ha : Aligned p) :
    Covers p k ↔ (k.toNat : Int) ∈ p.elements := by
  rw [covers_iff h, Pattern.mem_field_iff (h.aligned_iff.1 ha), Piece.mem_elements, h.base]
  apply exists_congr
  intro j
  apply and_congr_right
  intro _
  norm_cast

end

/-- Every piece of a list of words starts and ends at words of the list. -/
theorem exists_fits {l : List Int} (hl : ∀ a ∈ l, ∃ w : InstrT, a = (w.toNat : Int))
    (hp : p ∈ cut l) : ∃ x, Fits p x ∧
      ((x.toNat + (2 ^ p.bits - 1) * 2 ^ p.shift : Nat) : Int) ∈ p.elements := by
  have hmem : ∀ a ∈ p.elements, a ∈ l := by
    intro a ha
    rw [← Progression.flatMap_elements_cut (l := l)]
    exact List.mem_flatMap.2 ⟨p, hp, ha⟩
  have hpow := Nat.two_pow_pos p.bits
  have hbase : p.base ∈ p.elements := Piece.mem_elements.2 ⟨0, hpow, by simp⟩
  obtain ⟨x, hx⟩ := hl _ (hmem _ hbase)
  have hlast : ((x.toNat + (2 ^ p.bits - 1) * 2 ^ p.shift : Nat) : Int) ∈ p.elements := by
    refine Piece.mem_elements.2 ⟨2 ^ p.bits - 1, Nat.sub_lt hpow Nat.one_pos, ?_⟩
    rw [hx]
    push_cast
    rfl
  obtain ⟨w, hw⟩ := hl _ (hmem _ hlast)
  refine ⟨x, ⟨hx, ?_⟩, hlast⟩
  have := w.isLt
  omega

/-- When all pieces are aligned, what is read out of the lines is the list. -/
theorem covers_iff_of_aligned {l : List Int} (hl : ∀ a ∈ l, ∃ w : InstrT, a = (w.toNat : Int))
    (ha : ∀ p ∈ cut l, Aligned p) (k : InstrT) :
    (∃ p ∈ cut l, Covers p k) ↔ (k.toNat : Int) ∈ l := by
  conv_rhs => rw [← Progression.flatMap_elements_cut (l := l), List.mem_flatMap]
  apply exists_congr
  intro p
  apply and_congr_right
  intro hp
  obtain ⟨x, hx, _⟩ := exists_fits hl hp
  exact hx.covers_iff_mem (ha p hp)

/-- When nothing of an increasing list is lost, all pieces are aligned. The later pieces are, since
the first one has nothing to say about them; so they cannot supply its last element. -/
theorem aligned_of_covers {l : List Int} (hl : ∀ a ∈ l, ∃ w : InstrT, a = (w.toNat : Int))
    (hsort : l.Pairwise (· < ·))
    (hcov : ∀ k : InstrT, (k.toNat : Int) ∈ l → ∃ p ∈ cut l, Covers p k) :
    ∀ p ∈ cut l, Aligned p := by
  fun_induction cut l with
  | case1 =>
    rintro p hp
    cases hp
  | case2 a l ih =>
    have hfirst : front a l ∈ cut (a :: l) := by
      rw [cut]
      exact List.mem_cons_self
    obtain ⟨x, hx, hlast⟩ := exists_fits hl hfirst
    have happ := Progression.front_elements_append (x := a) (l := l)
    rw [← happ] at hsort hl
    obtain ⟨_, hsort', hlt⟩ := List.pairwise_append.1 hsort
    have hl' : ∀ b ∈ l.drop (2 ^ (front a l).bits - 1), ∃ w : InstrT, b = (w.toNat : Int) :=
      fun b hb => hl b (List.mem_append_right _ hb)
    have hrest := ih hl' hsort' <| by
      intro k hk
      obtain ⟨p, hp, hcp⟩ := hcov k (happ ▸ List.mem_append_right _ hk)
      rcases List.mem_cons.1 hp with rfl | hp
      · have h1 := hx.le_of_covers hcp
        have h2 := hlt _ hlast _ hk
        omega
      · exact ⟨p, hp, hcp⟩
    refine List.forall_mem_cons.2 ⟨?_, hrest⟩
    obtain ⟨w, hw⟩ := hl _ (List.mem_append_left _ hlast)
    obtain ⟨p, hp, hcp⟩ := hcov w (happ ▸ List.mem_append_left _ (hw ▸ hlast))
    have hw : w.toNat = x.toNat + (2 ^ (front a l).bits - 1) * 2 ^ (front a l).shift := by omega
    rcases List.mem_cons.1 hp with rfl | hp
    · exact hx.aligned_of_covers hcp hw
    · have hk := (covers_iff_of_aligned hl' hrest w).1 ⟨p, hp, hcp⟩
      have h2 := hlt _ hlast _ hk
      omega

/-- What the second pass reads out of the lines for a list of words is that list. -/
def Faithful (words : List InstrT) : Prop :=
  ∃ lines, firstPass (words.map fun w => (w.toNat : Int)) = some lines ∧
    ∀ k, (∃ l ∈ lines, k ∈ (readLine l).pattern) ↔ k ∈ words

theorem mem_values {words : List InstrT} {k : InstrT} :
    (k.toNat : Int) ∈ words.map (fun w => (w.toNat : Int)) ↔ k ∈ words := by
  rw [List.mem_map]
  refine ⟨fun ⟨w, hw, h⟩ => ?_, fun h => ⟨k, h, rfl⟩⟩
  rwa [← BitVec.eq_of_toNat_eq (Int.ofNat.inj h)]

/-- The second pass reads an increasing list of words back exactly when each piece of it is
aligned. -/
theorem faithful_iff (words : List InstrT) (hsort : words.Pairwise (· < ·))
    (hlen : 2 ≤ words.length) :
    Faithful words ↔ ∀ p ∈ cut (words.map fun w => (w.toNat : Int)), Aligned p := by
  have hl : ∀ a ∈ words.map (fun w => (w.toNat : Int)), ∃ w : InstrT, a = (w.toNat : Int) := by
    intro a ha
    obtain ⟨w, _, rfl⟩ := List.mem_map.1 ha
    exact ⟨w, rfl⟩
  have hcovers : ∀ k, (∃ l ∈ (cut (words.map fun w => (w.toNat : Int))).map line,
      k ∈ (readLine l).pattern) ↔ ∃ p ∈ cut (words.map fun w => (w.toNat : Int)), Covers p k := by
    intro k
    simp only [List.mem_map, exists_exists_and_eq_and]
    rfl
  rw [Faithful, firstPass_eq_cut (by rwa [List.length_map])]
  simp only [Option.some.injEq, exists_eq_left', hcovers]
  refine ⟨fun h => aligned_of_covers hl ?_ fun k hk => (h k).2 (mem_values.1 hk), fun h k => ?_⟩
  · rw [List.pairwise_map]
    exact hsort.imp fun h => Int.ofNat_lt.2 h
  · rw [covers_iff_of_aligned hl h, mem_values]

/-- Two words and four in steps of 4. -/
theorem faithful_aligned : Faithful [2, 3, 16, 20, 24, 28] := by
  apply (faithful_iff _ (by decide) (by decide)).2
  decide +kernel

/-- The run 1, 2 is written as the base 1 with bit 0 in the mask, and read as 0 and 1. -/
theorem not_faithful_odd : [1, 2].Pairwise (fun a b : InstrT => a < b) ∧ ¬ Faithful [1, 2] := by
  refine ⟨by decide, fun ⟨lines, hlines, h⟩ => ?_⟩
  have hrun : firstPass ([1, 2].map fun w : InstrT => (w.toNat : Int)) = some [⟨1, 1⟩] := by
    decide +kernel
  cases hrun.symm.trans hlines
  have := (h 0).1 ⟨⟨1, 1⟩, List.mem_singleton_self _, by decide⟩
  exact absurd this (by decide)

end IScanU.FirstPass
