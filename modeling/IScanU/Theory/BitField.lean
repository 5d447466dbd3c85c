import Mathlib.Data.BitVec
import Mathlib.Tactic.Simps.Basic

/-! # Fields of instruction words

An operand of an instruction is scattered over its word: a layout lists the pieces, each with its
place in the word and its place in the operand. `gather` reads an operand, `scatter` writes it. -/

namespace IScanU

/-- Bits `[src, src + len)` of the word are bits `[dst, dst + len)` of the operand. -/
structure BitPiece where
  src : Nat
  len : Nat
  dst : Nat
deriving DecidableEq, Repr

namespace BitPiece

/-- The same bits the other way. -/
@[simps] def swap (p : BitPiece) : BitPiece := ⟨p.dst, p.len, p.src⟩

/-- The piece of a word, shifted to its place in the operand. -/
def get (p : BitPiece) (w : BitVec n) : BitVec n :=
  w <<< (n - (p.src + p.len)) >>> (n - p.len) <<< p.dst

/-- The same with the highest bit of the piece continued to the left. -/
def getSigned (p : BitPiece) (w : BitVec n) : BitVec n :=
  (w <<< (n - (p.src + p.len))).sshiftRight (n - p.len) <<< p.dst

/-- The piece lies inside words of `n` bits. -/
def Fits (n : Nat) (p : BitPiece) : Prop := 0 < p.len ∧ p.src + p.len ≤ n ∧ p.dst + p.len ≤ n

instance : Decidable (Fits n p) := inferInstanceAs (Decidable (_ ∧ _ ∧ _))

/-- Bit `i` of the operand comes from the piece. -/
def covers (p : BitPiece) (i : Nat) : Bool := decide (p.dst ≤ i) && decide (i < p.dst + p.len)

theorem covers_iff {p : BitPiece} {i : Nat} : p.covers i = true ↔ p.dst ≤ i ∧ i < p.dst + p.len := by
  simp [covers]

/-- The two pieces share no bit of the word. -/
def Apart (p q : BitPiece) : Prop := p.src + p.len ≤ q.src ∨ q.src + q.len ≤ p.src

instance : Decidable (Apart p q) := inferInstanceAs (Decidable (_ ∨ _))

theorem Fits.swap {p : BitPiece} (h : p.Fits n) : p.swap.Fits n := ⟨h.1, h.2.2, h.2.1⟩

theorem getLsbD_get {p : BitPiece} (h : p.Fits n) (w : BitVec n) (i : Nat) :
    (p.get w).getLsbD i = (p.covers i && w.getLsbD (p.src + (i - p.dst))) := by
  obtain ⟨_, hsrc, hdst⟩ := h
  rw [get, BitVec.getLsbD_shiftLeft, BitVec.getLsbD_ushiftRight, BitVec.getLsbD_shiftLeft,
    Bool.eq_iff_iff]
  simp only [covers, Bool.and_eq_true, Bool.not_eq_true', decide_eq_true_eq, decide_eq_false_iff_not]
  constructor
  · rintro ⟨⟨hn, hd⟩, ⟨h1, h2⟩, h3⟩
    refine ⟨by omega, ?_⟩
    rwa [show n - p.len + (i - p.dst) - (n - (p.src + p.len)) = p.src + (i - p.dst) by omega] at h3
  · rintro ⟨⟨hd, hl⟩, h3⟩
    refine ⟨by omega, by omega, ?_⟩
    rwa [show n - p.len + (i - p.dst) - (n - (p.src + p.len)) = p.src + (i - p.dst) by omega]

/-- Beyond the piece its highest bit is repeated. -/
theorem getLsbD_getSigned {p : BitPiece} (h : p.Fits n) (w : BitVec n) {i : Nat} (hi : i < n) :
    (p.getSigned w).getLsbD i =
      (decide (p.dst ≤ i) && w.getLsbD (p.src + min (i - p.dst) (p.len - 1))) := by
  obtain ⟨hpos, hsrc, hdst⟩ := h
  rw [getSigned, BitVec.getLsbD_shiftLeft, BitVec.getLsbD_sshiftRight, BitVec.msb_eq_getLsbD_last,
    BitVec.getLsbD_shiftLeft, BitVec.getLsbD_shiftLeft]
  by_cases hd : p.dst ≤ i
  · by_cases hin : i - p.dst < p.len
    · have h1 : n - p.len + (i - p.dst) - (n - (p.src + p.len)) = p.src + (i - p.dst) := by omega
      have h2 : ¬n - p.len + (i - p.dst) < n - (p.src + p.len) := by omega
      have h3 : n - p.len + (i - p.dst) < n := by omega
      have h4 : ¬n ≤ i - p.dst := by omega
      rw [Nat.min_eq_left (by omega)]
      simp [hi, hd, h1, h2, h3, h4, Nat.not_lt.2 hd]
    · have h1 : n - 1 - (n - (p.src + p.len)) = p.src + (p.len - 1) := by omega
      have h2 : ¬n - 1 < n - (p.src + p.len) := by omega
      have h3 : ¬n - p.len + (i - p.dst) < n := by omega
      have h4 : ¬n ≤ i - p.dst := by omega
      have h5 : n - 1 < n := by omega
      rw [Nat.min_eq_right (by omega)]
      simp [hi, hd, h1, h2, h3, h4, h5, Nat.not_lt.2 hd]
  · simp [hd, Nat.lt_of_not_le hd]

/-- The number a piece contributes to the operand. -/
theorem toNat_get {p : BitPiece} (h : p.Fits n) (w : BitVec n) :
    (p.get w).toNat = w.toNat / 2 ^ p.src % 2 ^ p.len * 2 ^ p.dst := by
  apply Nat.eq_of_testBit_eq
  intro i
  rw [BitVec.testBit_toNat, getLsbD_get h, Nat.testBit_mul_two_pow, Nat.testBit_mod_two_pow,
    Nat.testBit_div_two_pow, BitVec.testBit_toNat, covers]
  by_cases hd : p.dst ≤ i
  · have hlen : i < p.dst + p.len ↔ i - p.dst < p.len := by omega
    simp only [hd, hlen, Nat.add_comm p.src, decide_true, Bool.true_and]
  · simp [hd]

/-- The mask after a right shift. -/
theorem ushiftRight_and_eq_get {p : BitPiece} (h : p.Fits n) (hdst : p.dst ≤ p.src) (mask : BitVec n)
    (hmask : ∀ i < n, mask.getLsbD i = p.covers i) (w : BitVec n) :
    w >>> (p.src - p.dst) &&& mask = p.get w := by
  apply BitVec.eq_of_getLsbD_eq
  intro i hi
  rw [BitVec.getLsbD_and, BitVec.getLsbD_ushiftRight, hmask i hi, getLsbD_get h]
  cases hin : p.covers i with
  | false => rw [Bool.and_false, Bool.false_and]
  | true =>
    rw [covers_iff] at hin
    rw [Bool.and_true, Bool.true_and, show p.src - p.dst + i = p.src + (i - p.dst) by omega]

theorem get_or (p : BitPiece) (v w : BitVec n) : p.get (v ||| w) = p.get v ||| p.get w := by
  simp only [get, BitVec.shiftLeft_or_distrib, BitVec.ushiftRight_or_distrib]

end BitPiece

abbrev Layout := List BitPiece

namespace Layout

/-- Read an operand. -/
def gather (f : Layout) (w : BitVec n) : BitVec n := f.foldr (fun p v => p.get w ||| v) 0#n

/-- Write an operand into a word that is otherwise zero. -/
def scatter (f : Layout) (v : BitVec n) : BitVec n := gather (f.map BitPiece.swap) v

def Fits (n : Nat) (f : Layout) : Prop := ∀ p ∈ f, BitPiece.Fits n p

instance : Decidable (Fits n f) := inferInstanceAs (Decidable (∀ p ∈ f, _))

/-- Bit `i` of the operand comes from one of the pieces. -/
def covers (f : Layout) (i : Nat) : Bool := f.any (·.covers i)

/-- The two operands share no bit of the word. -/
def Apart (f g : Layout) : Prop := ∀ p ∈ f, ∀ q ∈ g, BitPiece.Apart p q

instance : Decidable (Apart f g) := inferInstanceAs (Decidable (∀ p ∈ f, ∀ q ∈ g, _))

/-- No bit of the word is used twice. -/
def Simple (f : Layout) : Prop := f.Pairwise BitPiece.Apart

instance : Decidable (Simple f) := inferInstanceAs (Decidable (List.Pairwise _ _))

@[simp] theorem gather_nil (w : BitVec n) : gather [] w = 0#n := rfl

@[simp] theorem gather_cons (p : BitPiece) (f : Layout) (w : BitVec n) :
    gather (p :: f) w = p.get w ||| gather f w := rfl

theorem Fits.swap {f : Layout} (h : Fits n f) : Fits n (f.map BitPiece.swap) := by
  intro p hp
  obtain ⟨q, hq, rfl⟩ := List.mem_map.1 hp
  exact (h q hq).swap

theorem getLsbD_gather {f : Layout} (h : Fits n f) (w : BitVec n) (i : Nat) :
    (gather f w).getLsbD i = f.any fun p => p.covers i && w.getLsbD (p.src + (i - p.dst)) := by
  induction f with
  | nil => simp
  | cons p f ih =>
    rw [gather_cons, BitVec.getLsbD_or, BitPiece.getLsbD_get (h p (List.mem_cons_self ..)),
      ih fun q hq => h q (List.mem_cons_of_mem _ hq), List.any_cons]

/-- Where no piece lies an operand is zero. -/
theorem getLsbD_gather_of_not_covers {f : Layout} (h : Fits n f) (w : BitVec n) {i : Nat}
    (hi : f.covers i = false) : (gather f w).getLsbD i = false := by
  rw [getLsbD_gather h, List.any_eq_false]
  intro p hp
  have := List.any_eq_false.1 hi p hp
  simp [this]

theorem gather_or (f : Layout) (v w : BitVec n) :
    gather f (v ||| w) = gather f v ||| gather f w := by
  induction f with
  | nil => simp
  | cons p f ih =>
    rw [gather_cons, gather_cons, gather_cons, ih, BitPiece.get_or]
    ac_rfl

theorem getLsbD_scatter {f : Layout} (h : Fits n f) (v : BitVec n) (j : Nat) :
    (scatter f v).getLsbD j = true ↔
      ∃ p ∈ f, p.src ≤ j ∧ j < p.src + p.len ∧ v.getLsbD (p.dst + (j - p.src)) = true := by
  rw [scatter, getLsbD_gather h.swap, List.any_map, List.any_eq_true]
  simp [BitPiece.covers, and_assoc]

/-- An operand does not see what is written beside it. -/
theorem gather_scatter_of_apart {f g : Layout} (hf : Fits n f) (hg : Fits n g) (h : Apart f g)
    (v : BitVec n) : gather f (scatter g v) = 0#n := by
  apply BitVec.eq_of_getLsbD_eq
  intro i _
  rw [getLsbD_gather hf, BitVec.getLsbD_zero, List.any_eq_false]
  intro p hp
  rw [Bool.and_eq_true, BitPiece.covers_iff]
  rintro ⟨hin, hbit⟩
  obtain ⟨q, hq, h1, h2, _⟩ := (getLsbD_scatter hg v _).1 hbit
  rcases h p hp q hq with h | h <;> omega

/-- The pieces of a simple layout are told apart by the bit of the word. -/
theorem Simple.eq_of_mem {f : Layout} (h : Simple f) (hp : p ∈ f) (hq : q ∈ f)
    (hp' : p.src ≤ j ∧ j < p.src + p.len) (hq' : q.src ≤ j ∧ j < q.src + q.len) : p = q := by
  induction h with
  | nil => exact absurd hp List.not_mem_nil
  | cons hhead _ ih =>
    rcases List.mem_cons.1 hp with rfl | htail <;> rcases List.mem_cons.1 hq with rfl | htail'
    · rfl
    · rcases hhead q htail' with h | h <;> omega
    · rcases hhead p htail with h | h <;> omega
    · exact ih htail htail'

/-- What has been written is read back, as far as the pieces reach. -/
theorem getLsbD_gather_scatter {f : Layout} (hf : Fits n f) (h : Simple f) (v : BitVec n)
    (i : Nat) : (gather f (scatter f v)).getLsbD i = (f.covers i && v.getLsbD i) := by
  rw [getLsbD_gather hf, Bool.eq_iff_iff, List.any_eq_true, Bool.and_eq_true]
  constructor
  · rintro ⟨p, hp, hbit⟩
    rw [Bool.and_eq_true, BitPiece.covers_iff] at hbit
    obtain ⟨q, hq, h1, h2, hv⟩ := (getLsbD_scatter hf v _).1 hbit.2
    obtain rfl := h.eq_of_mem hp hq (j := p.src + (i - p.dst)) (by omega) ⟨h1, h2⟩
    rw [show p.dst + (p.src + (i - p.dst) - p.src) = i by omega] at hv
    exact ⟨List.any_eq_true.2 ⟨p, hp, BitPiece.covers_iff.2 hbit.1⟩, hv⟩
  · rintro ⟨hcovers, hv⟩
    obtain ⟨p, hp, hin⟩ := List.any_eq_true.1 hcovers
    have hin' := BitPiece.covers_iff.1 hin
    refine ⟨p, hp, ?_⟩
    rw [hin, Bool.true_and, getLsbD_scatter hf]
    refine ⟨p, hp, by omega, by omega, ?_⟩
    rwa [show p.dst + (p.src + (i - p.dst) - p.src) = i by omega]

/-- **Round trip** of an operand. -/
theorem gather_scatter {f : Layout} (hf : Fits n f) (h : Simple f) {v : BitVec n}
    (hv : ∀ i < n, v.getLsbD i = true → f.covers i = true) : gather f (scatter f v) = v := by
  apply BitVec.eq_of_getLsbD_eq
  intro i hi
  rw [getLsbD_gather_scatter hf h]
  cases hb : v.getLsbD i with
  | false => exact Bool.and_false _
  | true => rw [hv i hi hb, Bool.and_true]

/-! ## Signed operands -/

/-- Read an operand whose first piece holds the sign. -/
def gatherSigned (p : BitPiece) (f : Layout) (w : BitVec n) : BitVec n := p.getSigned w ||| gather f w

/-- The highest piece continued to the left is a sign extension. -/
theorem setWidth_gatherSigned {p : BitPiece} {f : Layout} (h : Fits n (p :: f))
    (htop : ∀ q ∈ f, q.dst + q.len ≤ p.dst) (hm : m ≤ n) (w : BitVec n) :
    (gatherSigned p f w).setWidth m =
      ((gather (p :: f) w).setWidth (p.dst + p.len)).signExtend m := by
  have hp := h p (List.mem_cons_self ..)
  have hf : Fits n f := fun q hq => h q (List.mem_cons_of_mem _ hq)
  have hlow : ∀ i, p.dst ≤ i → (gather f w).getLsbD i = false := by
    intro i hi
    refine getLsbD_gather_of_not_covers hf w (List.any_eq_false.2 fun q hq => ?_)
    have := htop q hq
    rw [BitPiece.covers_iff]
    omega
  obtain ⟨hpos, hsrc, hdst⟩ := hp
  apply BitVec.eq_of_getLsbD_eq
  intro i hi
  have hin : i < n := Nat.lt_of_lt_of_le hi hm
  rw [BitVec.getLsbD_setWidth, BitVec.getLsbD_signExtend, BitVec.msb_eq_getLsbD_last, gatherSigned,
    BitVec.getLsbD_or, BitPiece.getLsbD_getSigned ⟨hpos, hsrc, hdst⟩ w hin, BitVec.getLsbD_setWidth,
    BitVec.getLsbD_setWidth, gather_cons, BitVec.getLsbD_or, BitVec.getLsbD_or,
    BitPiece.getLsbD_get ⟨hpos, hsrc, hdst⟩, BitPiece.getLsbD_get ⟨hpos, hsrc, hdst⟩,
    hlow (p.dst + p.len - 1) (by omega)]
  have hlast : p.covers (p.dst + p.len - 1) = true := BitPiece.covers_iff.2 (by omega)
  by_cases hd : p.dst ≤ i
  · rw [hlow i hd]
    by_cases hl : i < p.dst + p.len
    · have : p.covers i = true := BitPiece.covers_iff.2 ⟨hd, hl⟩
      rw [Nat.min_eq_left (by omega)]
      simp [hi, hd, hl, this]
    · rw [Nat.min_eq_right (by omega), show p.dst + p.len - 1 - p.dst = p.len - 1 by omega]
      simp [hi, hd, hl, hlast, show p.dst + p.len - 1 < p.dst + p.len by omega]
  · have : p.covers i = false := by
      rw [Bool.eq_false_iff, Ne, BitPiece.covers_iff]
      omega
    simp [hi, hd, this, show i < p.dst + p.len by omega]

/-- An operand is no longer than its pieces reach. -/
theorem toNat_gather_lt {f : Layout} (h : Fits n f) (htop : ∀ p ∈ f, p.dst + p.len ≤ k)
    (w : BitVec n) : (gather f w).toNat < 2 ^ k := by
  apply Nat.lt_pow_two_of_testBit
  intro i hi
  rw [BitVec.testBit_toNat]
  refine getLsbD_gather_of_not_covers h w (List.any_eq_false.2 fun p hp => ?_)
  have := htop p hp
  rw [BitPiece.covers_iff]
  omega

/-- No bit of the operand is written twice. -/
def Disjoint (f : Layout) : Prop := Simple (f.map BitPiece.swap)

instance : Decidable (Disjoint f) := inferInstanceAs (Decidable (Simple _))

/-- **The value of an operand** is the sum of its pieces. -/
theorem toNat_gather {f : Layout} (h : Fits n f) (hdisjoint : Disjoint f) (w : BitVec n) :
    (gather f w).toNat = (f.map fun p => w.toNat / 2 ^ p.src % 2 ^ p.len * 2 ^ p.dst).sum := by
  induction f with
  | nil => simp
  | cons p f ih =>
    have hp := h p (List.mem_cons_self ..)
    have hf : Fits n f := fun q hq => h q (List.mem_cons_of_mem _ hq)
    obtain ⟨hhead, htail⟩ := List.pairwise_cons.1 hdisjoint
    have hzero : p.get w &&& gather f w = 0#n := by
      apply BitVec.eq_of_getLsbD_eq
      intro i _
      rw [BitVec.getLsbD_and, BitVec.getLsbD_zero, BitPiece.getLsbD_get hp]
      cases hin : p.covers i with
      | false => simp
      | true =>
        rw [getLsbD_gather_of_not_covers hf, Bool.and_false]
        refine List.any_eq_false.2 fun q hq => ?_
        have := hhead q.swap (List.mem_map_of_mem hq)
        simp only [BitPiece.Apart, BitPiece.swap_src, BitPiece.swap_len] at this
        rw [BitPiece.covers_iff] at hin ⊢
        omega
    rw [gather_cons, ← BitVec.add_eq_or_of_and_eq_zero _ _ hzero,
      BitVec.toNat_add_of_and_eq_zero hzero, BitPiece.toNat_get hp, ih hf htail, List.map_cons,
      List.sum_cons]

/-- An operand is zero when all its pieces are. -/
theorem gather_eq_zero_iff {f : Layout} (h : Fits n f) (w : BitVec n) :
    gather f w = 0#n ↔ ∀ p ∈ f, w.toNat / 2 ^ p.src % 2 ^ p.len = 0 := by
  induction f with
  | nil => simp
  | cons p f ih =>
    have hget : p.get w = 0#n ↔ w.toNat / 2 ^ p.src % 2 ^ p.len = 0 := by
      rw [← BitVec.toNat_inj, BitPiece.toNat_get (h p (List.mem_cons_self ..)), BitVec.toNat_ofNat,
        Nat.zero_mod, Nat.mul_eq_zero, or_iff_left (Nat.two_pow_pos _).ne']
    rw [gather_cons, BitVec.or_eq_zero_iff, hget, ih fun q hq => h q (List.mem_cons_of_mem _ hq),
      List.forall_mem_cons]

/-! ## Words put together from fields -/

/-- The layout has a place for every bit of the value. -/
def Holds (f : Layout) (v : BitVec n) : Prop := ∀ i < n, v.getLsbD i = true → f.covers i = true

/-- The layout reaches from bit `l` to bit `k`, and the value as well. -/
theorem holds_of_lt {f : Layout} {v : BitVec n} (hlt : v.toNat < 2 ^ k)
    (hlow : ∀ i < l, v.getLsbD i = false) (hcovers : ∀ i < k, l ≤ i → f.covers i = true) :
    f.Holds v := by
  intro i _ hbit
  refine hcovers i ?_ ?_
  · by_contra hk
    rw [← BitVec.testBit_toNat, Nat.testBit_lt_two_pow (Nat.lt_of_lt_of_le hlt
      (Nat.pow_le_pow_right (by decide) (Nat.le_of_not_lt hk)))] at hbit
    exact Bool.false_ne_true hbit
  · by_contra hl
    rw [hlow i (Nat.lt_of_not_le hl)] at hbit
    exact Bool.false_ne_true hbit

/-- The word `m` with operands written into it. -/
def assemble (m : BitVec n) (fields : List (Layout × BitVec n)) : BitVec n :=
  fields.foldr (fun f w => scatter f.1 f.2 ||| w) m

@[simp] theorem assemble_nil (m : BitVec n) : assemble m [] = m := rfl

@[simp] theorem assemble_cons (m : BitVec n) (f : Layout × BitVec n)
    (fields : List (Layout × BitVec n)) :
    assemble m (f :: fields) = scatter f.1 f.2 ||| assemble m fields := rfl

theorem Apart.symm {f g : Layout} (h : Apart f g) : Apart g f :=
  fun p hp q hq => (h q hq p hp).symm

section
variable {fields : List (Layout × BitVec n)} {m : BitVec n}

/-- What lies beside all the fields is read from `m`. -/
theorem gather_assemble_of_apart {g : Layout} (hg : Fits n g) (hfits : ∀ f ∈ fields, Fits n f.1)
    (hapart : ∀ f ∈ fields, Apart g f.1) : gather g (assemble m fields) = gather g m := by
  induction fields with
  | nil => rfl
  | cons f fields ih =>
    rw [List.forall_mem_cons] at hfits hapart
    rw [assemble_cons, gather_or, gather_scatter_of_apart hg hfits.1 hapart.1, BitVec.zero_or,
      ih hfits.2 hapart.2]

/-- **Every field is read back** where `m` leaves its place free. -/
theorem gather_assemble (hfits : ∀ f ∈ fields, Fits n f.1 ∧ Simple f.1)
    (hholds : ∀ f ∈ fields, Holds f.1 f.2) (hapart : fields.Pairwise fun f g => Apart f.1 g.1)
    {f : Layout × BitVec n} (hf : f ∈ fields) (hm : gather f.1 m = 0#n) :
    gather f.1 (assemble m fields) = f.2 := by
  induction fields with
  | nil => exact absurd hf List.not_mem_nil
  | cons g fields ih =>
    rw [List.forall_mem_cons] at hfits hholds
    obtain ⟨hhead, htail⟩ := List.pairwise_cons.1 hapart
    rw [assemble_cons, gather_or]
    rcases List.mem_cons.1 hf with rfl | hf
    · rw [gather_scatter hfits.1.1 hfits.1.2 hholds.1,
        gather_assemble_of_apart hfits.1.1 (fun g hg => (hfits.2 g hg).1) hhead, hm,
        BitVec.or_zero]
    · rw [gather_scatter_of_apart (hfits.2 f hf).1 hfits.1.1 (hhead f hf).symm, BitVec.zero_or,
        ih hfits.2 hholds.2 htail hf]

/-- A masked part of the word that lies beside all the fields. -/
theorem ushiftRight_and_assemble {p : BitPiece} (hp : p.Fits n) (hdst : p.dst ≤ p.src)
    (mask : BitVec n) (hmask : ∀ i < n, mask.getLsbD i = p.covers i)
    (hfits : ∀ f ∈ fields, Fits n f.1) (hapart : ∀ f ∈ fields, Apart [p] f.1) :
    assemble m fields >>> (p.src - p.dst) &&& mask = m >>> (p.src - p.dst) &&& mask := by
  have hgather := gather_assemble_of_apart (m := m) (g := [p])
    (fun q hq => List.mem_singleton.1 hq ▸ hp) hfits hapart
  rw [gather_cons, gather_cons, gather_nil, gather_nil, BitVec.or_zero, BitVec.or_zero] at hgather
  rw [BitPiece.ushiftRight_and_eq_get hp hdst mask hmask, hgather,
    BitPiece.ushiftRight_and_eq_get hp hdst mask hmask]

/-- The word is no longer than `m` and the places of the fields. -/
theorem toNat_assemble_lt (hfits : ∀ f ∈ fields, Fits n f.1)
    (htop : ∀ f ∈ fields, ∀ p ∈ f.1, p.src + p.len ≤ k) (hm : m.toNat < 2 ^ k) :
    (assemble m fields).toNat < 2 ^ k := by
  induction fields with
  | nil => exact hm
  | cons f fields ih =>
    rw [List.forall_mem_cons] at hfits htop
    rw [assemble_cons, BitVec.toNat_or]
    refine Nat.or_lt_two_pow (toNat_gather_lt hfits.1.swap (fun q hq => ?_) _)
      (ih hfits.2 htop.2)
    obtain ⟨p, hp, rfl⟩ := List.mem_map.1 hq
    exact htop.1 p hp

end

end Layout

/-! ## Ranges of signed values -/

/-- Nothing but zero is extended to zero. -/
theorem signExtend_setWidth_eq_zero_iff {x : BitVec n} (h : x.toNat < 2 ^ k) (hkm : k ≤ m) :
    (x.setWidth k).signExtend m = 0#m ↔ x = 0#n := by
  constructor
  · intro hzero
    apply BitVec.eq_of_getLsbD_eq
    intro i _
    rw [BitVec.getLsbD_zero]
    by_cases hik : i < k
    · have hbit : ((x.setWidth k).signExtend m).getLsbD i = false := by
        rw [hzero, BitVec.getLsbD_zero]
      rw [BitVec.getLsbD_signExtend, BitVec.getLsbD_setWidth] at hbit
      simpa [hik, Nat.lt_of_lt_of_le hik hkm] using hbit
    · rw [← BitVec.testBit_toNat]
      exact Nat.testBit_lt_two_pow (Nat.lt_of_lt_of_le h
        (Nat.pow_le_pow_right (by decide) (Nat.le_of_not_lt hik)))
  · rintro rfl
    apply BitVec.eq_of_getLsbD_eq
    intro i _
    simp [BitVec.getLsbD_signExtend, BitVec.msb_eq_getLsbD_last]

/-- A value that `k` bits and their sign hold. -/
def SignedFits (k : Nat) (x : BitVec n) : Prop := (x.setWidth k).signExtend n = x

instance : Decidable (SignedFits k x) := inferInstanceAs (Decidable (_ = _))

theorem signedFits_of_getLsbD {x : BitVec n} (hpos : 0 < k)
    (h : ∀ i < n, k ≤ i → x.getLsbD i = x.getLsbD (k - 1)) : SignedFits k x := by
  apply BitVec.eq_of_getLsbD_eq
  intro i hi
  rw [BitVec.getLsbD_signExtend, BitVec.msb_eq_getLsbD_last, BitVec.getLsbD_setWidth,
    BitVec.getLsbD_setWidth]
  by_cases hk : i < k
  · simp [hi, hk]
  · rw [h i hi (Nat.le_of_not_lt hk)]
    simp [hi, hk, show k - 1 < k by omega]

/-- A sign extension fits where its argument did. -/
theorem signedFits_signExtend (y : BitVec j) (hpos : 0 < j) (hjk : j ≤ k) (hkn : k ≤ n) :
    SignedFits k (y.signExtend n) := by
  refine signedFits_of_getLsbD (by omega) fun i hi hk => ?_
  rw [BitVec.getLsbD_signExtend, BitVec.getLsbD_signExtend]
  by_cases hlast : k - 1 < j
  · have hj : k - 1 = j - 1 := by omega
    simp [hi, show ¬i < j by omega, show j - 1 < n by omega, BitVec.msb_eq_getLsbD_last, hj]
  · simp [hi, show ¬i < j by omega, show k - 1 < n by omega, hlast]

/-- A small natural number is its own sign extension. -/
theorem signedFits_of_lt {x : BitVec n} (hpos : 0 < k) (h : x.toNat < 2 ^ (k - 1)) :
    SignedFits k x := by
  refine signedFits_of_getLsbD hpos fun i _ hk => ?_
  have hzero : ∀ j, k - 1 ≤ j → x.getLsbD j = false := fun j hj => by
    rw [← BitVec.testBit_toNat]
    exact Nat.testBit_lt_two_pow (Nat.lt_of_lt_of_le h (Nat.pow_le_pow_right (by decide) hj))
  rw [hzero i (by omega), hzero (k - 1) (Nat.le_refl _)]

theorem toInt_of_signedFits {x : BitVec n} (hkn : k ≤ n) (h : SignedFits k x) :
    x.toInt = (x.setWidth k).toInt := by
  rw [← BitVec.toInt_signExtend_of_le hkn, h]

theorem toInt_lt_of_signedFits {x : BitVec n} (hkn : k ≤ n) (h : SignedFits k x) :
    2 * x.toInt < 2 ^ k := by
  rw [toInt_of_signedFits hkn h]
  exact BitVec.two_mul_toInt_lt

theorem le_toInt_of_signedFits {x : BitVec n} (hkn : k ≤ n) (h : SignedFits k x) :
    -2 ^ k ≤ 2 * x.toInt := by
  rw [toInt_of_signedFits hkn h]
  exact BitVec.le_two_mul_toInt

end IScanU
