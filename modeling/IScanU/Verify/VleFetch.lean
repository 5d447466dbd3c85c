import IScanU.RV64GC
import IScanU.Verify.Exhaustive

/-! # The variable-length fetch stage

Spec lemmas for `vleExhaustive`: what the two loops find, in terms of the first hit in an interval,
and from them the equation of the stage in each of its modes. -/

namespace IScanU.RV64GC

/-! ## Halves of a word -/

def low (w : InstrT) : InstrT := w &&& partMask.1

def high (w : InstrT) : InstrT := (w &&& partMask.2) >>> 16

@[simp] theorem toNat_low (w : InstrT) : (low w).toNat = w.toNat % 2 ^ 16 := by
  rw [low, BitVec.toNat_and]
  exact Nat.and_two_pow_sub_one_eq_mod w.toNat 16

@[simp] theorem toNat_high (w : InstrT) : (high w).toNat = w.toNat / 2 ^ 16 := by
  have hmask : (partMask.2 >>> 16).toNat = 2 ^ 16 - 1 := by decide
  rw [high, BitVec.ushiftRight_and_distrib, BitVec.toNat_and, hmask,
    Nat.and_two_pow_sub_one_eq_mod, BitVec.toNat_ushiftRight, Nat.shiftRight_eq_div_pow]
  omega

theorem toNat_construct {p h : InstrT} (hp : p.toNat < 2 ^ 16) (hh : h.toNat < 2 ^ 16) :
    (construct p h).toNat = h.toNat * 2 ^ 16 + p.toNat := by
  rw [construct, BitVec.toNat_or, BitVec.toNat_shiftLeft, Nat.mod_eq_of_lt, Nat.or_comm,
    ← Nat.shiftLeft_add_eq_or_of_lt hp, Nat.shiftLeft_eq]
  rw [Nat.shiftLeft_eq]
  omega

theorem low_construct {p h : InstrT} (hp : p.toNat < 2 ^ 16) (hh : h.toNat < 2 ^ 16) :
    low (construct p h) = p := by
  apply BitVec.eq_of_toNat_eq
  rw [toNat_low, toNat_construct hp hh]
  omega

theorem low_of_lt {p : InstrT} (hp : p.toNat < 2 ^ 16) : low p = p := by
  apply BitVec.eq_of_toNat_eq
  rw [toNat_low, Nat.mod_eq_of_lt hp]

theorem construct_low_high (w : InstrT) : construct (low w) (high w) = w := by
  apply BitVec.eq_of_toNat_eq
  have := w.isLt
  rw [toNat_construct (by rw [toNat_low]; omega) (by rw [toNat_high]; omega), toNat_low, toNat_high]
  omega

/-! ## The loops -/

/-- The high halves after `h` that complete `p` to an instruction that is not blacklisted. -/
def highs (search : InstrT → Bool) (p h : InstrT) : List InstrT :=
  (Cyclic.ioc h partMask.1).filter fun h => !search (construct p h)

section
variable {search : InstrT → Bool}

/-- The loop over the low halves looks for the first pending instruction. -/
theorem lowLoop_spec {part0 temp : InstrT} {data : Scanner}
    (hfinal : data.finalInstruction.toNat < 2 ^ 16) (hle : part0 ≤ data.finalInstruction)
    (htemp : low temp = part0) :
    ∃ n, lowLoop search part0 temp data =
      ((pending search part0 data.finalInstruction).head?, data.count n) := by
  generalize hf : data.finalInstruction = final at hfinal hle ⊢
  induction part0 using Cyclic.walk_induction (b := final) generalizing temp data with
  | step part0 ih =>
    have hexit : temp &&& partMask.1 = data.finalInstruction &&& partMask.1 ↔ part0 = final := by
      rw [hf, ← htemp, ← low_of_lt hfinal]
      simp [low, BitVec.and_assoc]
    rw [lowLoop]
    by_cases h : part0 = final
    · rw [if_pos (hexit.mpr h), h]
      exact ⟨0, by simp [pending]⟩
    · have hlt := Cyclic.lt_of_le_of_ne hle h
      have hsucc := Cyclic.succ_le_of_lt hlt
      rw [if_neg (mt hexit.mp h), pending, Cyclic.ioc_of_ne h, Cyclic.icc_eq_cons]
      simp only [construct_zero]
      cases hs : search (part0 + 1#32) with
      | false => exact ⟨1, by simp [hs]⟩
      | true =>
        have hlow : low (part0 + 1#32) = part0 + 1#32 := by
          apply low_of_lt
          rw [BitVec.le_def] at hsucc
          omega
        obtain ⟨n, hn⟩ := @ih h (part0 + 1#32) (data.count 1) hlow hf hsucc
        refine ⟨1 + n, ?_⟩
        simp [hs, hn, pending]

/-- The loop over the high halves looks for the first one that completes `p`; after the last it
goes back to short instructions. -/
theorem highLoop_spec {p h temp : InstrT} {data : Scanner} (hp : p.toNat < 2 ^ 16)
    (hh : h.toNat < 2 ^ 16) (hfinal : data.finalInstruction.toNat < 2 ^ 16)
    (htemp : low temp = p) (hne : temp ≠ data.finalInstruction) :
    ∃ n temp', low temp' = p ∧ highLoop search p h temp data =
      match (highs search p h).head? with
      | some h' => .found (construct p h') (data.count n)
      | none => .exhausted temp' (setSize (writeStdPage .rv64gc (data.count n) data.instructionPage)
          ArchProperties.rv64gc.instructionSize) := by
  generalize hf : data.finalInstruction = final at hfinal
  induction h using Cyclic.walk_induction (b := partMask.1) generalizing temp data with
  | step h ih =>
    rw [highLoop, if_neg hne]
    by_cases hlast : h = partMask.1
    · rw [if_pos hlast, highs, hlast, Cyclic.ioc_self]
      exact ⟨0, temp, htemp, by simp⟩
    · have hmask : partMask.1.toNat = 2 ^ 16 - 1 := by decide
      have hlt : h < partMask.1 := Cyclic.lt_of_le_of_ne (by rw [BitVec.le_def]; omega) hlast
      have hsucc := Cyclic.toNat_succ_of_lt hlt
      rw [BitVec.lt_def] at hlt
      have hnext := low_construct hp (by omega : (h + 1#32).toNat < 2 ^ 16)
      have hne' : construct p (h + 1#32) ≠ final := fun heq => by
        have := congrArg BitVec.toNat heq
        rw [toNat_construct hp (by omega), hsucc] at this
        omega
      rw [if_neg hlast, highs, Cyclic.ioc_of_ne hlast, Cyclic.icc_eq_cons]
      cases hs : search (construct p (h + 1#32)) with
      | false => exact ⟨1, temp, htemp, by simp [hs]⟩
      | true =>
        obtain ⟨n, temp', htemp', hn⟩ :=
          @ih hlast (construct p (h + 1#32)) (data.count 1) (by omega) hnext (hf ▸ hne') hf
        refine ⟨1 + n, temp', htemp', ?_⟩
        rw [Scanner.count_count, Scanner.count_instructionPage, highs] at hn
        rw [List.filter_cons, hs, Bool.not_true, if_neg Bool.false_ne_true, ← hn]
        exact if_pos hs

/-! ## The stage -/

variable (search)

/-- A size error sends the same instruction in again, with its full size. -/
theorem vleExhaustive_sizeError {data : Scanner} (h : data.sizeError = true) :
    vleExhaustive search data = (some data.currentInstruction,
      setSize { data.count 1 with sizeError := false } ArchProperties.rv64gc.instructionSizeUC) := by
  simp [vleExhaustive, h]

/-- A short instruction is followed by the next one that is not blacklisted. -/
theorem vleExhaustive_short {data : Scanner} (h : data.sizeError = false)
    (hsize : data.currentInstructionSize = 2) (hfinal : data.finalInstruction.toNat < 2 ^ 16)
    (hle : data.currentInstruction ≤ data.finalInstruction) :
    ∃ n, vleExhaustive search data =
      ((pending search data.currentInstruction data.finalInstruction).head?, data.count n) := by
  have hlow : low data.currentInstruction = data.currentInstruction :=
    low_of_lt (Nat.lt_of_le_of_lt hle hfinal)
  obtain ⟨n, hn⟩ := @lowLoop_spec search _ _ _ hfinal hle hlow
  refine ⟨n, ?_⟩
  simp only [low] at hlow
  simp [vleExhaustive, h, hsize, hlow, hn]

/-- A long instruction that equals `finalInstruction` ends the run. -/
theorem vleExhaustive_final {data : Scanner} (h : data.sizeError = false)
    (hsize : data.currentInstructionSize = 4)
    (hcur : data.currentInstruction = data.finalInstruction) :
    vleExhaustive search data = (none, data) := by
  have hloop : ∀ p h, highLoop search p h data.currentInstruction data = .finished data := by
    intro p h
    rw [highLoop, if_pos hcur]
  simp [vleExhaustive, h, hsize, hloop]

/-- Any other long instruction is followed by its low half with the next high half, or after the
last of them by the next short instruction. -/
theorem vleExhaustive_long {data : Scanner} (h : data.sizeError = false)
    (hsize : data.currentInstructionSize = 4) (hfinal : data.finalInstruction.toNat < 2 ^ 16)
    (hle : low data.currentInstruction ≤ data.finalInstruction)
    (hne : data.currentInstruction ≠ data.finalInstruction) :
    ∃ n, vleExhaustive search data =
      match (highs search (low data.currentInstruction) (high data.currentInstruction)).head? with
      | some h' => (some (construct (low data.currentInstruction) h'), data.count n)
      | none => ((pending search (low data.currentInstruction) data.finalInstruction).head?,
          (setSize (writeStdPage .rv64gc data data.instructionPage)
            ArchProperties.rv64gc.instructionSize).count n) := by
  have hw := data.currentInstruction.isLt
  obtain ⟨n, temp, htemp, hn⟩ := @highLoop_spec search (low data.currentInstruction)
    (high data.currentInstruction) data.currentInstruction data
    (by rw [toNat_low]; omega) (by rw [toNat_high]; omega) hfinal rfl hne
  have hp : data.currentInstruction &&& partMask.1 = low data.currentInstruction := rfl
  have hh : (data.currentInstruction &&& partMask.2) >>> 16 = high data.currentInstruction := rfl
  simp only [vleExhaustive, h, hsize, ArchProperties.rv64gc_instructionSizeUC, Bool.false_eq_true,
    if_false, if_true, hp, hh, hn]
  cases (highs search (low data.currentInstruction) (high data.currentInstruction)).head? with
  | some h' => exact ⟨n, rfl⟩
  | none =>
    obtain ⟨m, hm⟩ := @lowLoop_spec search (low data.currentInstruction) temp
      (setSize (writeStdPage .rv64gc (data.count n) data.instructionPage)
        ArchProperties.rv64gc.instructionSize) hfinal hle htemp
    refine ⟨n + m, hm.trans ?_⟩
    simp [setSize, writeStdPage, Scanner.count, Nat.add_assoc]

end

end IScanU.RV64GC
