import IScanU.Recovery

/-! # Where gp and tp are kept

`recoveryAddress` is the end of the block of four pages that the stack pointer is in. That is above
the alternate stack only for the block in which the stack ends. -/

namespace IScanU

/-! ## Registers in memory -/

theorem ofDigits_bytes (n v : Nat) :
    Nat.ofDigits 256 ((List.range n).map fun i => v / 256 ^ i % 256) = v % 256 ^ n := by
  induction n generalizing v with
  | zero => simp [Nat.mod_one]
  | succ n ih =>
    have htail : (fun i => v / 256 ^ (i + 1) % 256) = fun i => v / 256 / 256 ^ i % 256 := by
      funext i
      rw [Nat.div_div_eq_div_mul, Nat.pow_succ']
    rw [List.range_succ_eq_map, List.map_cons, List.map_map, Nat.ofDigits_cons, Nat.pow_succ',
      Nat.mod_mul, ← ih, ← htail, Nat.pow_zero, Nat.div_one]
    rfl

theorem loadReg_storeReg (mem : Memory) (addr : Nat) (value : RegT) :
    loadReg (storeReg mem addr value) addr = value := by
  have hbytes : ((List.range 8).map fun i => (value >>> (8 * i)).setWidth 8).map
      (fun b : Byte => b.toNat) = (List.range 8).map fun i => value.toNat / 256 ^ i % 256 := by
    rw [List.map_map]
    refine List.map_congr_left fun i _ => ?_
    simp [Nat.shiftRight_eq_div_pow, Nat.pow_mul]
  have hread := readBytes_memcpy mem addr
    ((List.range 8).map fun i => (value >>> (8 * i)).setWidth 8)
  rw [List.length_map, List.length_range] at hread
  rw [loadReg, storeReg, hread, hbytes, ofDigits_bytes]
  exact BitVec.eq_of_toNat_eq (by simpa using value.isLt)

theorem loadReg_congr {mem mem' : Memory} {addr : Nat}
    (h : ∀ a, addr ≤ a → a < addr + 8 → mem'.byte a = mem.byte a) :
    loadReg mem' addr = loadReg mem addr := by
  rw [loadReg, loadReg, readBytes_congr h]

theorem storeReg_of_not_mem {mem : Memory} {addr a : Nat} {value : RegT}
    (h : ¬(addr ≤ a ∧ a < addr + 8)) : (storeReg mem addr value).byte a = mem.byte a :=
  memcpy_of_not_mem (by simpa using h)

/-- The register stored first is still there. -/
theorem loadReg_storeReg_fst (mem : Memory) (addr : Nat) (value value' : RegT) :
    loadReg (storeReg (storeReg mem addr value) (addr + 8) value') addr = value := by
  rw [loadReg_congr fun a _ hlt => storeReg_of_not_mem (by omega), loadReg_storeReg]

/-! ## The place in a page layout -/

section
variable {arch : ArchProperties} {stack : AltStack arch} {sp saving recovering : RegT}

theorem toNat_recoveryAddress (hpage : arch.pageSize = 4096) (hsp : sp ∈ stack) :
    (recoveryAddress arch sp).toNat = (sp.toNat / 16384 + 1) * 16384 := by
  have hmapped := stack.mapped
  have hlt : sp.toNat < stack.ssSp.toNat + 8 * arch.pageSize := hsp.2
  rw [hpage] at hmapped hlt
  have hunit : (BitVec.ofNat 64 (4 * arch.pageSize)).toNat = 16384 := by
    rw [hpage]
    rfl
  have hsum : (sp + .ofNat 64 (4 * arch.pageSize)).toNat = sp.toNat + 16384 := by
    rw [BitVec.toNat_add, hunit]
    omega
  rw [recoveryAddress, BitVec.toNat_sub_of_le, BitVec.toNat_umod, hsum, hunit]
  · omega
  · rw [BitVec.le_def, BitVec.toNat_umod]
    exact Nat.mod_le _ _

/-- `recoverState` finds what `setRecoveryData` left: it looks at the same place, which is in the
mapping and above the stack. -/
structure Recovers (stack : AltStack arch) (saving recovering : RegT) : Prop where
  same : recoveryAddress arch recovering = recoveryAddress arch saving
  above : stack.top ≤ (recoveryAddress arch saving).toNat
  mapped : (recoveryAddress arch saving).toNat + 16 ≤ stack.ssSp.toNat + 16 * arch.pageSize

/-- The stack pointer is in the block of four pages in which the stack ends. -/
def InLastBlock (stack : AltStack arch) (sp : RegT) : Prop :=
  sp.toNat / (4 * arch.pageSize) = (stack.top - 1) / (4 * arch.pageSize)

instance : Decidable (InLastBlock stack sp) := inferInstanceAs (Decidable (_ = _))

/-- The next multiple of four pages is above the stack only from the last block on. -/
theorem above_iff (hpage : arch.pageSize = 4096) (hsp : sp ∈ stack) :
    stack.top ≤ (recoveryAddress arch sp).toNat ↔ InLastBlock stack sp := by
  have hlt : sp.toNat < stack.ssSp.toNat + 8 * 4096 := hpage ▸ hsp.2
  rw [toNat_recoveryAddress hpage hsp, InLastBlock, AltStack.top, AltStack.ssSize, hpage]
  omega

theorem InLastBlock.mapped (hpage : arch.pageSize = 4096) (hsp : sp ∈ stack)
    (h : InLastBlock stack sp) :
    (recoveryAddress arch sp).toNat + 16 ≤ stack.ssSp.toNat + 16 * arch.pageSize := by
  rw [InLastBlock, AltStack.top, AltStack.ssSize, hpage] at h
  rw [toNat_recoveryAddress hpage hsp, hpage]
  omega

theorem same_iff (hpage : arch.pageSize = 4096) (hsaving : saving ∈ stack)
    (hrecovering : recovering ∈ stack) :
    recoveryAddress arch recovering = recoveryAddress arch saving ↔
      recovering.toNat / 16384 = saving.toNat / 16384 := by
  rw [← BitVec.toNat_inj, toNat_recoveryAddress hpage hsaving,
    toNat_recoveryAddress hpage hrecovering]
  omega

theorem recovers_iff_inLastBlock (hpage : arch.pageSize = 4096) (hsaving : saving ∈ stack)
    (hrecovering : recovering ∈ stack) :
    Recovers stack saving recovering ↔ InLastBlock stack saving ∧ InLastBlock stack recovering := by
  constructor
  · rintro ⟨hsame, habove, -⟩
    refine ⟨(above_iff hpage hsaving).1 habove, (above_iff hpage hrecovering).1 ?_⟩
    rwa [hsame]
  · rintro ⟨hs, hr⟩
    refine ⟨(same_iff hpage hsaving hrecovering).2 ?_, (above_iff hpage hsaving).2 hs,
      hs.mapped hpage hsaving⟩
    have hblocks := hr.trans hs.symm
    rwa [hpage] at hblocks

/-- However the stack is used between the two calls, gp and tp come back. -/
theorem Recovers.recoverState_eq {regs regs' : Registers} {mem mem' : Memory}
    (h : Recovers stack regs.sp regs'.sp)
    (hmem : ∀ a, stack.top ≤ a → mem'.byte a = (setRecoveryData arch regs mem).byte a) :
    recoverState arch mem' regs' = { regs' with gp := regs.gp, tp := regs.tp } := by
  have habove := h.above
  have hfits := h.mapped
  have hmapped := stack.mapped
  have hnext : (recoveryAddress arch regs.sp + 8#64).toNat =
      (recoveryAddress arch regs.sp).toNat + 8 := by
    have h8 : (8#64).toNat = 8 := rfl
    rw [BitVec.toNat_add, h8]
    exact Nat.mod_eq_of_lt (by omega)
  rw [setRecoveryData, hnext] at hmem
  have hgp : loadReg mem' (recoveryAddress arch regs.sp).toNat = regs.gp := by
    rw [loadReg_congr fun a hle _ => hmem a (habove.trans hle), loadReg_storeReg_fst]
  have htp : loadReg mem' ((recoveryAddress arch regs.sp).toNat + 8) = regs.tp := by
    rw [loadReg_congr fun a hle _ => hmem a (by omega), loadReg_storeReg]
  rw [recoverState, h.same, hnext, hgp, htp]

/-- A stack pointer in the uppermost page of the stack is in the last block, wherever the kernel
puts the mapping. -/
theorem inLastBlock_of_top_page (hpage : arch.pageSize = 4096)
    (h : stack.top ≤ sp.toNat + arch.pageSize) (hsp : sp ∈ stack) : InLastBlock stack sp := by
  have haligned := stack.aligned
  have hlt : sp.toNat < stack.ssSp.toNat + 8 * 4096 := hpage ▸ hsp.2
  rw [AltStack.top, AltStack.ssSize] at h
  rw [InLastBlock, AltStack.top, AltStack.ssSize]
  rw [hpage] at *
  omega

end

/-! ## The two RISC-V targets -/

/-- The recovery data is safe and is found again exactly when both stack pointers are in the block
of four pages in which the stack ends. -/
theorem recovers_iff {arch : ArchProperties} (harch : arch = .rv64g ∨ arch = .rv64gc)
    {stack : AltStack arch} {saving recovering : RegT} (hsaving : saving ∈ stack)
    (hrecovering : recovering ∈ stack) :
    Recovers stack saving recovering ↔ InLastBlock stack saving ∧ InLastBlock stack recovering := by
  refine recovers_iff_inLastBlock ?_ hsaving hrecovering
  obtain rfl | rfl := harch <;> rfl

/-- A stack that ends one page after a multiple of four pages. -/
def sampleStack : AltStack .rv64gc where
  ssSp := 0x11000
  aligned := rfl
  mapped := by decide

theorem recovers_top_page : Recovers sampleStack 0x18F00 0x18A00 :=
  (recovers_iff (.inr rfl) ⟨by decide, by decide⟩ ⟨by decide, by decide⟩).2 (by decide)

/-- A handler more than a page below `entryHandler` looks for gp and tp inside the stack. -/
theorem not_recovers_deep : (0x18F00 ∈ sampleStack ∧ 0x17F00 ∈ sampleStack) ∧
    ¬ Recovers sampleStack 0x18F00 0x17F00 := by
  refine ⟨⟨⟨by decide, by decide⟩, by decide, by decide⟩, fun h => ?_⟩
  exact absurd h.same (by decide)

/-! ## What the registers hold -/

section
variable {arch : ArchProperties} {stack : AltStack arch} {sp : RegT}

theorem toNat_recoveryAddress_add (hpage : arch.pageSize = 4096) (hsp : sp ∈ stack) :
    (recoveryAddress arch sp + 8#64).toNat = (recoveryAddress arch sp).toNat + 8 := by
  have haddr := toNat_recoveryAddress hpage hsp
  have hmapped := stack.mapped
  have hlt : sp.toNat < stack.ssSp.toNat + 8 * arch.pageSize := hsp.2
  rw [hpage] at hmapped hlt
  have h8 : (8#64).toNat = 8 := rfl
  rw [BitVec.toNat_add, h8, haddr]
  omega

/-- A place that is not above the stack is in it, as a whole. -/
theorem recoveryAddress_le_top (hpage : arch.pageSize = 4096) (hsp : sp ∈ stack)
    (h : ¬InLastBlock stack sp) : (recoveryAddress arch sp).toNat + 16 ≤ stack.top := by
  have haddr := toNat_recoveryAddress hpage hsp
  have haligned := stack.aligned
  rw [← above_iff hpage hsp] at h
  rw [haddr, AltStack.top, AltStack.ssSize, hpage] at h ⊢
  rw [hpage] at haligned
  omega

theorem recoverState_gp (mem : Memory) (regs : Registers) :
    (recoverState arch mem regs).gp = loadReg mem (recoveryAddress arch regs.sp).toNat := rfl

theorem add_one_ne (value : RegT) : value + 1 ≠ value := by
  simp

end

/-- The handlers may use the stack as they like and still get gp and tp back exactly when both
stack pointers are in the block of four pages in which the stack ends. -/
theorem recovered_iff {arch : ArchProperties} (harch : arch = .rv64g ∨ arch = .rv64gc)
    {stack : AltStack arch} {regs regs' : Registers} (hsaving : regs.sp ∈ stack)
    (hrecovering : regs'.sp ∈ stack) :
    (∀ mem mem', (∀ a, stack.top ≤ a → mem'.byte a = (setRecoveryData arch regs mem).byte a) →
      recoverState arch mem' regs' = { regs' with gp := regs.gp, tp := regs.tp }) ↔
      InLastBlock stack regs.sp ∧ InLastBlock stack regs'.sp := by
  have hpage : arch.pageSize = 4096 := by obtain rfl | rfl := harch <;> rfl
  constructor
  · intro h
    have hr : InLastBlock stack regs'.sp := by
      by_contra hlow
      -- a frame lies where the handler looks
      have hin := recoveryAddress_le_top hpage hrecovering hlow
      have heq := congrArg (·.gp) (h ⟨fun _ => 0⟩
        (storeReg (setRecoveryData arch regs ⟨fun _ => 0⟩) (recoveryAddress arch regs'.sp).toNat
          (regs.gp + 1)) fun a ha => storeReg_of_not_mem (by omega))
      rw [recoverState_gp, loadReg_storeReg] at heq
      exact add_one_ne _ heq
    refine ⟨?_, hr⟩
    by_contra hlow
    -- the registers are saved in the stack, and the handler looks above it
    have hin := recoveryAddress_le_top hpage hsaving hlow
    have habove := (above_iff hpage hrecovering).2 hr
    have heq := congrArg (·.gp) (h
      (storeReg ⟨fun _ => 0⟩ (recoveryAddress arch regs'.sp).toNat (regs.gp + 1)) _ fun _ _ => rfl)
    rw [recoverState_gp, setRecoveryData, toNat_recoveryAddress_add hpage hsaving,
      loadReg_congr fun a ha _ => (storeReg_of_not_mem (by omega)).trans
        (storeReg_of_not_mem (by omega)), loadReg_storeReg] at heq
    exact add_one_ne _ heq
  · intro h mem mem' hmem
    exact ((recovers_iff_inLastBlock hpage hsaving hrecovering).2 h).recoverState_eq hmem

/-- On the sample stack, with both handlers in the uppermost page and a frame below them. -/
theorem recovered_top_page :
    recoverState .rv64gc (storeReg (setRecoveryData .rv64gc ⟨0x18F00, 1, 2⟩ ⟨fun _ => 0⟩) 0x18A00 7)
      ⟨0x18A00, 0, 0⟩ = ⟨0x18A00, 1, 2⟩ := by
  have hiff := @recovered_iff .rv64gc (.inr rfl) sampleStack ⟨0x18F00, 1, 2⟩ ⟨0x18A00, 0, 0⟩
    ⟨by decide, by decide⟩ ⟨by decide, by decide⟩
  refine hiff.2 (by decide) _ _ fun a ha => storeReg_of_not_mem ?_
  have htop : sampleStack.top = 0x19000 := rfl
  omega

end IScanU
