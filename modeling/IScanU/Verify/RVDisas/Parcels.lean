import IScanU.Verify.RVDisas.Operands
import IScanU.Theory.Pattern

/-! # The 16-bit parcels that the disassembler rejects

A word that does not end in `11` is rejected exactly when its low parcel is in one of seven
patterns (`disasmInst_parcel`): the encodings without an opcode, and those whose immediate must not
be zero. The ISA makes no difference. -/

namespace IScanU.RVDisas

open Layout

/-- The rejected parcels: `c.addi4spn` of 0, the reserved opcode of quadrant 0, `c.lui` and
`c.addi16sp` of 0, `c.srli` and `c.srai` by 0, `c.andi` with 0, the reserved operations on two
registers of quadrant 1, and `c.slli` by 0. -/
def rejected : List (Pattern 16) :=
  [⟨0x0000, 0x001C⟩, ⟨0x8000, 0x1FFC⟩, ⟨0x6001, 0x0F80⟩, ⟨0x8001, 0x0780⟩, ⟨0x8801, 0x0380⟩,
    ⟨0x9C41, 0x03BC⟩, ⟨0x0002, 0x0F80⟩]

/-- The same by the fields of the parcel `n`, quadrant by quadrant. -/
def Rejected (n : Nat) : Prop :=
  n % 4 = 0 ∧ (n / 8192 % 8 = 0 ∧ n / 2048 % 4 = 0 ∧ n / 128 % 16 = 0 ∧ n / 64 % 2 = 0 ∧
      n / 32 % 2 = 0 ∨ n / 8192 % 8 = 4) ∨
  n % 4 = 1 ∧ (n / 8192 % 8 = 3 ∧ n / 4096 % 2 = 0 ∧ n / 4 % 32 = 0 ∨
    n / 8192 % 8 = 4 ∧ (n / 4096 % 2 = 0 ∧ n / 2048 % 2 = 0 ∧ n / 4 % 32 = 0 ∨
      n / 4096 % 2 = 0 ∧ n / 1024 % 4 = 2 ∧ n / 4 % 32 = 0 ∨
      n / 4096 % 2 = 1 ∧ n / 1024 % 4 = 3 ∧ n / 64 % 2 = 1)) ∨
  n % 4 = 2 ∧ n / 8192 % 8 = 0 ∧ n / 4096 % 2 = 0 ∧ n / 4 % 32 = 0

theorem mem_rejected_iff {x : BitVec 16} : (∃ p ∈ rejected, x ∈ p) ↔ Rejected x.toNat := by
  have h1 := @Pattern.mem_iff_fields 16 x ⟨0x0000, 0x001C⟩
    [(0, 2), (13, 3), (11, 2), (7, 4), (6, 1), (5, 1)] (by decide)
  have h2 := @Pattern.mem_iff_fields 16 x ⟨0x8000, 0x1FFC⟩ [(0, 2), (13, 3)] (by decide)
  have h3 := @Pattern.mem_iff_fields 16 x ⟨0x6001, 0x0F80⟩ [(0, 2), (13, 3), (12, 1), (2, 5)]
    (by decide)
  have h4 := @Pattern.mem_iff_fields 16 x ⟨0x8001, 0x0780⟩
    [(0, 2), (13, 3), (12, 1), (11, 1), (2, 5)] (by decide)
  have h5 := @Pattern.mem_iff_fields 16 x ⟨0x8801, 0x0380⟩
    [(0, 2), (13, 3), (12, 1), (10, 2), (2, 5)] (by decide)
  have h6 := @Pattern.mem_iff_fields 16 x ⟨0x9C41, 0x03BC⟩
    [(0, 2), (13, 3), (12, 1), (10, 2), (6, 1)] (by decide)
  have h7 := @Pattern.mem_iff_fields 16 x ⟨0x0002, 0x0F80⟩ [(0, 2), (13, 3), (12, 1), (2, 5)]
    (by decide)
  simp only [List.forall_mem_cons, List.not_mem_nil, false_implies, implies_true, and_true,
    Nat.reducePow, Nat.div_one] at h1 h2 h3 h4 h5 h6 h7
  simp only [rejected, List.exists_mem_cons_iff, List.not_mem_nil, false_and, exists_false,
    or_false, h1, h2, h3, h4, h5, h6, h7, Rejected, and_or_left, or_assoc]
  exact Iff.rfl

/-- Only the low parcel counts. -/
theorem rejected_mod {n : Nat} : Rejected (n % 65536) ↔ Rejected n := by
  have hfield : ∀ a b c, a * b * c = 65536 → n % 65536 / a % b = n / a % b := fun a b c habc => by
    rw [← habc, Nat.mul_assoc, Nat.mod_mul_right_div_self, Nat.mod_mul_right_mod]
  have hlow : n % 65536 % 4 = n % 4 := Nat.mod_mod_of_dvd n (by decide)
  unfold Rejected
  rw [hlow, hfield 4 32 512 rfl, hfield 32 2 1024 rfl, hfield 64 2 512 rfl, hfield 128 16 32 rfl,
    hfield 1024 4 16 rfl, hfield 2048 2 16 rfl, hfield 2048 4 8 rfl, hfield 4096 2 8 rfl,
    hfield 8192 8 1 rfl]

/-! ## The fields a `switch` looks at -/

section
variable {inst : RvInst} {s n : Nat} {mask k : RvInst}

theorem toNat_key (hmask : mask.toNat = 2 ^ n - 1) :
    (inst >>> s &&& mask).toNat = inst.toNat / 2 ^ s % 2 ^ n := by
  rw [BitVec.toNat_and, BitVec.toNat_ushiftRight, hmask, Nat.and_two_pow_sub_one_eq_mod,
    Nat.shiftRight_eq_div_pow]

/-- What a field is known to be, as a number. -/
theorem key_eq (hmask : mask.toNat = 2 ^ n - 1) (h : inst >>> s &&& mask = k) :
    inst.toNat / 2 ^ s % 2 ^ n = k.toNat := by
  rw [← toNat_key hmask, h]

theorem switch_three (x : RvInst) : x &&& 0b111#64 = 0#64 ∨ x &&& 0b111#64 = 1#64 ∨
    x &&& 0b111#64 = 2#64 ∨ x &&& 0b111#64 = 3#64 ∨ x &&& 0b111#64 = 4#64 ∨
    x &&& 0b111#64 = 5#64 ∨ x &&& 0b111#64 = 6#64 ∨ x &&& 0b111#64 = 7#64 := by
  have hlt : (x &&& 0b111#64).toNat < 8 := by
    rw [BitVec.toNat_and]
    exact Nat.and_lt_two_pow (n := 3) _ (by decide)
  simp only [← BitVec.toNat_inj, BitVec.toNat_ofNat, Nat.reducePow, Nat.reduceMod] at hlt ⊢
  omega

theorem switch_two (x : RvInst) : x &&& 0b11#64 = 0#64 ∨ x &&& 0b11#64 = 1#64 ∨
    x &&& 0b11#64 = 2#64 ∨ x &&& 0b11#64 = 3#64 := by
  have hlt : (x &&& 0b11#64).toNat < 4 := by
    rw [BitVec.toNat_and]
    exact Nat.and_lt_two_pow (n := 2) _ (by decide)
  simp only [← BitVec.toNat_inj, BitVec.toNat_ofNat, Nat.reducePow, Nat.reduceMod] at hlt ⊢
  omega

theorem switch_one (x : RvInst) : x &&& 0b1#64 = 0#64 ∨ x &&& 0b1#64 = 1#64 := by
  have hlt : (x &&& 0b1#64).toNat < 2 := by
    rw [BitVec.toNat_and]
    exact Nat.and_lt_two_pow (n := 1) _ (by decide)
  simp only [← BitVec.toNat_inj, BitVec.toNat_ofNat, Nat.reducePow, Nat.reduceMod] at hlt ⊢
  omega

end

/-! ## What a compressed opcode needs -/

/-- The opcode is rejected with these operands. -/
def Fails (op : RvOp) (inst : RvInst) : Prop :=
  op = .illegal ∨ (opcodeData op).decompData &&& rvcdImmNz ≠ 0 ∧
    (decodeOperandsAs (opcodeData op).codec (.init 0 inst)).imm = 0

/-- An opcode that is accepted with whatever operands. -/
def RvOp.Total (op : RvOp) : Prop :=
  op ≠ .illegal ∧ (opcodeData op).decompData &&& rvcdImmNz = 0

instance : DecidablePred RvOp.Total := fun _ => inferInstanceAs (Decidable (_ ∧ _))

section
variable {op : RvOp} {inst : RvInst}

theorem fails_of_total (h : op.Total) (hn : ¬Rejected inst.toNat) :
    Fails op inst ↔ Rejected inst.toNat :=
  ⟨fun hf => hf.elim (fun he => absurd he h.1) fun hi => absurd h.2 hi.1, fun hr => absurd hr hn⟩

theorem fails_illegal (hn : Rejected inst.toNat) : Fails .illegal inst ↔ Rejected inst.toNat :=
  ⟨fun _ => hn, fun _ => .inl rfl⟩

/-- The opcodes whose immediate must not be zero. -/
theorem fails_of_imm (operand : RvInst → BitVec 32) (hop : op ≠ .illegal)
    (hdata : (opcodeData op).decompData &&& rvcdImmNz ≠ 0)
    (himm : (decodeOperandsAs (opcodeData op).codec (.init 0 inst)).imm = operand inst) :
    Fails op inst ↔ operand inst = 0 := by
  rw [← himm]
  exact ⟨fun h => (h.resolve_left hop).2, fun h => .inr ⟨hdata, h⟩⟩

variable {operand : RvInst → BitVec 32} {p : BitPiece} {f : Layout}

theorem Reads.eq_zero_iff (h : Reads operand f) (hfits : Fits 64 f)
    (htop : ∀ p ∈ f, p.dst + p.len ≤ 32) (inst : RvInst) : operand inst = 0 ↔
      ∀ p ∈ f, inst.toNat / 2 ^ p.src % 2 ^ p.len = 0 := by
  rw [← gather_eq_zero_iff hfits, h inst, ← BitVec.toNat_inj, BitVec.toNat_setWidth,
    Nat.mod_eq_of_lt (toNat_gather_lt hfits htop inst), ← BitVec.toNat_inj]
  rfl

theorem ReadsSigned.eq_zero_iff (h : ReadsSigned operand p f) (hfits : Fits 64 (p :: f))
    (htop : ∀ q ∈ f, q.dst + q.len ≤ p.dst) (hlast : p.dst + p.len ≤ 32) (inst : RvInst) :
    operand inst = 0 ↔ ∀ q ∈ p :: f, inst.toNat / 2 ^ q.src % 2 ^ q.len = 0 := by
  have hlt : (gather (p :: f) inst).toNat < 2 ^ (p.dst + p.len) := by
    refine toNat_gather_lt hfits (fun q hq => ?_) inst
    rcases List.mem_cons.1 hq with rfl | hq
    · exact Nat.le_refl _
    · exact Nat.le_trans (htop q hq) (Nat.le_add_right ..)
  rw [← gather_eq_zero_iff hfits, h.eq hfits htop inst]
  exact signExtend_setWidth_eq_zero_iff hlt hlast

end

/-! ## The quadrants -/

section
variable (isa : RvIsa) {inst : RvInst}

theorem quadrant0_fails (h0 : inst.toNat % 4 = 0) :
    Fails (opcodeQuadrant0 isa inst) inst ↔ Rejected inst.toNat := by
  rcases switch_three (inst >>> 13) with h | h | h | h | h | h | h | h
  all_goals
    have hkey := key_eq (n := 3) rfl h
    simp only [BitVec.toNat_ofNat, Nat.reducePow, Nat.reduceMod] at hkey
    simp only [opcodeQuadrant0, h]
  case inl =>
    rw [fails_of_imm operandCimm4spn (by decide) (by decide) rfl,
      reads_cimm4spn.eq_zero_iff (by decide) (by decide)]
    simp [Rejected, h0, hkey]
  case inr.inr.inr.inr.inl => exact fails_illegal (.inl ⟨h0, .inr hkey⟩)
  all_goals
    refine fails_of_total ?_ (by simp [Rejected, h0, hkey])
    cases isa <;> decide

/-- The operation on two registers. -/
theorem toNat_operation (inst : RvInst) :
    (inst >>> 10 &&& 0b100#64 ||| inst >>> 5 &&& 0b011#64).toNat =
      inst.toNat / 4096 % 2 * 4 + inst.toNat / 32 % 4 := by
  have h1 := BitPiece.ushiftRight_and_eq_get (p := ⟨12, 1, 2⟩) (by decide) (by decide) 0b100#64
    (by decide) inst
  have h2 := BitPiece.ushiftRight_and_eq_get (p := ⟨5, 2, 0⟩) (by decide) (by decide) 0b011#64
    (by decide) inst
  have hsum := toNat_gather (f := [⟨12, 1, 2⟩, ⟨5, 2, 0⟩]) (by decide) (by decide) inst
  rw [gather_cons, gather_cons, gather_nil, BitVec.or_zero, ← h1, ← h2] at hsum
  simpa using hsum

theorem quadrant1_fails (h0 : inst.toNat % 4 = 1) :
    Fails (opcodeQuadrant1 isa inst) inst ↔ Rejected inst.toNat := by
  rcases switch_three (inst >>> 13) with h | h | h | h | h | h | h | h
  all_goals
    have hkey := key_eq (n := 3) rfl h
    simp only [BitVec.toNat_ofNat, Nat.reducePow, Nat.reduceMod] at hkey
    simp only [opcodeQuadrant1, h]
  case inr.inr.inr.inl =>
    split
    · rw [fails_of_imm operandCimm16sp (by decide) (by decide) rfl,
        reads_cimm16sp.eq_zero_iff (by decide) (by decide) (by decide)]
      simp [Rejected, h0, hkey]
      omega
    · rw [fails_of_imm operandCimmui (by decide) (by decide) rfl,
        reads_cimmui.eq_zero_iff (by decide) (by decide) (by decide)]
      simp [Rejected, h0, hkey]
  case inr.inr.inr.inr.inl =>
    rcases switch_two (inst >>> 10) with h' | h' | h' | h'
    all_goals
      have hsub := key_eq (n := 2) rfl h'
      simp only [BitVec.toNat_ofNat, Nat.reducePow, Nat.reduceMod] at hsub
      simp only [h']
    case inl | inr.inl =>
      rw [fails_of_imm operandCimmsh6 (by decide) (by decide) rfl,
        reads_cimmsh6.eq_zero_iff (by decide) (by decide)]
      simp [Rejected, h0, hkey]
      omega
    case inr.inr.inl =>
      rw [fails_of_imm operandCimmi (by decide) (by decide) rfl,
        reads_cimmi.eq_zero_iff (by decide) (by decide) (by decide)]
      simp [Rejected, h0, hkey]
      omega
    case inr.inr.inr =>
      have hop := toNat_operation inst
      split
      case h_7 n0 n1 n2 n3 n4 n5 =>
        -- The operations from 6 on are reserved.
        simp only [← BitVec.toNat_inj, hop, BitVec.toNat_ofNat, Nat.reducePow, Nat.reduceMod,
          imp_false] at n0 n1 n2 n3 n4 n5
        refine fails_illegal (.inr (.inl ⟨h0, .inr ⟨hkey, .inr (.inr ?_)⟩⟩))
        omega
      all_goals
        rename_i hval
        rw [hval] at hop
        refine fails_of_total (by decide) ?_
        simp [Rejected, h0, hkey] at hop ⊢
        omega
  all_goals
    refine fails_of_total ?_ (by simp [Rejected, h0, hkey])
    first | split <;> decide | cases isa <;> decide

theorem quadrant2_fails (h0 : inst.toNat % 4 = 2) :
    Fails (opcodeQuadrant2 isa inst) inst ↔ Rejected inst.toNat := by
  rcases switch_three (inst >>> 13) with h | h | h | h | h | h | h | h
  all_goals
    have hkey := key_eq (n := 3) rfl h
    simp only [BitVec.toNat_ofNat, Nat.reducePow, Nat.reduceMod] at hkey
    simp only [opcodeQuadrant2, h]
  case inl =>
    rw [fails_of_imm operandCimmsh6 (by decide) (by decide) rfl,
      reads_cimmsh6.eq_zero_iff (by decide) (by decide)]
    simp [Rejected, h0, hkey]
  case inr.inr.inr.inr.inl =>
    refine fails_of_total ?_ (by simp [Rejected, h0, hkey])
    rcases switch_one (inst >>> 12) with h' | h'
    · simp only [h']
      split <;> decide
    · simp only [h']
      split
      · split <;> decide
      · decide
  all_goals
    refine fails_of_total ?_ (by simp [Rejected, h0, hkey])
    cases isa <;> decide

/-- The opcode found in a word that does not end in `11` is rejected as the patterns say. -/
theorem opcode_fails (h : inst &&& 0b11#64 ≠ 0b11#64) :
    Fails (opcode isa inst) inst ↔ Rejected inst.toNat := by
  have hlow : ∀ k : RvInst, inst &&& 0b11#64 = k → inst.toNat % 4 = k.toNat := fun k hk => by
    rw [← hk, BitVec.toNat_and]
    exact (Nat.and_two_pow_sub_one_eq_mod inst.toNat 2).symm
  rw [opcode, BitVec.ushiftRight_zero]
  rcases switch_two inst with h' | h' | h' | h'
  · rw [h']
    exact quadrant0_fails isa (hlow _ h')
  · rw [h']
    exact quadrant1_fails isa (hlow _ h')
  · rw [h']
    exact quadrant2_fails isa (hlow _ h')
  · exact absurd h' h

end

/-- The immediate does not depend on where the instruction is. -/
theorem immMissing_decoded {isa : RvIsa} {pc : BitVec 64} {inst : RvInst} :
    ImmMissing (decoded isa pc inst) ↔ (opcodeData (opcode isa inst)).decompData &&& rvcdImmNz ≠ 0 ∧
      (decodeOperandsAs (opcodeData (opcode isa inst)).codec (.init 0 inst)).imm = 0 := by
  have himm : ∀ codec, (decodeOperandsAs codec { RvDecode.init pc inst with
      op := opcode isa inst
      codec := codec }).imm = (decodeOperandsAs codec (.init 0 inst)).imm := fun codec => by
    cases codec <;> simp only [decodeOperandsAs] <;> rfl
  rw [ImmMissing, decoded_op, decoded_eq, himm]

theorem decodeInst_parcel (isa : RvIsa) (pc : BitVec 64) {inst : RvInst}
    (h : inst &&& 0b11#64 ≠ 0b11#64) :
    (decodeInst isa pc inst).op ≠ .illegal ↔ ∀ p ∈ rejected, inst.setWidth 16 ∉ p := by
  have hpattern : (∀ p ∈ rejected, inst.setWidth 16 ∉ p) ↔ ¬Rejected inst.toNat := by
    rw [← rejected_mod, show inst.toNat % 65536 = (inst.setWidth 16).toNat from
      (BitVec.toNat_setWidth 16 inst).symm, ← mem_rejected_iff]
    simp
  rw [hpattern, ← opcode_fails isa h, decodeInst_eq, Fails, ← @immMissing_decoded isa pc]
  rcases opcode_cases isa inst with ⟨hlow, _⟩ | ⟨_, hop | hop⟩
  · exact absurd hlow h
  · have hillegal : (decoded isa pc inst).op = .illegal := (decoded_op ..).trans hop
    rw [decompressInst_of_fullSize (hillegal ▸ fullSize_illegal), hillegal]
    simp [hop]
  · have hne : opcode isa inst ≠ .illegal := fun he => by
      rw [he] at hop
      exact hop.ne_illegal (fullSize_illegal isa)
    rw [decompressInst_of_decompresses (by rwa [decoded_op]), decoded_op]
    split
    · rename_i himm
      simp [himm]
    · rename_i himm
      simp [himm, hne, hop.ne_illegal]

/-- **The disassembler rejects seven patterns of 16-bit parcels** and no other word that does not
end in `11`. -/
theorem disasmInst_parcel (isa : RvIsa) (pc : BitVec 64) {inst : RvInst}
    (h : inst &&& 0b11#64 ≠ 0b11#64) :
    disasmInst isa pc inst = true ↔ ∀ p ∈ rejected, inst.setWidth 16 ∉ p :=
  disasmInst_iff.trans (decodeInst_parcel isa pc h)

/-- `c.slli x1, 0` and `c.slli x1, 1`. -/
theorem disasmInst_parcel_slli :
    disasmInst .rv64 0 0x0082#64 = false ∧ disasmInst .rv64 0 0x0086#64 = true :=
  ⟨Bool.eq_false_iff.2 fun h => absurd ((disasmInst_parcel .rv64 0 (by decide)).1 h) (by decide),
    (disasmInst_parcel .rv64 0 (by decide)).2 (by decide)⟩

end IScanU.RVDisas
