import IScanU.Verify.RVDisas.Operands

/-! # Compressed instructions and what they are short for

`encode` writes the full-size instructions that decompression ends in. The disassembler reads back
what has been written (`decodeInst_encode`), so every compressed instruction that it accepts has a
32-bit word that it decodes to the same instruction (`expansion`). -/

namespace IScanU.RVDisas

open Layout

/-! ## Writing instructions -/

/-- The opcodes that decompression ends in. -/
def expandedOps : List RvOp :=
  [.addi, .addiw, .lw, .ld, .lq, .flw, .fld, .andi, .jalr, .sw, .sd, .sq, .fsw, .fsd, .beq, .bne,
    .lui, .jal, .slli, .srli, .srai, .add, .sub, .xor, .or, .and, .addw, .subw, .ebreak]

/-- The bits that make the opcode. -/
def matchBits : RvOp → RvInst
  | .addi => 0x13#64 | .addiw => 0x1B#64 | .lw => 0x2003#64 | .ld => 0x3003#64 | .lq => 0x200F#64
  | .flw => 0x2007#64 | .fld => 0x3007#64 | .andi => 0x7013#64 | .jalr => 0x67#64
  | .sw => 0x2023#64 | .sd => 0x3023#64 | .sq => 0x4023#64 | .fsw => 0x2027#64 | .fsd => 0x3027#64
  | .beq => 0x63#64 | .bne => 0x1063#64
  | .lui => 0x37#64 | .jal => 0x6F#64
  | .slli => 0x1013#64 | .srli => 0x5013#64 | .srai => 0x40005013#64
  | .add => 0x33#64 | .sub => 0x40000033#64 | .xor => 0x4033#64 | .or => 0x6033#64 | .and => 0x7033#64
  | .addw => 0x3B#64 | .subw => 0x4000003B#64
  | .ebreak => 0x100073#64
  | _ => 0#64

def rdField : Layout := [⟨7, 5, 0⟩]
def rs1Field : Layout := [⟨15, 5, 0⟩]
def rs2Field : Layout := [⟨20, 5, 0⟩]
def imm12Field : Layout := [⟨20, 12, 0⟩]
def imm20Field : Layout := [⟨12, 20, 12⟩]
def shamt7Field : Layout := [⟨20, 7, 0⟩]
def jimm20Field : Layout := [⟨31, 1, 20⟩, ⟨21, 10, 1⟩, ⟨20, 1, 11⟩, ⟨12, 8, 12⟩]
def simm12Field : Layout := [⟨25, 7, 5⟩, ⟨7, 5, 0⟩]
def sbimm12Field : Layout := [⟨31, 1, 12⟩, ⟨25, 6, 5⟩, ⟨8, 4, 1⟩, ⟨7, 1, 11⟩]

/-- Where the operands of an instruction are, by its codec. -/
def operandLayouts : RvCodec → List Layout
  | .u => [rdField, imm20Field]
  | .uj => [rdField, jimm20Field]
  | .i => [rdField, rs1Field, imm12Field]
  | .iSh7 => [rdField, rs1Field, shamt7Field]
  | .s => [rs1Field, rs2Field, simm12Field]
  | .sb => [rs1Field, rs2Field, sbimm12Field]
  | .r => [rdField, rs1Field, rs2Field]
  | _ => []

/-- What is written there; a signed immediate without the copies of its sign. -/
def operandValues (dec : RvDecode) : RvCodec → List RvInst
  | .u => [dec.rd.setWidth 64, (dec.imm.setWidth 32).setWidth 64]
  | .uj => [dec.rd.setWidth 64, (dec.imm.setWidth 21).setWidth 64]
  | .i => [dec.rd.setWidth 64, dec.rs1.setWidth 64, (dec.imm.setWidth 12).setWidth 64]
  | .iSh7 => [dec.rd.setWidth 64, dec.rs1.setWidth 64, dec.imm.setWidth 64]
  | .s => [dec.rs1.setWidth 64, dec.rs2.setWidth 64, (dec.imm.setWidth 12).setWidth 64]
  | .sb => [dec.rs1.setWidth 64, dec.rs2.setWidth 64, (dec.imm.setWidth 13).setWidth 64]
  | .r => [dec.rd.setWidth 64, dec.rs1.setWidth 64, dec.rs2.setWidth 64]
  | _ => []

def operandFields (dec : RvDecode) (codec : RvCodec) : List (Layout × RvInst) :=
  (operandLayouts codec).zip (operandValues dec codec)

def encode (dec : RvDecode) : RvInst :=
  assemble (matchBits dec.op) (operandFields dec dec.codec)

theorem operandFields_fst (dec : RvDecode) (codec : RvCodec) :
    (operandFields dec codec).map Prod.fst = operandLayouts codec := by
  cases codec <;> rfl

theorem operandLayouts_fits (codec : RvCodec) :
    ∀ f ∈ operandLayouts codec, Fits 64 f ∧ Simple f ∧ ∀ p ∈ f, p.src + p.len ≤ 32 := by
  cases codec <;> decide

theorem operandLayouts_apart (codec : RvCodec) : (operandLayouts codec).Pairwise Apart := by
  cases codec <;> decide

/-- No opcode has bits where its operands are. -/
theorem matchBits_apart {op : RvOp} (hop : op ∈ expandedOps) :
    ∀ f ∈ operandLayouts (opcodeData op).codec, gather f (matchBits op) = 0#64 := by
  revert op
  decide

/-! ## Reading the opcode back -/

section
variable {isa : RvIsa} {fields : List (Layout × RvInst)} {op : RvOp}

theorem key_assemble (hfields : fields.map Prod.fst = operandLayouts (opcodeData op).codec)
    (p : BitPiece) (mask : RvInst) (hp : p.Fits 64 ∧ p.dst ≤ p.src)
    (hmask : ∀ i < 64, mask.getLsbD i = p.covers i)
    (hapart : ∀ f ∈ operandLayouts (opcodeData op).codec, Apart [p] f) :
    assemble (matchBits op) fields >>> (p.src - p.dst) &&& mask =
      matchBits op >>> (p.src - p.dst) &&& mask := by
  have hmem : ∀ f ∈ fields, f.1 ∈ operandLayouts (opcodeData op).codec := fun f hf =>
    hfields ▸ List.mem_map_of_mem hf
  exact ushiftRight_and_assemble hp.1 hp.2 mask hmask
    (fun f hf => (operandLayouts_fits _ f.1 (hmem f hf)).1) fun f hf => hapart f.1 (hmem f hf)

/-- The opcode is found in spite of the operands. -/
theorem opcode_assemble (hop : op ∈ expandedOps)
    (hfields : fields.map Prod.fst = operandLayouts (opcodeData op).codec) :
    opcode isa (assemble (matchBits op) fields) = op := by
  have h0 := key_assemble hfields ⟨0, 2, 0⟩ 0b11#64 (by decide) (by decide)
  have h2 := key_assemble hfields ⟨2, 5, 0⟩ 0b11111#64 (by decide) (by decide)
  have h12 := key_assemble hfields ⟨12, 3, 0⟩ 0b111#64 (by decide) (by decide)
  have h25 := key_assemble hfields ⟨25, 7, 3⟩ 0b1111111000#64 (by decide) (by decide)
  have h27 := key_assemble hfields ⟨27, 5, 0⟩ 0b11111#64 (by decide) (by decide)
  have hnone : operandLayouts (opcodeData op).codec = [] →
      assemble (matchBits op) fields = matchBits op := fun h => by
    rw [h, List.map_eq_nil_iff] at hfields
    rw [hfields, assemble_nil]
  simp only [Nat.sub_zero, Nat.reduceSub] at h0 h2 h12 h25 h27
  generalize assemble (matchBits op) fields = w at h0 h2 h12 h25 h27 hnone
  simp only [expandedOps, List.mem_cons, List.not_mem_nil, or_false] at hop
  rcases hop with rfl | rfl | rfl | rfl | rfl | rfl | rfl | rfl | rfl | rfl | rfl | rfl | rfl | rfl |
    rfl | rfl | rfl | rfl | rfl | rfl | rfl | rfl | rfl | rfl | rfl | rfl | rfl | rfl | rfl
  all_goals
    rw [opcode, h0 (by decide)]
    simp only [matchBits, BitVec.reduceHShiftRight, BitVec.reduceAnd] at h2 h12 h25 h27 hnone ⊢
    rw [opcodeQuadrant3, h2 (by decide)]
    simp only
  all_goals first
    -- Shifts have a key beside the amount.
    | simp only [h12 (by decide), h27 (by decide), BitVec.ofNat_eq_ofNat, reduceIte]
    | simp only [h12 (by decide), BitVec.ofNat_eq_ofNat, reduceIte]
    -- Operations on two registers have a key of two parts.
    | simp only [opcodeOp, opcodeOp32, h12 (by decide), h25 (by decide), BitVec.reduceOr]
    | rw [hnone rfl]
      rfl

end

/-! ## Reading the operands back -/

section
variable {operand : RvInst → BitVec 32} {p : BitPiece} {f : Layout} {w : RvInst}

theorem Reads.field_eq (h : Reads operand f) {v : BitVec 8} (hw : gather f w = v.setWidth 64) :
    (operand w).setWidth 8 = v := by
  rw [h w, hw]
  simp

theorem Reads.eq_of_gather (h : Reads operand f) {v : BitVec 32}
    (hw : gather f w = v.setWidth 64) : operand w = v := by
  rw [h w, hw]
  simp

theorem ReadsSigned.eq_of_gather (h : ReadsSigned operand p f) (hfits : Fits 64 (p :: f))
    (htop : ∀ q ∈ f, q.dst + q.len ≤ p.dst) {v : BitVec 32}
    (hw : gather (p :: f) w = (v.setWidth (p.dst + p.len)).setWidth 64)
    (hv : SignedFits (p.dst + p.len) v) : operand w = v := by
  have hk : p.dst + p.len ≤ 64 := (hfits p (List.mem_cons_self ..)).2.2
  rw [h.eq hfits htop w, hw, BitVec.setWidth_setWidth_of_le _ hk, BitVec.setWidth_eq, hv]

end

/-- The fields that a codec of `operandLayouts` leaves at zero. -/
def Unused (dec : RvDecode) : RvCodec → Prop
  | .u | .uj => dec.rs1 = 0 ∧ dec.rs2 = 0
  | .i | .iSh7 => dec.rs2 = 0
  | .s | .sb => dec.rd = 0
  | .none => dec.rd = 0 ∧ dec.rs1 = 0 ∧ dec.rs2 = 0
  | _ => True

/-- An instruction that `encode` writes. -/
structure Encodable (dec : RvDecode) : Prop where
  op : dec.op ∈ expandedOps
  codec : dec.codec = (opcodeData dec.op).codec
  regs : RegsInRange dec
  imm : ImmInRange dec.codec dec.imm
  unused : Unused dec dec.codec
  rest : dec.rs3 = 0 ∧ dec.rm = 0 ∧ dec.pred = 0 ∧ dec.succ = 0 ∧ dec.aq = 0 ∧ dec.rl = 0

/-- The codecs of the opcodes written. -/
def expandedCodecs : List RvCodec := [.u, .uj, .i, .iSh7, .s, .sb, .r, .none]

theorem codec_mem_expandedCodecs {op : RvOp} (h : op ∈ expandedOps) :
    (opcodeData op).codec ∈ expandedCodecs := by
  revert op
  decide

section
variable {dec : RvDecode} {codec : RvCodec}

theorem toNat_setWidth_le {n : Nat} (x : BitVec n) : (x.setWidth 64).toNat ≤ x.toNat := by
  rw [BitVec.toNat_setWidth]
  exact Nat.mod_le _ _

theorem holds_reg {r : BitVec 8} (h : r.toNat < 32) {f : Layout}
    (hcovers : ∀ i < 5, 0 ≤ i → f.covers i = true) : f.Holds (r.setWidth 64) :=
  holds_of_lt (Nat.lt_of_le_of_lt (toNat_setWidth_le r) h)
    (fun i hi => absurd hi (Nat.not_lt_zero i)) hcovers

/-- A truncated immediate whose lowest bits are zero. -/
theorem holds_imm {imm : BitVec 32} {f : Layout} {l k : Nat}
    (hlow : ∀ i < l, imm.getLsbD i = false) (hcovers : ∀ i < k, l ≤ i → f.covers i = true) :
    f.Holds ((imm.setWidth k).setWidth 64) := by
  refine holds_of_lt (Nat.lt_of_le_of_lt (toNat_setWidth_le _) (imm.setWidth k).isLt)
    (fun i hi => ?_) hcovers
  rw [BitVec.getLsbD_setWidth, BitVec.getLsbD_setWidth, hlow i hi, Bool.and_false, Bool.and_false]

/-- The operands fit their layouts. -/
theorem operandFields_holds (hcodec : codec ∈ expandedCodecs) (hregs : RegsInRange dec)
    (himm : ImmInRange codec dec.imm) : ∀ f ∈ operandFields dec codec, Holds f.1 f.2 := by
  have hlow : dec.imm.getLsbD 0 = false → ∀ i < 1, dec.imm.getLsbD i = false := fun h i hi =>
    Nat.lt_one_iff.1 hi ▸ h
  have hany : ∀ i < 0, dec.imm.getLsbD i = false := fun i hi => absurd hi (Nat.not_lt_zero i)
  simp only [expandedCodecs, List.mem_cons, List.not_mem_nil, or_false] at hcodec
  rcases hcodec with rfl | rfl | rfl | rfl | rfl | rfl | rfl | rfl
  all_goals
    simp only [operandFields, operandLayouts, operandValues, List.zip_cons_cons,
      List.zip_nil_left, List.forall_mem_cons]
  case inl =>
    have hzero : ∀ i < 12, dec.imm.getLsbD i = false := fun i hi => by
      have := congrArg (·.getLsbD i) himm
      simpa [hi] using this
    exact ⟨holds_reg hregs.rd (by decide), holds_imm hzero (by decide), by simp⟩
  case inr.inl =>
    exact ⟨holds_reg hregs.rd (by decide), holds_imm (hlow himm.2) (by decide), by simp⟩
  case inr.inr.inl =>
    exact ⟨holds_reg hregs.rd (by decide), holds_reg hregs.rs1 (by decide),
      holds_imm hany (by decide), by simp⟩
  case inr.inr.inr.inl =>
    refine ⟨holds_reg hregs.rd (by decide), holds_reg hregs.rs1 (by decide), ?_, by simp⟩
    exact holds_of_lt (l := 0) (Nat.lt_of_le_of_lt (toNat_setWidth_le _) himm)
      (fun i hi => absurd hi (Nat.not_lt_zero i)) (by decide)
  case inr.inr.inr.inr.inl =>
    exact ⟨holds_reg hregs.rs1 (by decide), holds_reg hregs.rs2 (by decide),
      holds_imm hany (by decide), by simp⟩
  case inr.inr.inr.inr.inr.inl =>
    exact ⟨holds_reg hregs.rs1 (by decide), holds_reg hregs.rs2 (by decide),
      holds_imm (hlow himm.2) (by decide), by simp⟩
  case inr.inr.inr.inr.inr.inr.inl =>
    exact ⟨holds_reg hregs.rd (by decide), holds_reg hregs.rs1 (by decide),
      holds_reg hregs.rs2 (by decide), by simp⟩
  case inr.inr.inr.inr.inr.inr.inr => simp

theorem decodeOperandsAs_of_reads (hcodec : codec ∈ expandedCodecs)
    (himm : ImmInRange codec dec.imm) (hunused : Unused dec codec)
    (hrest : dec.rs3 = 0 ∧ dec.rm = 0 ∧ dec.pred = 0 ∧ dec.succ = 0 ∧ dec.aq = 0 ∧ dec.rl = 0)
    (pc : BitVec 64) {w : RvInst}
    (hread : ∀ f ∈ operandFields dec codec, gather f.1 w = f.2) :
    decodeOperandsAs codec { RvDecode.init pc w with op := dec.op, codec := dec.codec } =
      { dec with pc := pc, inst := w } := by
  obtain ⟨pc', inst', imm, op, codec', rd, rs1, rs2, rs3, rm, pred, succ, aq, rl⟩ := dec
  obtain ⟨rfl, rfl, rfl, rfl, rfl, rfl⟩ := hrest
  simp only [expandedCodecs, List.mem_cons, List.not_mem_nil, or_false] at hcodec
  rcases hcodec with rfl | rfl | rfl | rfl | rfl | rfl | rfl | rfl
  all_goals
    simp only [operandFields, operandLayouts, operandValues, List.zip_cons_cons,
      List.zip_nil_left, List.forall_mem_cons] at hread
    simp only [decodeOperandsAs, RvDecode.init]
  case inl =>
    obtain ⟨rfl, rfl⟩ := hunused
    rw [reads_rd.field_eq hread.1,
      reads_imm20.eq_of_gather (by decide) (by decide) hread.2.1 (by simp [SignedFits])]
  case inr.inl =>
    obtain ⟨rfl, rfl⟩ := hunused
    rw [reads_rd.field_eq hread.1,
      reads_jimm20.eq_of_gather (by decide) (by decide) hread.2.1 himm.1]
  case inr.inr.inl =>
    obtain rfl := hunused
    rw [reads_rd.field_eq hread.1, reads_rs1.field_eq hread.2.1,
      reads_imm12.eq_of_gather (by decide) (by decide) hread.2.2.1 himm]
  case inr.inr.inr.inl =>
    obtain rfl := hunused
    rw [reads_rd.field_eq hread.1, reads_rs1.field_eq hread.2.1,
      reads_shamt7.eq_of_gather hread.2.2.1]
  case inr.inr.inr.inr.inl =>
    obtain rfl := hunused
    rw [reads_rs1.field_eq hread.1, reads_rs2.field_eq hread.2.1,
      reads_simm12.eq_of_gather (by decide) (by decide) hread.2.2.1 himm]
  case inr.inr.inr.inr.inr.inl =>
    obtain rfl := hunused
    rw [reads_rs1.field_eq hread.1, reads_rs2.field_eq hread.2.1,
      reads_sbimm12.eq_of_gather (by decide) (by decide) hread.2.2.1 himm.1]
  case inr.inr.inr.inr.inr.inr.inl =>
    obtain rfl := himm
    rw [reads_rd.field_eq hread.1, reads_rs1.field_eq hread.2.1, reads_rs2.field_eq hread.2.2.1]
    rfl
  case inr.inr.inr.inr.inr.inr.inr =>
    obtain rfl := himm
    obtain ⟨rfl, rfl, rfl⟩ := hunused
    rfl

end

theorem fits_of_mem_operandFields {dec : RvDecode} {f : Layout × RvInst} (hf : f ∈ operandFields dec dec.codec) :
    Fits 64 f.1 ∧ Simple f.1 ∧ ∀ p ∈ f.1, p.src + p.len ≤ 32 :=
  operandLayouts_fits dec.codec f.1 (operandFields_fst dec dec.codec ▸ List.mem_map_of_mem hf)

section
variable {dec : RvDecode} (h : Encodable dec)
include h

theorem opcode_encode (isa : RvIsa) : opcode isa (encode dec) = dec.op := by
  refine opcode_assemble h.op ?_
  rw [operandFields_fst, h.codec]

theorem Encodable.fullSize : dec.op.FullSize := by
  have hall : ∀ op ∈ expandedOps, op.FullSize := by decide
  exact hall _ h.op

theorem toNat_encode_lt : (encode dec).toNat < 2 ^ 32 := by
  have hmatch : ∀ op ∈ expandedOps, (matchBits op).toNat < 2 ^ 32 := by decide
  exact toNat_assemble_lt (fun f hf => (fits_of_mem_operandFields hf).1)
    (fun f hf => (fits_of_mem_operandFields hf).2.2) (hmatch _ h.op)

theorem gather_encode {f : Layout × RvInst} (hf : f ∈ operandFields dec dec.codec) :
    gather f.1 (encode dec) = f.2 := by
  have hcodec : dec.codec ∈ expandedCodecs := h.codec ▸ codec_mem_expandedCodecs h.op
  have hapart : (operandFields dec dec.codec).Pairwise fun f g => Apart f.1 g.1 := by
    rw [← List.pairwise_map (R := Apart) (f := Prod.fst), operandFields_fst]
    exact operandLayouts_apart dec.codec
  refine gather_assemble (fun g hg => ?_) (operandFields_holds hcodec h.regs h.imm) hapart hf ?_
  · exact ⟨(fits_of_mem_operandFields hg).1, (fits_of_mem_operandFields hg).2.1⟩
  · refine matchBits_apart h.op f.1 ?_
    rw [← h.codec, ← operandFields_fst dec]
    exact List.mem_map_of_mem hf

/-- The disassembler reads back what `encode` writes, for every ISA and wherever it is. -/
theorem decodeInst_encode (isa : RvIsa) (pc : BitVec 64) :
    decodeInst isa pc (encode dec) = { dec with pc := pc, inst := encode dec } := by
  have hcodec : dec.codec ∈ expandedCodecs := h.codec ▸ codec_mem_expandedCodecs h.op
  have hread := decodeOperandsAs_of_reads hcodec h.imm h.unused h.rest pc
    fun f hf => gather_encode h hf
  rw [decodeInst_eq, decompressInst_of_fullSize, decoded_eq, opcode_encode h, ← h.codec, hread]
  rw [decoded_op, opcode_encode h]
  exact h.fullSize

end

/-! ## Compressed instructions -/

theorem decomp_mem_expandedOps {isa : RvIsa} {op : RvOp} (h : op.Decompresses isa) :
    (opcodeData op).decomp isa ∈ expandedOps := by
  revert h
  cases isa <;> cases op <;> decide

/-- A compressed codec fills no field that its target leaves at zero. -/
theorem unused_of_expansion {codec target : RvCodec} (h : (codec, target) ∈ expansions)
    (dec : RvDecode) : Unused (decodeOperandsAs codec dec) target := by
  simp only [expansions, List.mem_cons, List.not_mem_nil, or_false, Prod.mk.injEq] at h
  cases codec <;> simp only [reduceCtorEq, false_and, true_and, false_or, or_false] at h
  case ciNone =>
    rcases h with rfl | rfl
    · rfl
    · exact ⟨rfl, rfl, rfl⟩
  all_goals subst h
  case ciLui | cj | cjJal => exact ⟨rfl, rfl⟩
  case cr | cs => exact trivial
  all_goals rfl

/-- Nor does it fill a field that only full-size instructions have. -/
theorem rest_of_expansion {codec target : RvCodec} (h : (codec, target) ∈ expansions)
    (dec : RvDecode) : (decodeOperandsAs codec dec).rs3 = dec.rs3 ∧
      (decodeOperandsAs codec dec).rm = dec.rm ∧ (decodeOperandsAs codec dec).pred = dec.pred ∧
      (decodeOperandsAs codec dec).succ = dec.succ ∧ (decodeOperandsAs codec dec).aq = dec.aq ∧
      (decodeOperandsAs codec dec).rl = dec.rl := by
  simp only [expansions, List.mem_cons, List.not_mem_nil, or_false, Prod.mk.injEq] at h
  cases codec <;> simp only [reduceCtorEq, false_and, true_and, false_or, or_false] at h
  all_goals exact ⟨rfl, rfl, rfl, rfl, rfl, rfl⟩

theorem decodeInst_encodable {isa : RvIsa} {pc : BitVec 64} {inst : RvInst}
    (hlow : inst &&& 0b11#64 ≠ 0b11#64) (h : (decodeInst isa pc inst).op ≠ .illegal) :
    Encodable (decodeInst isa pc inst) := by
  have hrange := decodeInst_inRange h
  have hcodec := decodeInst_codec h
  rcases decodeInst_cases h with ⟨hlow', _⟩ | ⟨_, hop, _, heq⟩
  · exact absurd hlow' hlow
  · have hmem := codec_mem_expansions hop
    have hrest := rest_of_expansion hmem { RvDecode.init pc inst with
      op := opcode isa inst
      codec := (opcodeData (opcode isa inst)).codec }
    refine ⟨?_, hcodec, hrange.1, hrange.2, ?_, ?_⟩
    · rw [heq]
      exact decomp_mem_expandedOps hop
    · rw [heq, decoded_eq]
      exact unused_of_expansion hmem _
    · rw [heq, decoded_eq]
      exact hrest

theorem liftPseudo_inst (dec : RvDecode) (w : RvInst) : decodeInstLiftPseudo { dec with inst := w } =
    { decodeInstLiftPseudo dec with inst := w } := by
  have hcheck : ∀ c : RvCompData, checkConstraints { dec with inst := w } c.constraints =
      checkConstraints dec c.constraints := fun _ => rfl
  unfold decodeInstLiftPseudo
  simp only [hcheck]
  split <;> rfl

theorem decodeInst_pc {isa : RvIsa} {pc : BitVec 64} {inst : RvInst}
    (h : (decodeInst isa pc inst).op ≠ .illegal) : (decodeInst isa pc inst).pc = pc := by
  have hpc : ∀ codec dec, (decodeOperandsAs codec dec).pc = dec.pc := fun codec dec => by
    cases codec <;> simp only [decodeOperandsAs]
  rcases decodeInst_cases h with ⟨_, _, heq⟩ | ⟨_, _, _, heq⟩
  all_goals
    rw [heq, decoded_eq]
    exact hpc _ _

/-- **Every compressed instruction is short for a 32-bit one**: a word of four bytes that is decoded
to the same instruction, for whichever ISA, and shown as the same pseudo-instruction. -/
theorem expansion {isa : RvIsa} {pc : BitVec 64} {inst : RvInst}
    (hlow : inst &&& 0b11#64 ≠ 0b11#64) (h : disasmInst isa pc inst = true) :
    ∃ w : RvInst, w.toNat < 2 ^ 32 ∧ instLength w = 4 ∧ ∀ isa',
      decodeInst isa' pc w = { decodeInst isa pc inst with inst := w } ∧
      decodeInstLiftPseudo (decodeInst isa' pc w) =
        { decodeInstLiftPseudo (decodeInst isa pc inst) with inst := w } := by
  rw [disasmInst_iff] at h
  have henc := decodeInst_encodable hlow h
  have hdec : ∀ isa', decodeInst isa' pc (encode (decodeInst isa pc inst)) =
      { decodeInst isa pc inst with inst := encode (decodeInst isa pc inst) } := fun isa' => by
    rw [decodeInst_encode henc isa' pc]
    have hpc := decodeInst_pc h
    generalize decodeInst isa pc inst = dec at hpc
    subst hpc
    rfl
  refine ⟨encode (decodeInst isa pc inst), toNat_encode_lt henc, ?_, fun isa' => ⟨hdec isa', ?_⟩⟩
  · have hlen := @instLength_of_op_ne isa pc (encode (decodeInst isa pc inst)) (hdec isa ▸ h)
    rw [hlen, opcode_encode henc, if_pos henc.fullSize]
  · rw [hdec isa', liftPseudo_inst]

/-- `c.addi x1, 1` is short for `addi x1, x1, 1`. -/
theorem expansion_addi : ∃ w : RvInst, w.toNat < 2 ^ 32 ∧ instLength w = 4 ∧ ∀ isa',
    decodeInst isa' 0 w = { decodeInst .rv64 0 0x0085#64 with inst := w } ∧
    decodeInstLiftPseudo (decodeInst isa' 0 w) =
      { decodeInstLiftPseudo (decodeInst .rv64 0 0x0085#64) with inst := w } :=
  expansion (by decide) (by decide)

end IScanU.RVDisas
