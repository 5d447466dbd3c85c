import IScanU.Verify.RVDisas.NormalForm
import IScanU.Theory.BitField

/-! # Operands of decoded instructions

Every operand extractor reads a layout (`reads_rd` and the lemmas after it). Register numbers are
below 32, so they index the tables of register names, and the immediate is in the range of the codec
that the instruction ends up with, whether it was compressed or not (`operands_inRange`). -/

namespace IScanU.RVDisas

open Layout

/-- The extractor reads an unsigned operand. -/
def Reads (operand : RvInst → BitVec 32) (f : Layout) : Prop :=
  ∀ inst, operand inst = (gather f inst).setWidth 32

/-- The extractor reads a signed operand; the first piece holds its sign. -/
def ReadsSigned (operand : RvInst → BitVec 32) (p : BitPiece) (f : Layout) : Prop :=
  ∀ inst, operand inst = (gatherSigned p f inst).setWidth 32

section
variable {operand : RvInst → BitVec 32} {p : BitPiece} {f : Layout} {k : Nat}

theorem Reads.lt (h : Reads operand f) (hfits : Fits 64 f) (htop : ∀ p ∈ f, p.dst + p.len ≤ k)
    (inst : RvInst) : (operand inst).toNat < 2 ^ k := by
  rw [h inst, BitVec.toNat_setWidth]
  exact Nat.lt_of_le_of_lt (Nat.mod_le _ _) (toNat_gather_lt hfits htop inst)

/-- The value of a field of `RvDecode`. -/
theorem Reads.field_lt (h : Reads operand f) (hfits : Fits 64 f)
    (htop : ∀ p ∈ f, p.dst + p.len ≤ k) (inst : RvInst) :
    ((operand inst).setWidth 8).toNat < 2 ^ k := by
  rw [BitVec.toNat_setWidth]
  exact Nat.lt_of_le_of_lt (Nat.mod_le _ _) (h.lt hfits htop inst)

/-- The eight registers that a compressed instruction can name with three bits. -/
theorem Reads.popular_lt (h : Reads operand f) (hfits : Fits 64 f)
    (htop : ∀ p ∈ f, p.dst + p.len ≤ 3) (inst : RvInst) :
    ((operand inst + 8).setWidth 8).toNat < 16 := by
  have := h.lt hfits htop inst
  rw [BitVec.toNat_setWidth, BitVec.toNat_add]
  have : (8 : BitVec 32).toNat = 8 := rfl
  omega

theorem ReadsSigned.eq (h : ReadsSigned operand p f) (hfits : Fits 64 (p :: f))
    (htop : ∀ q ∈ f, q.dst + q.len ≤ p.dst) (inst : RvInst) :
    operand inst = ((gather (p :: f) inst).setWidth (p.dst + p.len)).signExtend 32 := by
  rw [h inst, setWidth_gatherSigned hfits htop (by decide)]

theorem ReadsSigned.fits (h : ReadsSigned operand p f) (hfits : Fits 64 (p :: f))
    (htop : ∀ q ∈ f, q.dst + q.len ≤ p.dst) (hk : p.dst + p.len ≤ k) (hk' : k ≤ 32)
    (inst : RvInst) : SignedFits k (operand inst) := by
  have hpos := (hfits p (List.mem_cons_self ..)).1
  rw [h.eq hfits htop inst]
  exact signedFits_signExtend _ (by omega) hk hk'

/-- Where no piece lies a signed operand is zero, too. -/
theorem ReadsSigned.getLsbD (h : ReadsSigned operand p f) (hfits : Fits 64 (p :: f))
    (htop : ∀ q ∈ f, q.dst + q.len ≤ p.dst) {i : Nat} (hi : i < p.dst + p.len)
    (hcovers : covers (p :: f) i = false) (inst : RvInst) : (operand inst).getLsbD i = false := by
  rw [h.eq hfits htop inst, BitVec.getLsbD_signExtend, BitVec.getLsbD_setWidth,
    getLsbD_gather_of_not_covers hfits inst hcovers]
  simp [hi]

end

/-! ## The layouts -/

theorem reads_rd : Reads operandRd [⟨7, 5, 0⟩] := fun _ => by
  simp [operandRd, BitPiece.get]

theorem reads_rs1 : Reads operandRs1 [⟨15, 5, 0⟩] := fun _ => by
  simp [operandRs1, BitPiece.get]

theorem reads_rs2 : Reads operandRs2 [⟨20, 5, 0⟩] := fun _ => by
  simp [operandRs2, BitPiece.get]

theorem reads_rs3 : Reads operandRs3 [⟨27, 5, 0⟩] := fun _ => by
  simp [operandRs3, BitPiece.get]

theorem reads_aq : Reads operandAq [⟨26, 1, 0⟩] := fun _ => by
  simp [operandAq, BitPiece.get]

theorem reads_rl : Reads operandRl [⟨25, 1, 0⟩] := fun _ => by
  simp [operandRl, BitPiece.get]

theorem reads_pred : Reads operandPred [⟨24, 4, 0⟩] := fun _ => by
  simp [operandPred, BitPiece.get]

theorem reads_succ : Reads operandSucc [⟨20, 4, 0⟩] := fun _ => by
  simp [operandSucc, BitPiece.get]

theorem reads_rm : Reads operandRm [⟨12, 3, 0⟩] := fun _ => by
  simp [operandRm, BitPiece.get]

theorem reads_shamt5 : Reads operandShamt5 [⟨20, 5, 0⟩] := fun _ => by
  simp [operandShamt5, BitPiece.get]

theorem reads_shamt6 : Reads operandShamt6 [⟨20, 6, 0⟩] := fun _ => by
  simp [operandShamt6, BitPiece.get]

theorem reads_shamt7 : Reads operandShamt7 [⟨20, 7, 0⟩] := fun _ => by
  simp [operandShamt7, BitPiece.get]

theorem reads_crdq : Reads operandCrdq [⟨2, 3, 0⟩] := fun _ => by
  simp [operandCrdq, BitPiece.get]

theorem reads_crs1q : Reads operandCrs1q [⟨7, 3, 0⟩] := fun _ => by
  simp [operandCrs1q, BitPiece.get]

theorem reads_crs1rdq : Reads operandCrs1rdq [⟨7, 3, 0⟩] := fun _ => by
  simp [operandCrs1rdq, BitPiece.get]

theorem reads_crs2q : Reads operandCrs2q [⟨2, 3, 0⟩] := fun _ => by
  simp [operandCrs2q, BitPiece.get]

theorem reads_crd : Reads operandCrd [⟨7, 5, 0⟩] := fun _ => by
  simp [operandCrd, BitPiece.get]

theorem reads_crs1 : Reads operandCrs1 [⟨7, 5, 0⟩] := fun _ => by
  simp [operandCrs1, BitPiece.get]

theorem reads_crs1rd : Reads operandCrs1rd [⟨7, 5, 0⟩] := fun _ => by
  simp [operandCrs1rd, BitPiece.get]

theorem reads_crs2 : Reads operandCrs2 [⟨2, 5, 0⟩] := fun _ => by
  simp [operandCrs2, BitPiece.get]

theorem reads_csr12 : Reads operandCsr12 [⟨20, 12, 0⟩] := fun _ => by
  simp [operandCsr12, BitPiece.get]

theorem reads_imm12 : ReadsSigned operandImm12 ⟨20, 12, 0⟩ [] := fun _ => by
  simp [operandImm12, gatherSigned, BitPiece.getSigned]

theorem reads_imm20 : ReadsSigned operandImm20 ⟨12, 20, 12⟩ [] := fun _ => by
  simp [operandImm20, gatherSigned, BitPiece.getSigned]

theorem reads_jimm20 :
    ReadsSigned operandJimm20 ⟨31, 1, 20⟩ [⟨21, 10, 1⟩, ⟨20, 1, 11⟩, ⟨12, 8, 12⟩] := fun _ => by
  simp [operandJimm20, gatherSigned, BitPiece.getSigned, BitPiece.get, BitVec.or_assoc]

theorem reads_simm12 : ReadsSigned operandSimm12 ⟨25, 7, 5⟩ [⟨7, 5, 0⟩] := fun _ => by
  simp [operandSimm12, gatherSigned, BitPiece.getSigned, BitPiece.get]

theorem reads_sbimm12 :
    ReadsSigned operandSbimm12 ⟨31, 1, 12⟩ [⟨25, 6, 5⟩, ⟨8, 4, 1⟩, ⟨7, 1, 11⟩] := fun _ => by
  simp [operandSbimm12, gatherSigned, BitPiece.getSigned, BitPiece.get, BitVec.or_assoc]

theorem reads_cimmsh6 : Reads operandCimmsh6 [⟨12, 1, 5⟩, ⟨2, 5, 0⟩] := fun _ => by
  simp [operandCimmsh6, BitPiece.get]

theorem reads_cimmi : ReadsSigned operandCimmi ⟨12, 1, 5⟩ [⟨2, 5, 0⟩] := fun _ => by
  simp [operandCimmi, gatherSigned, BitPiece.getSigned, BitPiece.get]

theorem reads_cimmui : ReadsSigned operandCimmui ⟨12, 1, 17⟩ [⟨2, 5, 12⟩] := fun _ => by
  simp [operandCimmui, gatherSigned, BitPiece.getSigned, BitPiece.get]

theorem reads_cimmlwsp : Reads operandCimmlwsp [⟨12, 1, 5⟩, ⟨4, 3, 2⟩, ⟨2, 2, 6⟩] := fun _ => by
  simp [operandCimmlwsp, BitPiece.get, BitVec.or_assoc]

theorem reads_cimmldsp : Reads operandCimmldsp [⟨12, 1, 5⟩, ⟨5, 2, 3⟩, ⟨2, 3, 6⟩] := fun _ => by
  simp [operandCimmldsp, BitPiece.get, BitVec.or_assoc]

theorem reads_cimmlqsp : Reads operandCimmlqsp [⟨12, 1, 5⟩, ⟨6, 1, 4⟩, ⟨2, 4, 6⟩] := fun _ => by
  simp [operandCimmlqsp, BitPiece.get, BitVec.or_assoc]

theorem reads_cimm16sp :
    ReadsSigned operandCimm16sp ⟨12, 1, 9⟩ [⟨6, 1, 4⟩, ⟨5, 1, 6⟩, ⟨3, 2, 7⟩, ⟨2, 1, 5⟩] := fun _ => by
  simp [operandCimm16sp, gatherSigned, BitPiece.getSigned, BitPiece.get, BitVec.or_assoc]

theorem reads_cimmj :
    ReadsSigned operandCimmj ⟨12, 1, 11⟩ [⟨11, 1, 4⟩, ⟨9, 2, 8⟩, ⟨8, 1, 10⟩, ⟨7, 1, 6⟩, ⟨6, 1, 7⟩,
      ⟨3, 3, 1⟩, ⟨2, 1, 5⟩] := fun _ => by
  simp [operandCimmj, gatherSigned, BitPiece.getSigned, BitPiece.get, BitVec.or_assoc]

theorem reads_cimmb :
    ReadsSigned operandCimmb ⟨12, 1, 8⟩ [⟨10, 2, 3⟩, ⟨5, 2, 6⟩, ⟨3, 2, 1⟩, ⟨2, 1, 5⟩] := fun _ => by
  simp [operandCimmb, gatherSigned, BitPiece.getSigned, BitPiece.get, BitVec.or_assoc]

theorem reads_cimmswsp : Reads operandCimmswsp [⟨9, 4, 2⟩, ⟨7, 2, 6⟩] := fun _ => by
  simp [operandCimmswsp, BitPiece.get]

theorem reads_cimmsdsp : Reads operandCimmsdsp [⟨10, 3, 3⟩, ⟨7, 3, 6⟩] := fun _ => by
  simp [operandCimmsdsp, BitPiece.get]

theorem reads_cimmsqsp : Reads operandCimmsqsp [⟨11, 2, 4⟩, ⟨7, 4, 6⟩] := fun _ => by
  simp [operandCimmsqsp, BitPiece.get]

theorem reads_cimm4spn :
    Reads operandCimm4spn [⟨11, 2, 4⟩, ⟨7, 4, 6⟩, ⟨6, 1, 2⟩, ⟨5, 1, 3⟩] := fun _ => by
  simp [operandCimm4spn, BitPiece.get, BitVec.or_assoc]

theorem reads_cimmw : Reads operandCimmw [⟨10, 3, 3⟩, ⟨6, 1, 2⟩, ⟨5, 1, 6⟩] := fun _ => by
  simp [operandCimmw, BitPiece.get, BitVec.or_assoc]

theorem reads_cimmd : Reads operandCimmd [⟨10, 3, 3⟩, ⟨5, 2, 6⟩] := fun _ => by
  simp [operandCimmd, BitPiece.get]

theorem reads_cimmq : Reads operandCimmq [⟨11, 2, 4⟩, ⟨10, 1, 8⟩, ⟨5, 2, 6⟩] := fun _ => by
  simp [operandCimmq, BitPiece.get, BitVec.or_assoc]

/-! ## Ranges -/

/-- Register numbers and the other small fields have the width of their place in the word. -/
structure RegsInRange (dec : RvDecode) : Prop where
  rd : dec.rd.toNat < 32
  rs1 : dec.rs1.toNat < 32
  rs2 : dec.rs2.toNat < 32
  rs3 : dec.rs3.toNat < 32
  rm : dec.rm.toNat < 8
  pred : dec.pred.toNat < 16
  succ : dec.succ.toNat < 16
  aq : dec.aq.toNat < 2
  rl : dec.rl.toNat < 2

section
variable (inst : RvInst)

theorem rd_lt : ((operandRd inst).setWidth 8).toNat < 32 :=
  reads_rd.field_lt (k := 5) (by decide) (by decide) inst

theorem crd_lt : ((operandCrd inst).setWidth 8).toNat < 32 :=
  reads_crd.field_lt (k := 5) (by decide) (by decide) inst

theorem rs1_lt : ((operandRs1 inst).setWidth 8).toNat < 32 :=
  reads_rs1.field_lt (k := 5) (by decide) (by decide) inst

theorem crs1_lt : ((operandCrs1 inst).setWidth 8).toNat < 32 :=
  reads_crs1.field_lt (k := 5) (by decide) (by decide) inst

theorem crs1rd_lt : ((operandCrs1rd inst).setWidth 8).toNat < 32 :=
  reads_crs1rd.field_lt (k := 5) (by decide) (by decide) inst

theorem rs2_lt : ((operandRs2 inst).setWidth 8).toNat < 32 :=
  reads_rs2.field_lt (k := 5) (by decide) (by decide) inst

theorem crs2_lt : ((operandCrs2 inst).setWidth 8).toNat < 32 :=
  reads_crs2.field_lt (k := 5) (by decide) (by decide) inst

theorem rs3_lt : ((operandRs3 inst).setWidth 8).toNat < 32 :=
  reads_rs3.field_lt (k := 5) (by decide) (by decide) inst

theorem crdq_lt : ((operandCrdq inst + 8).setWidth 8).toNat < 16 :=
  reads_crdq.popular_lt (by decide) (by decide) inst

theorem crs1q_lt : ((operandCrs1q inst + 8).setWidth 8).toNat < 16 :=
  reads_crs1q.popular_lt (by decide) (by decide) inst

theorem crs1rdq_lt : ((operandCrs1rdq inst + 8).setWidth 8).toNat < 16 :=
  reads_crs1rdq.popular_lt (by decide) (by decide) inst

theorem crs2q_lt : ((operandCrs2q inst + 8).setWidth 8).toNat < 16 :=
  reads_crs2q.popular_lt (by decide) (by decide) inst

end

theorem decodeOperandsAs_rd_lt {dec : RvDecode} (h : dec.rd.toNat < 32) (codec : RvCodec) :
    (decodeOperandsAs codec dec).rd.toNat < 32 := by
  have hpopular {n : Nat} (hn : n < 16) : n < 32 := Nat.lt_trans hn (by decide)
  cases codec <;> simp only [decodeOperandsAs]
  all_goals first
    | with_reducible exact h
    | with_reducible exact rd_lt _
    | with_reducible exact crd_lt _
    | with_reducible exact crs1rd_lt _
    | with_reducible exact hpopular (crdq_lt _)
    | with_reducible exact hpopular (crs1rdq_lt _)
    | decide

theorem decodeOperandsAs_rs1_lt {dec : RvDecode} (h : dec.rs1.toNat < 32) (codec : RvCodec) :
    (decodeOperandsAs codec dec).rs1.toNat < 32 := by
  have hpopular {n : Nat} (hn : n < 16) : n < 32 := Nat.lt_trans hn (by decide)
  cases codec <;> simp only [decodeOperandsAs]
  all_goals first
    | with_reducible exact h
    | with_reducible exact rs1_lt _
    | with_reducible exact crs1_lt _
    | with_reducible exact crs1rd_lt _
    | with_reducible exact crs2_lt _
    | with_reducible exact hpopular (crs1q_lt _)
    | with_reducible exact hpopular (crs1rdq_lt _)
    | decide

theorem decodeOperandsAs_rs2_lt {dec : RvDecode} (h : dec.rs2.toNat < 32) (codec : RvCodec) :
    (decodeOperandsAs codec dec).rs2.toNat < 32 := by
  have hpopular {n : Nat} (hn : n < 16) : n < 32 := Nat.lt_trans hn (by decide)
  cases codec <;> simp only [decodeOperandsAs]
  all_goals first
    | with_reducible exact h
    | with_reducible exact rs2_lt _
    | with_reducible exact crs2_lt _
    | with_reducible exact hpopular (crs2q_lt _)
    | decide

theorem decodeOperandsAs_regs {dec : RvDecode} (h : RegsInRange dec) (codec : RvCodec) :
    RegsInRange (decodeOperandsAs codec dec) where
  rd := decodeOperandsAs_rd_lt h.rd codec
  rs1 := decodeOperandsAs_rs1_lt h.rs1 codec
  rs2 := decodeOperandsAs_rs2_lt h.rs2 codec
  rs3 := by
    cases codec <;> simp only [decodeOperandsAs]
    all_goals first | with_reducible exact h.rs3 | exact rs3_lt _
  rm := by
    cases codec <;> simp only [decodeOperandsAs]
    all_goals first
      | with_reducible exact h.rm
      | exact reads_rm.field_lt (k := 3) (by decide) (by decide) _
  pred := by
    cases codec <;> simp only [decodeOperandsAs]
    all_goals first
      | with_reducible exact h.pred
      | exact reads_pred.field_lt (k := 4) (by decide) (by decide) _
  succ := by
    cases codec <;> simp only [decodeOperandsAs]
    all_goals first
      | with_reducible exact h.succ
      | exact reads_succ.field_lt (k := 4) (by decide) (by decide) _
  aq := by
    cases codec <;> simp only [decodeOperandsAs]
    all_goals first
      | with_reducible exact h.aq
      | exact reads_aq.field_lt (k := 1) (by decide) (by decide) _
  rl := by
    cases codec <;> simp only [decodeOperandsAs]
    all_goals first
      | with_reducible exact h.rl
      | exact reads_rl.field_lt (k := 1) (by decide) (by decide) _

/-- The immediates of the codecs of full-size instructions. -/
def ImmInRange (codec : RvCodec) (imm : BitVec 32) : Prop :=
  match codec with
  | .u => imm.setWidth 12 = 0#12
  | .uj => SignedFits 21 imm ∧ imm.getLsbD 0 = false
  | .i | .s => SignedFits 12 imm
  | .iSh5 => imm.toNat < 2 ^ 5
  | .iSh6 => imm.toNat < 2 ^ 6
  | .iSh7 => imm.toNat < 2 ^ 7
  | .iCsr => imm.toNat < 2 ^ 12
  | .sb => SignedFits 13 imm ∧ imm.getLsbD 0 = false
  | _ => imm = 0#32

/-- The codecs of full-size instructions. -/
def fullSizeCodecs : List RvCodec :=
  [.none, .u, .uj, .i, .iSh5, .iSh6, .iSh7, .iCsr, .s, .sb, .r, .rM, .r4M, .rA, .rL, .rF]

/-- The codec of a compressed instruction, and the codec of what it is decompressed into. -/
def expansions : List (RvCodec × RvCodec) :=
  [(.cb, .sb), (.cbImm, .i), (.cbSh6, .iSh7), (.ci, .i), (.ciSh6, .iSh7), (.ci16sp, .i),
    (.ciLwsp, .i), (.ciLdsp, .i), (.ciLqsp, .i), (.ciLi, .i), (.ciLui, .u), (.ciNone, .i),
    (.ciNone, .none), (.ciw4spn, .i), (.cj, .uj), (.cjJal, .uj), (.clLw, .i), (.clLd, .i),
    (.clLq, .i), (.cr, .r), (.crMv, .i), (.crJalr, .i), (.crJr, .i), (.cs, .r), (.csSw, .s),
    (.csSd, .s), (.csSq, .s), (.cssSwsp, .s), (.cssSdsp, .s), (.cssSqsp, .s)]

theorem codec_mem_fullSizeCodecs {op : RvOp} (h : op.FullSize) (hop : op ≠ .illegal) :
    (opcodeData op).codec ∈ fullSizeCodecs := by
  revert h hop
  cases op <;> decide

theorem codec_mem_expansions {isa : RvIsa} {op : RvOp} (h : op.Decompresses isa) :
    ((opcodeData op).codec, (opcodeData ((opcodeData op).decomp isa)).codec) ∈ expansions := by
  revert h
  cases isa <;> cases op <;> decide

section
variable {operand : RvInst → BitVec 32} {p : BitPiece} {f : Layout}

/-- A signed operand without low pieces ends in zeros. -/
theorem ReadsSigned.setWidth_eq_zero (h : ReadsSigned operand p f) (hfits : Fits 64 (p :: f))
    (htop : ∀ q ∈ f, q.dst + q.len ≤ p.dst) {k : Nat} (hk : k ≤ p.dst + p.len)
    (hcovers : ∀ i < k, covers (p :: f) i = false) (inst : RvInst) :
    (operand inst).setWidth k = 0#k := by
  apply BitVec.eq_of_getLsbD_eq
  intro i hi
  rw [BitVec.getLsbD_setWidth, BitVec.getLsbD_zero,
    h.getLsbD hfits htop (Nat.lt_of_lt_of_le hi hk) (hcovers i hi), Bool.and_false]

end

theorem signedFits_zero : SignedFits 12 (0#32) := signedFits_of_lt (by decide) (by decide)

theorem immInRange_of_fullSize {codec : RvCodec} (h : codec ∈ fullSizeCodecs) (dec : RvDecode) :
    ImmInRange codec (decodeOperandsAs codec dec).imm := by
  cases codec
  case none | r | rM | r4M | rA | rL | rF => rfl
  case u => exact reads_imm20.setWidth_eq_zero (by decide) (by decide) (by decide) (by decide) _
  case uj =>
    exact ⟨reads_jimm20.fits (by decide) (by decide) (by decide) (by decide) _,
      reads_jimm20.getLsbD (by decide) (by decide) (by decide) (by decide) _⟩
  case i => exact reads_imm12.fits (by decide) (by decide) (by decide) (by decide) _
  case iSh5 => exact reads_shamt5.lt (by decide) (by decide) _
  case iSh6 => exact reads_shamt6.lt (by decide) (by decide) _
  case iSh7 => exact reads_shamt7.lt (by decide) (by decide) _
  case iCsr => exact reads_csr12.lt (by decide) (by decide) _
  case s => exact reads_simm12.fits (by decide) (by decide) (by decide) (by decide) _
  case sb =>
    exact ⟨reads_sbimm12.fits (by decide) (by decide) (by decide) (by decide) _,
      reads_sbimm12.getLsbD (by decide) (by decide) (by decide) (by decide) _⟩
  all_goals exact absurd h (by decide)

/-- The offset of a compressed load or store is a small natural number. -/
theorem Reads.fits (h : Reads operand f) (hfits : Fits 64 f) (htop : ∀ p ∈ f, p.dst + p.len ≤ 11)
    (inst : RvInst) : SignedFits 12 (operand inst) :=
  signedFits_of_lt (by decide) (h.lt hfits htop inst)

theorem immInRange_of_expansion {codec target : RvCodec} (h : (codec, target) ∈ expansions)
    (dec : RvDecode) : ImmInRange target (decodeOperandsAs codec dec).imm := by
  simp only [expansions, List.mem_cons, List.not_mem_nil, or_false, Prod.mk.injEq] at h
  cases codec <;> simp only [reduceCtorEq, false_and, true_and, false_or, or_false] at h
  case ciNone =>
    rcases h with rfl | rfl
    · exact signedFits_zero
    · rfl
  all_goals subst h
  case crJr | crMv | crJalr => exact signedFits_zero
  case cr | cs => rfl
  case cb =>
    exact ⟨reads_cimmb.fits (by decide) (by decide) (by decide) (by decide) _,
      reads_cimmb.getLsbD (by decide) (by decide) (by decide) (by decide) _⟩
  case cj | cjJal =>
    exact ⟨reads_cimmj.fits (by decide) (by decide) (by decide) (by decide) _,
      reads_cimmj.getLsbD (by decide) (by decide) (by decide) (by decide) _⟩
  case cbImm | ci | ciLi => exact reads_cimmi.fits (by decide) (by decide) (by decide) (by decide) _
  case ci16sp => exact reads_cimm16sp.fits (by decide) (by decide) (by decide) (by decide) _
  case ciLui => exact reads_cimmui.setWidth_eq_zero (by decide) (by decide) (by decide) (by decide) _
  case cbSh6 | ciSh6 => exact reads_cimmsh6.lt (by decide) (by decide) _
  case ciLwsp => exact reads_cimmlwsp.fits (by decide) (by decide) _
  case ciLdsp => exact reads_cimmldsp.fits (by decide) (by decide) _
  case ciLqsp => exact reads_cimmlqsp.fits (by decide) (by decide) _
  case ciw4spn => exact reads_cimm4spn.fits (by decide) (by decide) _
  case clLw | csSw => exact reads_cimmw.fits (by decide) (by decide) _
  case clLd | csSd => exact reads_cimmd.fits (by decide) (by decide) _
  case clLq | csSq => exact reads_cimmq.fits (by decide) (by decide) _
  case cssSwsp => exact reads_cimmswsp.fits (by decide) (by decide) _
  case cssSdsp => exact reads_cimmsdsp.fits (by decide) (by decide) _
  case cssSqsp => exact reads_cimmsqsp.fits (by decide) (by decide) _

/-! ## Accepted instructions -/

theorem regsInRange_init (pc : BitVec 64) (inst : RvInst) : RegsInRange (.init pc inst) :=
  ⟨Nat.zero_lt_succ _, Nat.zero_lt_succ _, Nat.zero_lt_succ _, Nat.zero_lt_succ _,
    Nat.zero_lt_succ _, Nat.zero_lt_succ _, Nat.zero_lt_succ _, Nat.zero_lt_succ _,
    Nat.zero_lt_succ _⟩

/-- The opcode and its codec say nothing about the ranges. -/
theorem RegsInRange.congr {dec : RvDecode} (h : RegsInRange dec) (op : RvOp) (codec : RvCodec) :
    RegsInRange { dec with op := op, codec := codec } :=
  ⟨h.rd, h.rs1, h.rs2, h.rs3, h.rm, h.pred, h.succ, h.aq, h.rl⟩

theorem decoded_regs (isa : RvIsa) (pc : BitVec 64) (inst : RvInst) :
    RegsInRange (decoded isa pc inst) :=
  decodeOperandsAs_regs ((regsInRange_init pc inst).congr _ _) _

theorem decodeInst_inRange {isa : RvIsa} {pc : BitVec 64} {inst : RvInst}
    (h : (decodeInst isa pc inst).op ≠ .illegal) :
    RegsInRange (decodeInst isa pc inst) ∧
      ImmInRange (decodeInst isa pc inst).codec (decodeInst isa pc inst).imm := by
  have hcodec := decodeInst_codec h
  rcases decodeInst_cases h with ⟨_, hfull, heq⟩ | ⟨_, hop, _, heq⟩
  · rw [hcodec]
    rw [heq] at h ⊢
    rw [decoded_op] at h ⊢
    exact ⟨decoded_regs isa pc inst,
      immInRange_of_fullSize (codec_mem_fullSizeCodecs hfull h) _⟩
  · rw [heq]
    exact ⟨(decoded_regs isa pc inst).congr _ _,
      immInRange_of_expansion (codec_mem_expansions hop) _⟩

/-- The operands of an accepted instruction are in range, under the codec it is shown with. -/
theorem operands_inRange {isa : RvIsa} {pc : BitVec 64} {inst : RvInst}
    (h : disasmInst isa pc inst = true) :
    let dec := decodeInstLiftPseudo (decodeInst isa pc inst)
    RegsInRange dec ∧ ImmInRange dec.codec dec.imm := by
  rw [disasmInst_iff] at h
  have hrange := decodeInst_inRange h
  rcases liftPseudo_cases (decodeInst isa pc inst) with heq | ⟨c, _, _, _, heq⟩
  · rwa [heq]
  · rw [heq, ← decodeInst_codec h]
    exact ⟨hrange.1.congr _ _, hrange.2⟩

/-- `bne x1, x2, -4`. -/
theorem operands_inRange_bne :
    let dec := decodeInstLiftPseudo (decodeInst .rv64 0 0xfe209ee3#64)
    RegsInRange dec ∧ ImmInRange dec.codec dec.imm :=
  operands_inRange (by decide)

end IScanU.RVDisas
