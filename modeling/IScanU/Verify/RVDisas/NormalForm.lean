import IScanU.RVDisas

/-! # What the passes of the disassembler leave

`decode_inst_opcode` finds a compressed opcode in the words that do not end in `11` and a full-size
one in the others (`opcode_cases`). Decompression turns the former into a full-size opcode of the
same ISA, and lifting to a pseudo-instruction changes neither that nor the operands. So the result
is a fixed point of both rewriting passes (`disasm_fixed`). -/

namespace IScanU.RVDisas

/-- No ISA decompresses the opcode. -/
def RvOp.FullSize (op : RvOp) : Prop := ∀ isa, (opcodeData op).decomp isa = .illegal

theorem RvOp.fullSize_iff {op : RvOp} : op.FullSize ↔ (opcodeData op).decompRv32 = .illegal ∧
    (opcodeData op).decompRv64 = .illegal ∧ (opcodeData op).decompRv128 = .illegal := by
  refine ⟨fun h => ⟨h .rv32, h .rv64, h .rv128⟩, fun ⟨h1, h2, h3⟩ isa => ?_⟩
  cases isa with
  | rv32 => exact h1
  | rv64 => exact h2
  | rv128 => exact h3

instance : DecidablePred RvOp.FullSize := fun _ => decidable_of_iff' _ RvOp.fullSize_iff

/-- The ISA decompresses the opcode, and into a full-size one. -/
structure RvOp.Decompresses (isa : RvIsa) (op : RvOp) : Prop where
  ne_illegal : (opcodeData op).decomp isa ≠ .illegal
  fullSize : ((opcodeData op).decomp isa).FullSize

instance : Decidable (RvOp.Decompresses isa op) :=
  decidable_of_iff (_ ∧ _) ⟨fun h => ⟨h.1, h.2⟩, fun h => ⟨h.1, h.2⟩⟩

/-! ## Decoding the opcode -/

theorem fullSize_illegal : RvOp.illegal.FullSize := RvOp.fullSize_iff.2 ⟨rfl, rfl, rfl⟩

theorem opcodeAmo_fullSize (inst : RvInst) : (opcodeAmo inst).FullSize := by
  unfold opcodeAmo
  repeat' split
  all_goals exact RvOp.fullSize_iff.2 ⟨rfl, rfl, rfl⟩

theorem opcodeOp_fullSize (inst : RvInst) : (opcodeOp inst).FullSize := by
  unfold opcodeOp
  split <;> exact RvOp.fullSize_iff.2 ⟨rfl, rfl, rfl⟩

theorem opcodeOp32_fullSize (inst : RvInst) : (opcodeOp32 inst).FullSize := by
  unfold opcodeOp32
  split <;> exact RvOp.fullSize_iff.2 ⟨rfl, rfl, rfl⟩

theorem opcodeOp64_fullSize (inst : RvInst) : (opcodeOp64 inst).FullSize := by
  unfold opcodeOp64
  split <;> exact RvOp.fullSize_iff.2 ⟨rfl, rfl, rfl⟩

theorem opcodeOpFp_fullSize (inst : RvInst) : (opcodeOpFp inst).FullSize := by
  unfold opcodeOpFp
  repeat' split
  all_goals exact RvOp.fullSize_iff.2 ⟨rfl, rfl, rfl⟩

theorem opcodeSystem_fullSize (inst : RvInst) : (opcodeSystem inst).FullSize := by
  unfold opcodeSystem
  repeat' split
  all_goals exact RvOp.fullSize_iff.2 ⟨rfl, rfl, rfl⟩

theorem opcodeQuadrant3_fullSize (inst : RvInst) : (opcodeQuadrant3 inst).FullSize := by
  unfold opcodeQuadrant3
  repeat' split
  all_goals first
    | exact RvOp.fullSize_iff.2 ⟨rfl, rfl, rfl⟩
    | exact opcodeAmo_fullSize inst
    | exact opcodeOp_fullSize inst
    | exact opcodeOp32_fullSize inst
    | exact opcodeOp64_fullSize inst
    | exact opcodeOpFp_fullSize inst
    | exact opcodeSystem_fullSize inst

section
variable {isa : RvIsa} {inst : RvInst}

theorem opcodeQuadrant0_decompresses :
    opcodeQuadrant0 isa inst = .illegal ∨ (opcodeQuadrant0 isa inst).Decompresses isa := by
  unfold opcodeQuadrant0
  cases isa <;> split <;> decide

theorem opcodeQuadrant1_decompresses :
    opcodeQuadrant1 isa inst = .illegal ∨ (opcodeQuadrant1 isa inst).Decompresses isa := by
  unfold opcodeQuadrant1
  cases isa <;> repeat' first | decide | split

theorem opcodeQuadrant2_decompresses :
    opcodeQuadrant2 isa inst = .illegal ∨ (opcodeQuadrant2 isa inst).Decompresses isa := by
  unfold opcodeQuadrant2
  cases isa <;> repeat' first | decide | split

/-- Which opcodes are found is told by the two lowest bits. -/
theorem opcode_cases (isa : RvIsa) (inst : RvInst) :
    inst &&& 0b11#64 = 0b11#64 ∧ opcode isa inst = opcodeQuadrant3 inst ∨
      inst &&& 0b11#64 ≠ 0b11#64 ∧
        (opcode isa inst = .illegal ∨ (opcode isa inst).Decompresses isa) := by
  have hshift : inst >>> 0 &&& 0b11#64 = inst &&& 0b11#64 := by rw [BitVec.ushiftRight_zero]
  unfold opcode
  rw [hshift]
  split
  · rename_i h
    exact .inr ⟨by rw [h]; decide, opcodeQuadrant0_decompresses⟩
  · rename_i h
    exact .inr ⟨by rw [h]; decide, opcodeQuadrant1_decompresses⟩
  · rename_i h
    exact .inr ⟨by rw [h]; decide, opcodeQuadrant2_decompresses⟩
  · rename_i h
    exact .inl ⟨h, rfl⟩
  · rename_i h
    exact .inr ⟨fun h3 => h h3, .inl rfl⟩

end

/-! ## Pseudo-instructions -/

/-- What the entries of a `rvcp_` list have in common: the opcode is neither illegal nor compressed,
its operands are those of the opcode it stands for, and it is not lifted to yet another one. -/
structure RvCompData.Plain (op : RvOp) (c : RvCompData) : Prop where
  ne_illegal : c.op ≠ .illegal
  fullSize : c.op.FullSize
  codec : (opcodeData c.op).codec = (opcodeData op).codec
  pseudo : c.op = op ∨ (opcodeData c.op).pseudo.isEmpty = true

instance : Decidable (RvCompData.Plain op c) :=
  decidable_of_iff (_ ∧ _ ∧ _ ∧ _)
    ⟨fun ⟨h1, h2, h3, h4⟩ => ⟨h1, h2, h3, h4⟩, fun ⟨h1, h2, h3, h4⟩ => ⟨h1, h2, h3, h4⟩⟩

theorem pseudo_plain (op : RvOp) : ∀ c ∈ (opcodeData op).pseudo, RvCompData.Plain op c := by
  cases op <;> decide

/-- Either nothing is lifted, or the opcode becomes that of an entry of the list. -/
theorem liftPseudo_cases (dec : RvDecode) : decodeInstLiftPseudo dec = dec ∨
    ∃ c ∈ (opcodeData dec.op).pseudo, RvCompData.Plain dec.op c ∧
      checkConstraints dec c.constraints = true ∧
      decodeInstLiftPseudo dec = { dec with op := c.op, codec := (opcodeData dec.op).codec } := by
  unfold decodeInstLiftPseudo
  split
  · exact .inl rfl
  · rename_i c hfind
    have hmem := List.mem_of_find?_eq_some hfind
    have hplain := pseudo_plain dec.op c hmem
    refine .inr ⟨c, hmem, hplain, ?_, ?_⟩
    · simpa using List.find?_some hfind
    · rw [hplain.codec]

theorem liftPseudo_op_eq_illegal {dec : RvDecode} :
    (decodeInstLiftPseudo dec).op = .illegal ↔ dec.op = .illegal := by
  rcases liftPseudo_cases dec with h | ⟨c, hmem, hplain, _, h⟩
  · rw [h]
  · rw [h]
    refine ⟨fun h' => absurd h' hplain.ne_illegal, fun h' => ?_⟩
    rw [h'] at hmem
    exact absurd hmem List.not_mem_nil

/-- Lifting does not look at the opcode twice. -/
theorem liftPseudo_idem (dec : RvDecode) :
    decodeInstLiftPseudo (decodeInstLiftPseudo dec) = decodeInstLiftPseudo dec := by
  rcases liftPseudo_cases dec with h | ⟨c, _, hplain, _, h⟩
  · rw [h, h]
  · rcases hplain.pseudo with hop | hnil
    · -- An entry for the same opcode: the constraints still read the same operands.
      have hsame : decodeInstLiftPseudo dec = { dec with codec := (opcodeData dec.op).codec } := by
        rw [h, hop]
      rw [hsame]
      unfold decodeInstLiftPseudo at h ⊢
      have hcheck : ∀ c' : RvCompData,
          checkConstraints { dec with codec := (opcodeData dec.op).codec } c'.constraints =
            checkConstraints dec c'.constraints := fun _ => rfl
      simp only [hcheck]
      split
      · rfl
      · rename_i c' hfind
        rw [hfind] at h
        have hop' : c'.op = dec.op := (congrArg RvDecode.op h).trans hop
        rw [hop']
    · rw [h, decodeInstLiftPseudo, List.isEmpty_iff.1 hnil]
      rfl

theorem disasmInst_iff {isa : RvIsa} {pc : BitVec 64} {inst : RvInst} :
    disasmInst isa pc inst = true ↔ (decodeInst isa pc inst).op ≠ .illegal := by
  rw [disasmInst, decide_eq_true_iff, Ne, liftPseudo_op_eq_illegal]

/-! ## Decompression -/

/-- A full-size opcode is left as it is, by every ISA. -/
theorem decompressInst_of_fullSize {dec : RvDecode} (h : dec.op.FullSize) (isa : RvIsa) :
    decompressInst isa dec = dec := by
  rw [decompressInst, if_neg (not_not_intro (h isa))]

/-- The check for a zero immediate. -/
def ImmMissing (dec : RvDecode) : Prop :=
  (opcodeData dec.op).decompData &&& rvcdImmNz ≠ 0 ∧ dec.imm = 0

instance : DecidablePred ImmMissing := fun _ => inferInstanceAs (Decidable (_ ∧ _))

theorem decompressInst_of_decompresses {isa : RvIsa} {dec : RvDecode}
    (h : dec.op.Decompresses isa) : decompressInst isa dec =
      if ImmMissing dec then { dec with op := .illegal }
      else { dec with
        op := (opcodeData dec.op).decomp isa
        codec := (opcodeData ((opcodeData dec.op).decomp isa)).codec } := by
  rw [decompressInst, if_pos h.ne_illegal]
  rfl

/-- What `decode_inst_opcode` and `decode_inst_operands` leave. -/
def decoded (isa : RvIsa) (pc : BitVec 64) (inst : RvInst) : RvDecode :=
  decodeInstOperands (decodeInstOpcode (.init pc inst) isa)

@[simp] theorem decodeOperandsAs_op (codec : RvCodec) (dec : RvDecode) :
    (decodeOperandsAs codec dec).op = dec.op := by
  cases codec <;> simp only [decodeOperandsAs]

@[simp] theorem decodeOperandsAs_codec (codec : RvCodec) (dec : RvDecode) :
    (decodeOperandsAs codec dec).codec = dec.codec := by
  cases codec <;> simp only [decodeOperandsAs]

@[simp] theorem decoded_op (isa : RvIsa) (pc : BitVec 64) (inst : RvInst) :
    (decoded isa pc inst).op = opcode isa inst := by
  rw [decoded, decodeInstOperands, decodeOperandsAs_op]
  rfl

theorem decodeInst_eq (isa : RvIsa) (pc : BitVec 64) (inst : RvInst) :
    decodeInst isa pc inst = decompressInst isa (decoded isa pc inst) := rfl

theorem decodeInst_of_low {inst : RvInst} (h : inst &&& 0b11#64 = 0b11#64) (isa : RvIsa)
    (pc : BitVec 64) : decodeInst isa pc inst = decoded isa pc inst := by
  rw [decodeInst_eq]
  refine decompressInst_of_fullSize ?_ isa
  rw [decoded_op]
  rcases opcode_cases isa inst with ⟨_, hop⟩ | ⟨hne, _⟩
  · rw [hop]
    exact opcodeQuadrant3_fullSize inst
  · exact absurd h hne

/-- Decoding ends with a full-size opcode. -/
theorem decodeInst_fullSize (isa : RvIsa) (pc : BitVec 64) (inst : RvInst) :
    (decodeInst isa pc inst).op.FullSize := by
  rcases opcode_cases isa inst with ⟨hlow, hop⟩ | ⟨_, hop | hop⟩
  · rw [decodeInst_of_low hlow, decoded_op, hop]
    exact opcodeQuadrant3_fullSize inst
  · have hillegal : (decoded isa pc inst).op = .illegal := (decoded_op ..).trans hop
    rw [decodeInst_eq, decompressInst_of_fullSize (hillegal ▸ fullSize_illegal), hillegal]
    exact fullSize_illegal
  · rw [← decoded_op isa pc] at hop
    rw [decodeInst_eq, decompressInst_of_decompresses hop]
    split
    · exact fullSize_illegal
    · exact hop.fullSize

theorem decoded_eq (isa : RvIsa) (pc : BitVec 64) (inst : RvInst) : decoded isa pc inst =
    decodeOperandsAs (opcodeData (opcode isa inst)).codec
      { RvDecode.init pc inst with
        op := opcode isa inst
        codec := (opcodeData (opcode isa inst)).codec } := rfl

/-- What an accepted word is decoded to, as a full-size instruction and as a compressed one. -/
theorem decodeInst_cases {isa : RvIsa} {pc : BitVec 64} {inst : RvInst}
    (h : (decodeInst isa pc inst).op ≠ .illegal) :
    inst &&& 0b11#64 = 0b11#64 ∧ (opcode isa inst).FullSize ∧
        decodeInst isa pc inst = decoded isa pc inst ∨
      inst &&& 0b11#64 ≠ 0b11#64 ∧ (opcode isa inst).Decompresses isa ∧
        ¬ImmMissing (decoded isa pc inst) ∧
        decodeInst isa pc inst = { decoded isa pc inst with
          op := (opcodeData (opcode isa inst)).decomp isa
          codec := (opcodeData ((opcodeData (opcode isa inst)).decomp isa)).codec } := by
  rcases opcode_cases isa inst with ⟨hlow, hop⟩ | ⟨hlow, hop | hop⟩
  · exact .inl ⟨hlow, hop ▸ opcodeQuadrant3_fullSize inst, decodeInst_of_low hlow isa pc⟩
  · have hillegal : (decoded isa pc inst).op = .illegal := (decoded_op ..).trans hop
    rw [decodeInst_eq, decompressInst_of_fullSize (hillegal ▸ fullSize_illegal)] at h
    exact absurd hillegal h
  · have hdec : (decoded isa pc inst).op.Decompresses isa := by rwa [decoded_op]
    rw [decodeInst_eq, decompressInst_of_decompresses hdec] at h ⊢
    split at h
    · exact absurd rfl h
    · rename_i himm
      rw [if_neg himm, decoded_op]
      exact .inr ⟨hlow, hop, himm, rfl⟩

/-- The codec of an accepted instruction is that of its opcode. -/
theorem decodeInst_codec {isa : RvIsa} {pc : BitVec 64} {inst : RvInst}
    (h : (decodeInst isa pc inst).op ≠ .illegal) :
    (decodeInst isa pc inst).codec = (opcodeData (decodeInst isa pc inst).op).codec := by
  rcases decodeInst_cases h with ⟨_, _, heq⟩ | ⟨_, _, _, heq⟩
  · rw [heq, decoded_op, decoded_eq, decodeOperandsAs_codec]
  · rw [heq]

/-- The instruction that `disasm_inst` ends with is a fixed point of the two passes, for whichever
ISA it is decompressed once more. -/
theorem disasm_fixed (isa isa' : RvIsa) (pc : BitVec 64) (inst : RvInst) :
    let dec := decodeInstLiftPseudo (decodeInst isa pc inst)
    decompressInst isa' dec = dec ∧ decodeInstLiftPseudo dec = dec := by
  refine ⟨decompressInst_of_fullSize ?_ isa', liftPseudo_idem _⟩
  rcases liftPseudo_cases (decodeInst isa pc inst) with h | ⟨c, _, hplain, _, h⟩
  · rw [h]
    exact decodeInst_fullSize isa pc inst
  · rw [h]
    exact hplain.fullSize

/-! ## Instruction length -/

/-- The encodings reserved for longer instructions are not in the table. -/
theorem opcodeQuadrant3_of_long {inst : RvInst} (h : inst &&& 0b11100#64 = 0b11100#64) :
    opcodeQuadrant3 inst = .illegal := by
  have hbits : (inst >>> 2 &&& 0b11111#64) &&& 0b111#64 = 0b111#64 := by
    have hshift := congrArg (fun w : RvInst => w >>> 2) h
    simp only [BitVec.ushiftRight_and_distrib] at hshift
    rw [BitVec.and_assoc]
    exact hshift
  unfold opcodeQuadrant3
  split
  all_goals first
    | rfl
    | rename_i hkey
      rw [hkey] at hbits
      exact absurd hbits (by decide)

/-- The length tells the opcodes apart that are decompressed. -/
theorem instLength_of_op_ne {isa : RvIsa} {pc : BitVec 64} {inst : RvInst}
    (h : (decodeInst isa pc inst).op ≠ .illegal) :
    instLength inst = if (opcode isa inst).FullSize then 4 else 2 := by
  rcases decodeInst_cases h with ⟨hlow, hfull, heq⟩ | ⟨hlow, hop, _, _⟩
  · have hshort : inst &&& 0b11100#64 ≠ 0b11100#64 := fun hlong => by
      rw [heq, decoded_op] at h
      rcases opcode_cases isa inst with ⟨_, hop⟩ | ⟨hne, _⟩
      · exact h (hop.trans (opcodeQuadrant3_of_long hlong))
      · exact hne hlow
    rw [instLength, if_neg (not_not_intro hlow), if_pos hshort, if_pos hfull]
  · rw [instLength, if_pos hlow, if_neg fun hfull => hop.ne_illegal (hfull isa)]

/-- Whatever is accepted is 2 or 4 bytes long, and it is 2 exactly when it is compressed. -/
theorem instLength_of_disasmInst {isa : RvIsa} {pc : BitVec 64} {inst : RvInst}
    (h : disasmInst isa pc inst = true) :
    instLength inst = if (opcode isa inst).FullSize then 4 else 2 :=
  instLength_of_op_ne (disasmInst_iff.1 h)

/-- `c.addi x1, 1`. -/
theorem instLength_of_disasmInst_addi :
    instLength 0x0085#64 = if (opcode .rv64 0x0085#64).FullSize then 4 else 2 :=
  @instLength_of_disasmInst .rv64 0 _ (by decide)

end IScanU.RVDisas
