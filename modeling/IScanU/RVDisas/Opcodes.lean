import Mathlib.Data.BitVec

/-! # Opcodes of the RISC-V disassembler (`disas/RV-disas/`)

The enumerations of `riscv-disas.h`, and of each row of `opcode_data` the columns the decoder reads.
Names and formats are for printing and are not modelled. A `rvcp_` list and its `rvcc_` lists stand
in the row that points to them, without their end markers; `NULL` is the empty list. -/

namespace IScanU.RVDisas

inductive RvIsa
  | rv32 | rv64 | rv128
deriving DecidableEq, Repr

inductive RvcConstraint
  | rdEqRa | rdEqX0 | rs1EqX0 | rs2EqX0 | rs2EqRs1 | rs1EqRa | immEqZero | immEqN1 | immEqP1
  | csrEq0x001 | csrEq0x002 | csrEq0x003 | csrEq0xc00 | csrEq0xc01 | csrEq0xc02 | csrEq0xc80
  | csrEq0xc81 | csrEq0xc82
deriving DecidableEq, Repr

inductive RvCodec
  | illegal | none | u | uj | i | iSh5 | iSh6 | iSh7 | iCsr | s | sb | r | rM | r4M | rA | rL
  | rF | cb | cbImm | cbSh5 | cbSh6 | ci | ciSh5 | ciSh6 | ci16sp | ciLwsp | ciLdsp | ciLqsp
  | ciLi | ciLui | ciNone | ciw4spn | cj | cjJal | clLw | clLd | clLq | cr | crMv | crJalr | crJr
  | cs | csSw | csSd | csSq | cssSwsp | cssSdsp | cssSqsp
deriving DecidableEq, Repr

inductive RvOp
  | illegal | lui | auipc | jal | jalr | beq | bne | blt | bge | bltu | bgeu | lb | lh | lw | lbu
  | lhu | sb | sh | sw | addi | slti | sltiu | xori | ori | andi | slli | srli | srai | add | sub
  | sll | slt | sltu | xor | srl | sra | or | and | fence | fenceI | lwu | ld | sd | addiw
  | slliw | srliw | sraiw | addw | subw | sllw | srlw | sraw | ldu | lq | sq | addid | sllid
  | srlid | sraid | addd | subd | slld | srld | srad | mul | mulh | mulhsu | mulhu | div | divu
  | rem | remu | mulw | divw | divuw | remw | remuw | muld | divd | divud | remd | remud | lrW
  | scW | amoswapW | amoaddW | amoxorW | amoorW | amoandW | amominW | amomaxW | amominuW
  | amomaxuW | lrD | scD | amoswapD | amoaddD | amoxorD | amoorD | amoandD | amominD | amomaxD
  | amominuD | amomaxuD | lrQ | scQ | amoswapQ | amoaddQ | amoxorQ | amoorQ | amoandQ | amominQ
  | amomaxQ | amominuQ | amomaxuQ | ecall | ebreak | uret | sret | hret | mret | dret | sfenceVm
  | sfenceVma | wfi | csrrw | csrrs | csrrc | csrrwi | csrrsi | csrrci | flw | fsw | fmaddS
  | fmsubS | fnmsubS | fnmaddS | faddS | fsubS | fmulS | fdivS | fsgnjS | fsgnjnS | fsgnjxS
  | fminS | fmaxS | fsqrtS | fleS | fltS | feqS | fcvtWS | fcvtWuS | fcvtSW | fcvtSWu | fmvXS
  | fclassS | fmvSX | fcvtLS | fcvtLuS | fcvtSL | fcvtSLu | fld | fsd | fmaddD | fmsubD | fnmsubD
  | fnmaddD | faddD | fsubD | fmulD | fdivD | fsgnjD | fsgnjnD | fsgnjxD | fminD | fmaxD | fcvtSD
  | fcvtDS | fsqrtD | fleD | fltD | feqD | fcvtWD | fcvtWuD | fcvtDW | fcvtDWu | fclassD | fcvtLD
  | fcvtLuD | fmvXD | fcvtDL | fcvtDLu | fmvDX | flq | fsq | fmaddQ | fmsubQ | fnmsubQ | fnmaddQ
  | faddQ | fsubQ | fmulQ | fdivQ | fsgnjQ | fsgnjnQ | fsgnjxQ | fminQ | fmaxQ | fcvtSQ | fcvtQS
  | fcvtDQ | fcvtQD | fsqrtQ | fleQ | fltQ | feqQ | fcvtWQ | fcvtWuQ | fcvtQW | fcvtQWu | fclassQ
  | fcvtLQ | fcvtLuQ | fcvtQL | fcvtQLu | fmvXQ | fmvQX | cAddi4spn | cFld | cLw | cFlw | cFsd
  | cSw | cFsw | cNop | cAddi | cJal | cLi | cAddi16sp | cLui | cSrli | cSrai | cAndi | cSub
  | cXor | cOr | cAnd | cSubw | cAddw | cJ | cBeqz | cBnez | cSlli | cFldsp | cLwsp | cFlwsp
  | cJr | cMv | cEbreak | cJalr | cAdd | cFsdsp | cSwsp | cFswsp | cLd | cSd | cAddiw | cLdsp
  | cSdsp | cLq | cSq | cLqsp | cSqsp | nop | mv | not | neg | negw | sextW | seqz | snez | sltz
  | sgtz | fmvS | fabsS | fnegS | fmvD | fabsD | fnegD | fmvQ | fabsQ | fnegQ | beqz | bnez
  | blez | bgez | bltz | bgtz | ble | bleu | bgt | bgtu | j | ret | jr | rdcycle | rdtime
  | rdinstret | rdcycleh | rdtimeh | rdinstreth | frcsr | frrm | frflags | fscsr | fsrm | fsflags
  | fsrmi | fsflagsi
deriving DecidableEq

structure RvCompData where
  op : RvOp
  constraints : List RvcConstraint

def rvcdImmNz : BitVec 16 := 0x1
def rvcdImmNzHint : BitVec 16 := 0x2

structure RvOpcodeData where
  codec : RvCodec
  pseudo : List RvCompData := []
  decompRv32 : RvOp := .illegal
  decompRv64 : RvOp := .illegal
  decompRv128 : RvOp := .illegal
  decompData : BitVec 16 := 0

def opcodeData : RvOp → RvOpcodeData
  | .illegal => { codec := .illegal }
  | .lui | .auipc => { codec := .u }
  | .jal => { codec := .uj, pseudo := [⟨.j, [.rdEqX0]⟩, ⟨.jal, [.rdEqRa]⟩] }
  | .jalr =>
    { codec := .i,
      pseudo := [⟨.ret, [.rdEqX0, .rs1EqRa]⟩, ⟨.jr, [.rdEqX0, .immEqZero]⟩,
        ⟨.jalr, [.rdEqRa, .immEqZero]⟩] }
  | .beq => { codec := .sb, pseudo := [⟨.beqz, [.rs2EqX0]⟩] }
  | .bne => { codec := .sb, pseudo := [⟨.bnez, [.rs2EqX0]⟩] }
  | .blt => { codec := .sb, pseudo := [⟨.bltz, [.rs2EqX0]⟩, ⟨.bgtz, [.rs1EqX0]⟩, ⟨.bgt, []⟩] }
  | .bge => { codec := .sb, pseudo := [⟨.blez, [.rs1EqX0]⟩, ⟨.bgez, [.rs2EqX0]⟩, ⟨.ble, []⟩] }
  | .bltu => { codec := .sb, pseudo := [⟨.bgtu, []⟩] }
  | .bgeu => { codec := .sb, pseudo := [⟨.bleu, []⟩] }
  | .lb | .lh | .lw | .lbu | .lhu => { codec := .i }
  | .sb | .sh | .sw => { codec := .s }
  | .addi =>
    { codec := .i, pseudo := [⟨.nop, [.rdEqX0, .rs1EqX0, .immEqZero]⟩, ⟨.mv, [.immEqZero]⟩] }
  | .slti => { codec := .i }
  | .sltiu => { codec := .i, pseudo := [⟨.seqz, [.immEqP1]⟩] }
  | .xori => { codec := .i, pseudo := [⟨.not, [.immEqN1]⟩] }
  | .ori | .andi => { codec := .i }
  | .slli | .srli | .srai => { codec := .iSh7 }
  | .add => { codec := .r }
  | .sub => { codec := .r, pseudo := [⟨.neg, [.rs1EqX0]⟩] }
  | .sll => { codec := .r }
  | .slt => { codec := .r, pseudo := [⟨.sltz, [.rs2EqX0]⟩, ⟨.sgtz, [.rs1EqX0]⟩] }
  | .sltu => { codec := .r, pseudo := [⟨.snez, [.rs1EqX0]⟩] }
  | .xor | .srl | .sra | .or | .and => { codec := .r }
  | .fence => { codec := .rF }
  | .fenceI => { codec := .none }
  | .lwu | .ld => { codec := .i }
  | .sd => { codec := .s }
  | .addiw => { codec := .i, pseudo := [⟨.sextW, [.immEqZero]⟩] }
  | .slliw | .srliw | .sraiw => { codec := .iSh5 }
  | .addw => { codec := .r }
  | .subw => { codec := .r, pseudo := [⟨.negw, [.rs1EqX0]⟩] }
  | .sllw | .srlw | .sraw => { codec := .r }
  | .ldu | .lq => { codec := .i }
  | .sq => { codec := .s }
  | .addid => { codec := .i }
  | .sllid | .srlid | .sraid => { codec := .iSh6 }
  | .addd | .subd | .slld | .srld | .srad | .mul | .mulh | .mulhsu | .mulhu | .div | .divu | .rem
  | .remu | .mulw | .divw | .divuw | .remw | .remuw | .muld | .divd | .divud | .remd | .remud =>
    { codec := .r }
  | .lrW => { codec := .rL }
  | .scW | .amoswapW | .amoaddW | .amoxorW | .amoorW | .amoandW | .amominW | .amomaxW | .amominuW
  | .amomaxuW => { codec := .rA }
  | .lrD => { codec := .rL }
  | .scD | .amoswapD | .amoaddD | .amoxorD | .amoorD | .amoandD | .amominD | .amomaxD | .amominuD
  | .amomaxuD => { codec := .rA }
  | .lrQ => { codec := .rL }
  | .scQ | .amoswapQ | .amoaddQ | .amoxorQ | .amoorQ | .amoandQ | .amominQ | .amomaxQ | .amominuQ
  | .amomaxuQ => { codec := .rA }
  | .ecall | .ebreak | .uret | .sret | .hret | .mret | .dret => { codec := .none }
  | .sfenceVm | .sfenceVma => { codec := .r }
  | .wfi => { codec := .none }
  | .csrrw =>
    { codec := .iCsr,
      pseudo := [⟨.fscsr, [.csrEq0x003]⟩, ⟨.fsrm, [.csrEq0x002]⟩, ⟨.fsflags, [.csrEq0x001]⟩] }
  | .csrrs =>
    { codec := .iCsr,
      pseudo := [⟨.rdcycle, [.rs1EqX0, .csrEq0xc00]⟩, ⟨.rdtime, [.rs1EqX0, .csrEq0xc01]⟩,
        ⟨.rdinstret, [.rs1EqX0, .csrEq0xc02]⟩, ⟨.rdcycleh, [.rs1EqX0, .csrEq0xc80]⟩,
        ⟨.rdtimeh, [.rs1EqX0, .csrEq0xc81]⟩, ⟨.rdinstreth, [.rs1EqX0, .csrEq0xc82]⟩,
        ⟨.frcsr, [.rs1EqX0, .csrEq0x003]⟩, ⟨.frrm, [.rs1EqX0, .csrEq0x002]⟩,
        ⟨.frflags, [.rs1EqX0, .csrEq0x001]⟩] }
  | .csrrc => { codec := .iCsr }
  | .csrrwi => { codec := .iCsr, pseudo := [⟨.fsrmi, [.csrEq0x002]⟩, ⟨.fsflagsi, [.csrEq0x001]⟩] }
  | .csrrsi | .csrrci => { codec := .iCsr }
  | .flw => { codec := .i }
  | .fsw => { codec := .s }
  | .fmaddS | .fmsubS | .fnmsubS | .fnmaddS => { codec := .r4M }
  | .faddS | .fsubS | .fmulS | .fdivS => { codec := .rM }
  | .fsgnjS => { codec := .r, pseudo := [⟨.fmvS, [.rs2EqRs1]⟩] }
  | .fsgnjnS => { codec := .r, pseudo := [⟨.fnegS, [.rs2EqRs1]⟩] }
  | .fsgnjxS => { codec := .r, pseudo := [⟨.fabsS, [.rs2EqRs1]⟩] }
  | .fminS | .fmaxS => { codec := .r }
  | .fsqrtS => { codec := .rM }
  | .fleS | .fltS | .feqS => { codec := .r }
  | .fcvtWS | .fcvtWuS | .fcvtSW | .fcvtSWu => { codec := .rM }
  | .fmvXS | .fclassS | .fmvSX => { codec := .r }
  | .fcvtLS | .fcvtLuS | .fcvtSL | .fcvtSLu => { codec := .rM }
  | .fld => { codec := .i }
  | .fsd => { codec := .s }
  | .fmaddD | .fmsubD | .fnmsubD | .fnmaddD => { codec := .r4M }
  | .faddD | .fsubD | .fmulD | .fdivD => { codec := .rM }
  | .fsgnjD => { codec := .r, pseudo := [⟨.fmvD, [.rs2EqRs1]⟩] }
  | .fsgnjnD => { codec := .r, pseudo := [⟨.fnegD, [.rs2EqRs1]⟩] }
  | .fsgnjxD => { codec := .r, pseudo := [⟨.fabsD, [.rs2EqRs1]⟩] }
  | .fminD | .fmaxD => { codec := .r }
  | .fcvtSD | .fcvtDS | .fsqrtD => { codec := .rM }
  | .fleD | .fltD | .feqD => { codec := .r }
  | .fcvtWD | .fcvtWuD | .fcvtDW | .fcvtDWu => { codec := .rM }
  | .fclassD => { codec := .r }
  | .fcvtLD | .fcvtLuD => { codec := .rM }
  | .fmvXD => { codec := .r }
  | .fcvtDL | .fcvtDLu => { codec := .rM }
  | .fmvDX => { codec := .r }
  | .flq => { codec := .i }
  | .fsq => { codec := .s }
  | .fmaddQ | .fmsubQ | .fnmsubQ | .fnmaddQ => { codec := .r4M }
  | .faddQ | .fsubQ | .fmulQ | .fdivQ => { codec := .rM }
  | .fsgnjQ => { codec := .r, pseudo := [⟨.fmvQ, [.rs2EqRs1]⟩] }
  | .fsgnjnQ => { codec := .r, pseudo := [⟨.fnegQ, [.rs2EqRs1]⟩] }
  | .fsgnjxQ => { codec := .r, pseudo := [⟨.fabsQ, [.rs2EqRs1]⟩] }
  | .fminQ | .fmaxQ => { codec := .r }
  | .fcvtSQ | .fcvtQS | .fcvtDQ | .fcvtQD | .fsqrtQ => { codec := .rM }
  | .fleQ | .fltQ | .feqQ => { codec := .r }
  | .fcvtWQ | .fcvtWuQ | .fcvtQW | .fcvtQWu => { codec := .rM }
  | .fclassQ => { codec := .r }
  | .fcvtLQ | .fcvtLuQ | .fcvtQL | .fcvtQLu => { codec := .rM }
  | .fmvXQ | .fmvQX => { codec := .r }
  | .cAddi4spn =>
    { codec := .ciw4spn, decompRv32 := .addi, decompRv64 := .addi, decompRv128 := .addi,
      decompData := rvcdImmNz }
  | .cFld => { codec := .clLd, decompRv32 := .fld, decompRv64 := .fld }
  | .cLw => { codec := .clLw, decompRv32 := .lw, decompRv64 := .lw, decompRv128 := .lw }
  | .cFlw => { codec := .clLw, decompRv32 := .flw }
  | .cFsd => { codec := .csSd, decompRv32 := .fsd, decompRv64 := .fsd }
  | .cSw => { codec := .csSw, decompRv32 := .sw, decompRv64 := .sw, decompRv128 := .sw }
  | .cFsw => { codec := .csSw, decompRv32 := .fsw }
  | .cNop => { codec := .ciNone, decompRv32 := .addi, decompRv64 := .addi, decompRv128 := .addi }
  | .cAddi =>
    { codec := .ci, decompRv32 := .addi, decompRv64 := .addi, decompRv128 := .addi,
      decompData := rvcdImmNzHint }
  | .cJal => { codec := .cjJal, decompRv32 := .jal }
  | .cLi => { codec := .ciLi, decompRv32 := .addi, decompRv64 := .addi, decompRv128 := .addi }
  | .cAddi16sp =>
    { codec := .ci16sp, decompRv32 := .addi, decompRv64 := .addi, decompRv128 := .addi,
      decompData := rvcdImmNz }
  | .cLui =>
    { codec := .ciLui, decompRv32 := .lui, decompRv64 := .lui, decompRv128 := .lui,
      decompData := rvcdImmNz }
  | .cSrli =>
    { codec := .cbSh6, decompRv32 := .srli, decompRv64 := .srli, decompRv128 := .srli,
      decompData := rvcdImmNz }
  | .cSrai =>
    { codec := .cbSh6, decompRv32 := .srai, decompRv64 := .srai, decompRv128 := .srai,
      decompData := rvcdImmNz }
  | .cAndi =>
    { codec := .cbImm, decompRv32 := .andi, decompRv64 := .andi, decompRv128 := .andi,
      decompData := rvcdImmNz }
  | .cSub => { codec := .cs, decompRv32 := .sub, decompRv64 := .sub, decompRv128 := .sub }
  | .cXor => { codec := .cs, decompRv32 := .xor, decompRv64 := .xor, decompRv128 := .xor }
  | .cOr => { codec := .cs, decompRv32 := .or, decompRv64 := .or, decompRv128 := .or }
  | .cAnd => { codec := .cs, decompRv32 := .and, decompRv64 := .and, decompRv128 := .and }
  | .cSubw => { codec := .cs, decompRv32 := .subw, decompRv64 := .subw, decompRv128 := .subw }
  | .cAddw => { codec := .cs, decompRv32 := .addw, decompRv64 := .addw, decompRv128 := .addw }
  | .cJ => { codec := .cj, decompRv32 := .jal, decompRv64 := .jal, decompRv128 := .jal }
  | .cBeqz => { codec := .cb, decompRv32 := .beq, decompRv64 := .beq, decompRv128 := .beq }
  | .cBnez => { codec := .cb, decompRv32 := .bne, decompRv64 := .bne, decompRv128 := .bne }
  | .cSlli =>
    { codec := .ciSh6, decompRv32 := .slli, decompRv64 := .slli, decompRv128 := .slli,
      decompData := rvcdImmNz }
  | .cFldsp => { codec := .ciLdsp, decompRv32 := .fld, decompRv64 := .fld, decompRv128 := .fld }
  | .cLwsp => { codec := .ciLwsp, decompRv32 := .lw, decompRv64 := .lw, decompRv128 := .lw }
  | .cFlwsp => { codec := .ciLwsp, decompRv32 := .flw }
  | .cJr => { codec := .crJr, decompRv32 := .jalr, decompRv64 := .jalr, decompRv128 := .jalr }
  | .cMv => { codec := .crMv, decompRv32 := .addi, decompRv64 := .addi, decompRv128 := .addi }
  | .cEbreak =>
    { codec := .ciNone, decompRv32 := .ebreak, decompRv64 := .ebreak, decompRv128 := .ebreak }
  | .cJalr => { codec := .crJalr, decompRv32 := .jalr, decompRv64 := .jalr, decompRv128 := .jalr }
  | .cAdd => { codec := .cr, decompRv32 := .add, decompRv64 := .add, decompRv128 := .add }
  | .cFsdsp => { codec := .cssSdsp, decompRv32 := .fsd, decompRv64 := .fsd, decompRv128 := .fsd }
  | .cSwsp => { codec := .cssSwsp, decompRv32 := .sw, decompRv64 := .sw, decompRv128 := .sw }
  | .cFswsp => { codec := .cssSwsp, decompRv32 := .fsw }
  | .cLd => { codec := .clLd, decompRv64 := .ld, decompRv128 := .ld }
  | .cSd => { codec := .csSd, decompRv64 := .sd, decompRv128 := .sd }
  | .cAddiw => { codec := .ci, decompRv64 := .addiw, decompRv128 := .addiw }
  | .cLdsp => { codec := .ciLdsp, decompRv64 := .ld, decompRv128 := .ld }
  | .cSdsp => { codec := .cssSdsp, decompRv64 := .sd, decompRv128 := .sd }
  | .cLq => { codec := .clLq, decompRv128 := .lq }
  | .cSq => { codec := .csSq, decompRv128 := .sq }
  | .cLqsp => { codec := .ciLqsp, decompRv128 := .lq }
  | .cSqsp => { codec := .cssSqsp, decompRv128 := .sq }
  | .nop | .mv | .not => { codec := .i }
  | .neg | .negw => { codec := .r }
  | .sextW | .seqz => { codec := .i }
  | .snez | .sltz | .sgtz | .fmvS | .fabsS | .fnegS | .fmvD | .fabsD | .fnegD | .fmvQ | .fabsQ
  | .fnegQ => { codec := .r }
  | .beqz | .bnez | .blez | .bgez | .bltz | .bgtz | .ble | .bleu | .bgt | .bgtu => { codec := .sb }
  | .j => { codec := .uj }
  | .ret | .jr => { codec := .i }
  | .rdcycle | .rdtime | .rdinstret | .rdcycleh | .rdtimeh | .rdinstreth | .frcsr | .frrm
  | .frflags | .fscsr | .fsrm | .fsflags | .fsrmi | .fsflagsi => { codec := .iCsr }

end IScanU.RVDisas
