import IScanU.RVDisas.Opcodes

/-! # The RISC-V disassembler (`disas/RV-disas/riscv-disas.c`)

`disasm_inst` decodes one instruction word: its opcode, its operands, the full-size instruction a
compressed one stands for, and the pseudo-instruction that is shown for it. What it returns is
whether there was an opcode. Integers are words of the width of the C types. -/

namespace IScanU.RVDisas

abbrev RvInst := BitVec 64

structure RvDecode where
  pc : BitVec 64
  inst : RvInst
  imm : BitVec 32
  op : RvOp
  codec : RvCodec
  rd : BitVec 8
  rs1 : BitVec 8
  rs2 : BitVec 8
  rs3 : BitVec 8
  rm : BitVec 8
  pred : BitVec 8
  succ : BitVec 8
  aq : BitVec 8
  rl : BitVec 8
deriving DecidableEq

/-- `{ 0 }`, then the arguments of `disasm_inst`. -/
def RvDecode.init (pc : BitVec 64) (inst : RvInst) : RvDecode where
  pc := pc
  inst := inst
  imm := 0
  op := .illegal
  codec := .illegal
  rd := 0
  rs1 := 0
  rs2 := 0
  rs3 := 0
  rm := 0
  pred := 0
  succ := 0
  aq := 0
  rl := 0

/-! ## Decode opcode

The nested `switch` of `decode_inst_opcode`, one function for each case of the outermost one. The
larger cases of the full-size instructions are functions of their own. -/

def opcodeQuadrant0 (isa : RvIsa) (inst : RvInst) : RvOp :=
  match inst >>> 13 &&& 0b111#64 with
  | 0 => .cAddi4spn
  | 1 => if isa = .rv128 then .cLq else .cFld
  | 2 => .cLw
  | 3 => if isa = .rv32 then .cFlw else .cLd
  | 5 => if isa = .rv128 then .cSq else .cFsd
  | 6 => .cSw
  | 7 => if isa = .rv32 then .cFsw else .cSd
  | _ => .illegal

def opcodeQuadrant1 (isa : RvIsa) (inst : RvInst) : RvOp :=
  match inst >>> 13 &&& 0b111#64 with
  | 0 => if inst >>> 2 &&& 0b11111111111#64 = 0 then .cNop else .cAddi
  | 1 => if isa = .rv32 then .cJal else .cAddiw
  | 2 => .cLi
  | 3 => if inst >>> 7 &&& 0b11111#64 = 2 then .cAddi16sp else .cLui
  | 4 =>
    match inst >>> 10 &&& 0b11#64 with
    | 0 => .cSrli | 1 => .cSrai | 2 => .cAndi
    | 3 =>
      match inst >>> 10 &&& 0b100#64 ||| inst >>> 5 &&& 0b011#64 with
      | 0 => .cSub | 1 => .cXor | 2 => .cOr | 3 => .cAnd | 4 => .cSubw | 5 => .cAddw
      | _ => .illegal
    | _ => .illegal
  | 5 => .cJ | 6 => .cBeqz | 7 => .cBnez
  | _ => .illegal

def opcodeQuadrant2 (isa : RvIsa) (inst : RvInst) : RvOp :=
  match inst >>> 13 &&& 0b111#64 with
  | 0 => .cSlli
  | 1 => if isa = .rv128 then .cLqsp else .cFldsp
  | 2 => .cLwsp
  | 3 => if isa = .rv32 then .cFlwsp else .cLdsp
  | 4 =>
    match inst >>> 12 &&& 0b1#64 with
    | 0 => if inst >>> 2 &&& 0b11111#64 = 0 then .cJr else .cMv
    | 1 =>
      if inst >>> 2 &&& 0b11111#64 = 0 then
        if inst >>> 7 &&& 0b11111#64 = 0 then .cEbreak else .cJalr
      else .cAdd
    | _ => .illegal
  | 5 => if isa = .rv128 then .cSqsp else .cFsdsp
  | 6 => .cSwsp
  | 7 => if isa = .rv32 then .cFswsp else .cSdsp
  | _ => .illegal

def opcodeAmo (inst : RvInst) : RvOp :=
  match inst >>> 24 &&& 0b11111000#64 ||| inst >>> 12 &&& 0b00000111#64 with
  | 2 => .amoaddW | 3 => .amoaddD | 4 => .amoaddQ | 10 => .amoswapW | 11 => .amoswapD
  | 12 => .amoswapQ
  | 18 => if inst >>> 20 &&& 0b11111#64 = 0 then .lrW else .illegal
  | 19 => if inst >>> 20 &&& 0b11111#64 = 0 then .lrD else .illegal
  | 20 => if inst >>> 20 &&& 0b11111#64 = 0 then .lrQ else .illegal
  | 26 => .scW | 27 => .scD | 28 => .scQ | 34 => .amoxorW | 35 => .amoxorD | 36 => .amoxorQ
  | 66 => .amoorW | 67 => .amoorD | 68 => .amoorQ | 98 => .amoandW | 99 => .amoandD
  | 100 => .amoandQ | 130 => .amominW | 131 => .amominD | 132 => .amominQ | 162 => .amomaxW
  | 163 => .amomaxD | 164 => .amomaxQ | 194 => .amominuW | 195 => .amominuD | 196 => .amominuQ
  | 226 => .amomaxuW | 227 => .amomaxuD | 228 => .amomaxuQ
  | _ => .illegal

def opcodeOp (inst : RvInst) : RvOp :=
  match inst >>> 22 &&& 0b1111111000#64 ||| inst >>> 12 &&& 0b0000000111#64 with
  | 0 => .add | 1 => .sll | 2 => .slt | 3 => .sltu | 4 => .xor | 5 => .srl | 6 => .or
  | 7 => .and | 8 => .mul | 9 => .mulh | 10 => .mulhsu | 11 => .mulhu | 12 => .div | 13 => .divu
  | 14 => .rem | 15 => .remu | 256 => .sub | 261 => .sra
  | _ => .illegal

def opcodeOp32 (inst : RvInst) : RvOp :=
  match inst >>> 22 &&& 0b1111111000#64 ||| inst >>> 12 &&& 0b0000000111#64 with
  | 0 => .addw | 1 => .sllw | 5 => .srlw | 8 => .mulw | 12 => .divw | 13 => .divuw | 14 => .remw
  | 15 => .remuw | 256 => .subw | 261 => .sraw
  | _ => .illegal

def opcodeOpFp (inst : RvInst) : RvOp :=
  match inst >>> 25 &&& 0b1111111#64 with
  | 0 => .faddS | 1 => .faddD | 3 => .faddQ | 4 => .fsubS | 5 => .fsubD | 7 => .fsubQ
  | 8 => .fmulS | 9 => .fmulD | 11 => .fmulQ | 12 => .fdivS | 13 => .fdivD | 15 => .fdivQ
  | 16 =>
    match inst >>> 12 &&& 0b111#64 with
    | 0 => .fsgnjS | 1 => .fsgnjnS | 2 => .fsgnjxS
    | _ => .illegal
  | 17 =>
    match inst >>> 12 &&& 0b111#64 with
    | 0 => .fsgnjD | 1 => .fsgnjnD | 2 => .fsgnjxD
    | _ => .illegal
  | 19 =>
    match inst >>> 12 &&& 0b111#64 with
    | 0 => .fsgnjQ | 1 => .fsgnjnQ | 2 => .fsgnjxQ
    | _ => .illegal
  | 20 =>
    match inst >>> 12 &&& 0b111#64 with
    | 0 => .fminS | 1 => .fmaxS
    | _ => .illegal
  | 21 =>
    match inst >>> 12 &&& 0b111#64 with
    | 0 => .fminD | 1 => .fmaxD
    | _ => .illegal
  | 23 =>
    match inst >>> 12 &&& 0b111#64 with
    | 0 => .fminQ | 1 => .fmaxQ
    | _ => .illegal
  | 32 =>
    match inst >>> 20 &&& 0b11111#64 with
    | 1 => .fcvtSD | 3 => .fcvtSQ
    | _ => .illegal
  | 33 =>
    match inst >>> 20 &&& 0b11111#64 with
    | 0 => .fcvtDS | 3 => .fcvtDQ
    | _ => .illegal
  | 35 =>
    match inst >>> 20 &&& 0b11111#64 with
    | 0 => .fcvtQS | 1 => .fcvtQD
    | _ => .illegal
  | 44 => if inst >>> 20 &&& 0b11111#64 = 0 then .fsqrtS else .illegal
  | 45 => if inst >>> 20 &&& 0b11111#64 = 0 then .fsqrtD else .illegal
  | 47 => if inst >>> 20 &&& 0b11111#64 = 0 then .fsqrtQ else .illegal
  | 80 =>
    match inst >>> 12 &&& 0b111#64 with
    | 0 => .fleS | 1 => .fltS | 2 => .feqS
    | _ => .illegal
  | 81 =>
    match inst >>> 12 &&& 0b111#64 with
    | 0 => .fleD | 1 => .fltD | 2 => .feqD
    | _ => .illegal
  | 83 =>
    match inst >>> 12 &&& 0b111#64 with
    | 0 => .fleQ | 1 => .fltQ | 2 => .feqQ
    | _ => .illegal
  | 96 =>
    match inst >>> 20 &&& 0b11111#64 with
    | 0 => .fcvtWS | 1 => .fcvtWuS | 2 => .fcvtLS | 3 => .fcvtLuS
    | _ => .illegal
  | 97 =>
    match inst >>> 20 &&& 0b11111#64 with
    | 0 => .fcvtWD | 1 => .fcvtWuD | 2 => .fcvtLD | 3 => .fcvtLuD
    | _ => .illegal
  | 99 =>
    match inst >>> 20 &&& 0b11111#64 with
    | 0 => .fcvtWQ | 1 => .fcvtWuQ | 2 => .fcvtLQ | 3 => .fcvtLuQ
    | _ => .illegal
  | 104 =>
    match inst >>> 20 &&& 0b11111#64 with
    | 0 => .fcvtSW | 1 => .fcvtSWu | 2 => .fcvtSL | 3 => .fcvtSLu
    | _ => .illegal
  | 105 =>
    match inst >>> 20 &&& 0b11111#64 with
    | 0 => .fcvtDW | 1 => .fcvtDWu | 2 => .fcvtDL | 3 => .fcvtDLu
    | _ => .illegal
  | 107 =>
    match inst >>> 20 &&& 0b11111#64 with
    | 0 => .fcvtQW | 1 => .fcvtQWu | 2 => .fcvtQL | 3 => .fcvtQLu
    | _ => .illegal
  | 112 =>
    match inst >>> 17 &&& 0b11111000#64 ||| inst >>> 12 &&& 0b00000111#64 with
    | 0 => .fmvXS | 1 => .fclassS
    | _ => .illegal
  | 113 =>
    match inst >>> 17 &&& 0b11111000#64 ||| inst >>> 12 &&& 0b00000111#64 with
    | 0 => .fmvXD | 1 => .fclassD
    | _ => .illegal
  | 115 =>
    match inst >>> 17 &&& 0b11111000#64 ||| inst >>> 12 &&& 0b00000111#64 with
    | 0 => .fmvXQ | 1 => .fclassQ
    | _ => .illegal
  | 120 =>
    match inst >>> 17 &&& 0b11111000#64 ||| inst >>> 12 &&& 0b00000111#64 with
    | 0 => .fmvSX
    | _ => .illegal
  | 121 =>
    match inst >>> 17 &&& 0b11111000#64 ||| inst >>> 12 &&& 0b00000111#64 with
    | 0 => .fmvDX
    | _ => .illegal
  | 123 =>
    match inst >>> 17 &&& 0b11111000#64 ||| inst >>> 12 &&& 0b00000111#64 with
    | 0 => .fmvQX
    | _ => .illegal
  | _ => .illegal

def opcodeSystem (inst : RvInst) : RvOp :=
  match inst >>> 12 &&& 0b111#64 with
  | 0 =>
    match inst >>> 20 &&& 0b111111100000#64 ||| inst >>> 7 &&& 0b000000011111#64 with
    | 0 =>
      match inst >>> 15 &&& 0b1111111111#64 with
      | 0 => .ecall | 32 => .ebreak | 64 => .uret
      | _ => .illegal
    | 256 =>
      match inst >>> 20 &&& 0b11111#64 with
      | 2 => if inst >>> 15 &&& 0b11111#64 = 0 then .sret else .illegal
      | 4 => .sfenceVm
      | 5 => if inst >>> 15 &&& 0b11111#64 = 0 then .wfi else .illegal
      | _ => .illegal
    | 288 => .sfenceVma
    | 512 => if inst >>> 15 &&& 0b1111111111#64 = 64 then .hret else .illegal
    | 768 => if inst >>> 15 &&& 0b1111111111#64 = 64 then .mret else .illegal
    | 1952 => if inst >>> 15 &&& 0b1111111111#64 = 576 then .dret else .illegal
    | _ => .illegal
  | 1 => .csrrw | 2 => .csrrs | 3 => .csrrc | 5 => .csrrwi | 6 => .csrrsi | 7 => .csrrci
  | _ => .illegal

def opcodeOp64 (inst : RvInst) : RvOp :=
  match inst >>> 22 &&& 0b1111111000#64 ||| inst >>> 12 &&& 0b0000000111#64 with
  | 0 => .addd | 1 => .slld | 5 => .srld | 8 => .muld | 12 => .divd | 13 => .divud | 14 => .remd
  | 15 => .remud | 256 => .subd | 261 => .srad
  | _ => .illegal

def opcodeQuadrant3 (inst : RvInst) : RvOp :=
  match inst >>> 2 &&& 0b11111#64 with
  | 0 =>
    match inst >>> 12 &&& 0b111#64 with
    | 0 => .lb | 1 => .lh | 2 => .lw | 3 => .ld | 4 => .lbu | 5 => .lhu | 6 => .lwu | 7 => .ldu
    | _ => .illegal
  | 1 =>
    match inst >>> 12 &&& 0b111#64 with
    | 2 => .flw | 3 => .fld | 4 => .flq
    | _ => .illegal
  | 3 =>
    match inst >>> 12 &&& 0b111#64 with
    | 0 => .fence | 1 => .fenceI | 2 => .lq
    | _ => .illegal
  | 4 =>
    match inst >>> 12 &&& 0b111#64 with
    | 0 => .addi
    | 1 => if inst >>> 27 &&& 0b11111#64 = 0 then .slli else .illegal
    | 2 => .slti | 3 => .sltiu | 4 => .xori
    | 5 =>
      match inst >>> 27 &&& 0b11111#64 with
      | 0 => .srli | 8 => .srai
      | _ => .illegal
    | 6 => .ori | 7 => .andi
    | _ => .illegal
  | 5 => .auipc
  | 6 =>
    match inst >>> 12 &&& 0b111#64 with
    | 0 => .addiw
    | 1 => if inst >>> 25 &&& 0b1111111#64 = 0 then .slliw else .illegal
    | 5 =>
      match inst >>> 25 &&& 0b1111111#64 with
      | 0 => .srliw | 32 => .sraiw
      | _ => .illegal
    | _ => .illegal
  | 8 =>
    match inst >>> 12 &&& 0b111#64 with
    | 0 => .sb | 1 => .sh | 2 => .sw | 3 => .sd | 4 => .sq
    | _ => .illegal
  | 9 =>
    match inst >>> 12 &&& 0b111#64 with
    | 2 => .fsw | 3 => .fsd | 4 => .fsq
    | _ => .illegal
  | 11 => opcodeAmo inst
  | 12 => opcodeOp inst
  | 13 => .lui
  | 14 => opcodeOp32 inst
  | 16 =>
    match inst >>> 25 &&& 0b11#64 with
    | 0 => .fmaddS | 1 => .fmaddD | 3 => .fmaddQ
    | _ => .illegal
  | 17 =>
    match inst >>> 25 &&& 0b11#64 with
    | 0 => .fmsubS | 1 => .fmsubD | 3 => .fmsubQ
    | _ => .illegal
  | 18 =>
    match inst >>> 25 &&& 0b11#64 with
    | 0 => .fnmsubS | 1 => .fnmsubD | 3 => .fnmsubQ
    | _ => .illegal
  | 19 =>
    match inst >>> 25 &&& 0b11#64 with
    | 0 => .fnmaddS | 1 => .fnmaddD | 3 => .fnmaddQ
    | _ => .illegal
  | 20 => opcodeOpFp inst
  | 22 =>
    match inst >>> 12 &&& 0b111#64 with
    | 0 => .addid
    | 1 => if inst >>> 26 &&& 0b111111#64 = 0 then .sllid else .illegal
    | 5 =>
      match inst >>> 26 &&& 0b111111#64 with
      | 0 => .srlid | 16 => .sraid
      | _ => .illegal
    | _ => .illegal
  | 24 =>
    match inst >>> 12 &&& 0b111#64 with
    | 0 => .beq | 1 => .bne | 4 => .blt | 5 => .bge | 6 => .bltu | 7 => .bgeu
    | _ => .illegal
  | 25 => if inst >>> 12 &&& 0b111#64 = 0 then .jalr else .illegal
  | 27 => .jal
  | 28 => opcodeSystem inst
  | 30 => opcodeOp64 inst
  | _ => .illegal

def opcode (isa : RvIsa) (inst : RvInst) : RvOp :=
  match inst >>> 0 &&& 0b11#64 with
  | 0 => opcodeQuadrant0 isa inst
  | 1 => opcodeQuadrant1 isa inst
  | 2 => opcodeQuadrant2 isa inst
  | 3 => opcodeQuadrant3 inst
  | _ => .illegal

def decodeInstOpcode (dec : RvDecode) (isa : RvIsa) : RvDecode :=
  { dec with op := opcode isa dec.inst }

/-! ## Operand extractors -/

def operandRd (inst : RvInst) : BitVec 32 := (inst <<< 52 >>> 59).setWidth 32
def operandRs1 (inst : RvInst) : BitVec 32 := (inst <<< 44 >>> 59).setWidth 32
def operandRs2 (inst : RvInst) : BitVec 32 := (inst <<< 39 >>> 59).setWidth 32
def operandRs3 (inst : RvInst) : BitVec 32 := (inst <<< 32 >>> 59).setWidth 32
def operandAq (inst : RvInst) : BitVec 32 := (inst <<< 37 >>> 63).setWidth 32
def operandRl (inst : RvInst) : BitVec 32 := (inst <<< 38 >>> 63).setWidth 32
def operandPred (inst : RvInst) : BitVec 32 := (inst <<< 36 >>> 60).setWidth 32
def operandSucc (inst : RvInst) : BitVec 32 := (inst <<< 40 >>> 60).setWidth 32
def operandRm (inst : RvInst) : BitVec 32 := (inst <<< 49 >>> 61).setWidth 32
def operandShamt5 (inst : RvInst) : BitVec 32 := (inst <<< 39 >>> 59).setWidth 32
def operandShamt6 (inst : RvInst) : BitVec 32 := (inst <<< 38 >>> 58).setWidth 32
def operandShamt7 (inst : RvInst) : BitVec 32 := (inst <<< 37 >>> 57).setWidth 32
def operandCrdq (inst : RvInst) : BitVec 32 := (inst <<< 59 >>> 61).setWidth 32
def operandCrs1q (inst : RvInst) : BitVec 32 := (inst <<< 54 >>> 61).setWidth 32
def operandCrs1rdq (inst : RvInst) : BitVec 32 := (inst <<< 54 >>> 61).setWidth 32
def operandCrs2q (inst : RvInst) : BitVec 32 := (inst <<< 59 >>> 61).setWidth 32
def operandCrd (inst : RvInst) : BitVec 32 := (inst <<< 52 >>> 59).setWidth 32
def operandCrs1 (inst : RvInst) : BitVec 32 := (inst <<< 52 >>> 59).setWidth 32
def operandCrs1rd (inst : RvInst) : BitVec 32 := (inst <<< 52 >>> 59).setWidth 32
def operandCrs2 (inst : RvInst) : BitVec 32 := (inst <<< 57 >>> 59).setWidth 32
def operandCimmsh5 (inst : RvInst) : BitVec 32 := (inst <<< 57 >>> 59).setWidth 32
def operandCsr12 (inst : RvInst) : BitVec 32 := (inst <<< 32 >>> 52).setWidth 32
def operandImm12 (inst : RvInst) : BitVec 32 := ((inst <<< 32).sshiftRight 52).setWidth 32
def operandImm20 (inst : RvInst) : BitVec 32 := ((inst <<< 32).sshiftRight 44 <<< 12).setWidth 32
def operandJimm20 (inst : RvInst) : BitVec 32 :=
  ((inst <<< 32).sshiftRight 63 <<< 20 ||| inst <<< 33 >>> 54 <<< 1 |||
    inst <<< 43 >>> 63 <<< 11 ||| inst <<< 44 >>> 56 <<< 12).setWidth 32
def operandSimm12 (inst : RvInst) : BitVec 32 :=
  ((inst <<< 32).sshiftRight 57 <<< 5 ||| inst <<< 52 >>> 59).setWidth 32
def operandSbimm12 (inst : RvInst) : BitVec 32 :=
  ((inst <<< 32).sshiftRight 63 <<< 12 ||| inst <<< 33 >>> 58 <<< 5 |||
    inst <<< 52 >>> 60 <<< 1 ||| inst <<< 56 >>> 63 <<< 11).setWidth 32
def operandCimmsh6 (inst : RvInst) : BitVec 32 :=
  (inst <<< 51 >>> 63 <<< 5 ||| inst <<< 57 >>> 59).setWidth 32
def operandCimmi (inst : RvInst) : BitVec 32 :=
  ((inst <<< 51).sshiftRight 63 <<< 5 ||| inst <<< 57 >>> 59).setWidth 32
def operandCimmui (inst : RvInst) : BitVec 32 :=
  ((inst <<< 51).sshiftRight 63 <<< 17 ||| inst <<< 57 >>> 59 <<< 12).setWidth 32
def operandCimmlwsp (inst : RvInst) : BitVec 32 :=
  (inst <<< 51 >>> 63 <<< 5 ||| inst <<< 57 >>> 61 <<< 2 ||| inst <<< 60 >>> 62 <<< 6).setWidth 32
def operandCimmldsp (inst : RvInst) : BitVec 32 :=
  (inst <<< 51 >>> 63 <<< 5 ||| inst <<< 57 >>> 62 <<< 3 ||| inst <<< 59 >>> 61 <<< 6).setWidth 32
def operandCimmlqsp (inst : RvInst) : BitVec 32 :=
  (inst <<< 51 >>> 63 <<< 5 ||| inst <<< 57 >>> 63 <<< 4 ||| inst <<< 58 >>> 60 <<< 6).setWidth 32
def operandCimm16sp (inst : RvInst) : BitVec 32 :=
  ((inst <<< 51).sshiftRight 63 <<< 9 ||| inst <<< 57 >>> 63 <<< 4 |||
    inst <<< 58 >>> 63 <<< 6 ||| inst <<< 59 >>> 62 <<< 7 |||
    inst <<< 61 >>> 63 <<< 5).setWidth 32
def operandCimmj (inst : RvInst) : BitVec 32 :=
  ((inst <<< 51).sshiftRight 63 <<< 11 ||| inst <<< 52 >>> 63 <<< 4 |||
    inst <<< 53 >>> 62 <<< 8 ||| inst <<< 55 >>> 63 <<< 10 ||| inst <<< 56 >>> 63 <<< 6 |||
    inst <<< 57 >>> 63 <<< 7 ||| inst <<< 58 >>> 61 <<< 1 |||
    inst <<< 61 >>> 63 <<< 5).setWidth 32
def operandCimmb (inst : RvInst) : BitVec 32 :=
  ((inst <<< 51).sshiftRight 63 <<< 8 ||| inst <<< 52 >>> 62 <<< 3 |||
    inst <<< 57 >>> 62 <<< 6 ||| inst <<< 59 >>> 62 <<< 1 |||
    inst <<< 61 >>> 63 <<< 5).setWidth 32
def operandCimmswsp (inst : RvInst) : BitVec 32 :=
  (inst <<< 51 >>> 60 <<< 2 ||| inst <<< 55 >>> 62 <<< 6).setWidth 32
def operandCimmsdsp (inst : RvInst) : BitVec 32 :=
  (inst <<< 51 >>> 61 <<< 3 ||| inst <<< 54 >>> 61 <<< 6).setWidth 32
def operandCimmsqsp (inst : RvInst) : BitVec 32 :=
  (inst <<< 51 >>> 62 <<< 4 ||| inst <<< 53 >>> 60 <<< 6).setWidth 32
def operandCimm4spn (inst : RvInst) : BitVec 32 :=
  (inst <<< 51 >>> 62 <<< 4 ||| inst <<< 53 >>> 60 <<< 6 ||| inst <<< 57 >>> 63 <<< 2 |||
    inst <<< 58 >>> 63 <<< 3).setWidth 32
def operandCimmw (inst : RvInst) : BitVec 32 :=
  (inst <<< 51 >>> 61 <<< 3 ||| inst <<< 57 >>> 63 <<< 2 ||| inst <<< 58 >>> 63 <<< 6).setWidth 32
def operandCimmd (inst : RvInst) : BitVec 32 :=
  (inst <<< 51 >>> 61 <<< 3 ||| inst <<< 57 >>> 62 <<< 6).setWidth 32
def operandCimmq (inst : RvInst) : BitVec 32 :=
  (inst <<< 51 >>> 62 <<< 4 ||| inst <<< 53 >>> 63 <<< 8 ||| inst <<< 57 >>> 62 <<< 6).setWidth 32

/-! ## Decode operands -/

def rvIregRa : BitVec 8 := 1
def rvIregSp : BitVec 8 := 2

/-- The `switch` on the codec. Register numbers are cut down to the width of their fields. -/
def decodeOperandsAs (codec : RvCodec) (dec : RvDecode) : RvDecode :=
  let inst := dec.inst
  match codec with
  | .illegal => dec
  | .none => { dec with rd := 0, rs1 := 0, rs2 := 0, imm := 0 }
  | .u =>
    { dec with rd := (operandRd inst).setWidth 8, rs1 := 0, rs2 := 0, imm := operandImm20 inst }
  | .uj =>
    { dec with rd := (operandRd inst).setWidth 8, rs1 := 0, rs2 := 0, imm := operandJimm20 inst }
  | .i =>
    { dec with
      rd := (operandRd inst).setWidth 8, rs1 := (operandRs1 inst).setWidth 8, rs2 := 0,
      imm := operandImm12 inst }
  | .iSh5 =>
    { dec with
      rd := (operandRd inst).setWidth 8, rs1 := (operandRs1 inst).setWidth 8, rs2 := 0,
      imm := operandShamt5 inst }
  | .iSh6 =>
    { dec with
      rd := (operandRd inst).setWidth 8, rs1 := (operandRs1 inst).setWidth 8, rs2 := 0,
      imm := operandShamt6 inst }
  | .iSh7 =>
    { dec with
      rd := (operandRd inst).setWidth 8, rs1 := (operandRs1 inst).setWidth 8, rs2 := 0,
      imm := operandShamt7 inst }
  | .iCsr =>
    { dec with
      rd := (operandRd inst).setWidth 8, rs1 := (operandRs1 inst).setWidth 8, rs2 := 0,
      imm := operandCsr12 inst }
  | .s =>
    { dec with
      rd := 0, rs1 := (operandRs1 inst).setWidth 8, rs2 := (operandRs2 inst).setWidth 8,
      imm := operandSimm12 inst }
  | .sb =>
    { dec with
      rd := 0, rs1 := (operandRs1 inst).setWidth 8, rs2 := (operandRs2 inst).setWidth 8,
      imm := operandSbimm12 inst }
  | .r =>
    { dec with
      rd := (operandRd inst).setWidth 8, rs1 := (operandRs1 inst).setWidth 8,
      rs2 := (operandRs2 inst).setWidth 8, imm := 0 }
  | .rM =>
    { dec with
      rd := (operandRd inst).setWidth 8, rs1 := (operandRs1 inst).setWidth 8,
      rs2 := (operandRs2 inst).setWidth 8, imm := 0, rm := (operandRm inst).setWidth 8 }
  | .r4M =>
    { dec with
      rd := (operandRd inst).setWidth 8, rs1 := (operandRs1 inst).setWidth 8,
      rs2 := (operandRs2 inst).setWidth 8, rs3 := (operandRs3 inst).setWidth 8, imm := 0,
      rm := (operandRm inst).setWidth 8 }
  | .rA =>
    { dec with
      rd := (operandRd inst).setWidth 8, rs1 := (operandRs1 inst).setWidth 8,
      rs2 := (operandRs2 inst).setWidth 8, imm := 0, aq := (operandAq inst).setWidth 8,
      rl := (operandRl inst).setWidth 8 }
  | .rL =>
    { dec with
      rd := (operandRd inst).setWidth 8, rs1 := (operandRs1 inst).setWidth 8, rs2 := 0, imm := 0,
      aq := (operandAq inst).setWidth 8, rl := (operandRl inst).setWidth 8 }
  | .rF =>
    { dec with
      rd := 0, rs1 := 0, rs2 := 0, pred := (operandPred inst).setWidth 8,
      succ := (operandSucc inst).setWidth 8, imm := 0 }
  | .cb =>
    { dec with
      rd := 0, rs1 := (operandCrs1q inst + 8).setWidth 8, rs2 := 0, imm := operandCimmb inst }
  | .cbImm =>
    { dec with
      rd := (operandCrs1rdq inst + 8).setWidth 8, rs1 := (operandCrs1rdq inst + 8).setWidth 8,
      rs2 := 0, imm := operandCimmi inst }
  | .cbSh5 =>
    { dec with
      rd := (operandCrs1rdq inst + 8).setWidth 8, rs1 := (operandCrs1rdq inst + 8).setWidth 8,
      rs2 := 0, imm := operandCimmsh5 inst }
  | .cbSh6 =>
    { dec with
      rd := (operandCrs1rdq inst + 8).setWidth 8, rs1 := (operandCrs1rdq inst + 8).setWidth 8,
      rs2 := 0, imm := operandCimmsh6 inst }
  | .ci =>
    { dec with
      rd := (operandCrs1rd inst).setWidth 8, rs1 := (operandCrs1rd inst).setWidth 8, rs2 := 0,
      imm := operandCimmi inst }
  | .ciSh5 =>
    { dec with
      rd := (operandCrs1rd inst).setWidth 8, rs1 := (operandCrs1rd inst).setWidth 8, rs2 := 0,
      imm := operandCimmsh5 inst }
  | .ciSh6 =>
    { dec with
      rd := (operandCrs1rd inst).setWidth 8, rs1 := (operandCrs1rd inst).setWidth 8, rs2 := 0,
      imm := operandCimmsh6 inst }
  | .ci16sp => { dec with rd := rvIregSp, rs1 := rvIregSp, rs2 := 0, imm := operandCimm16sp inst }
  | .ciLwsp =>
    { dec with
      rd := (operandCrd inst).setWidth 8, rs1 := rvIregSp, rs2 := 0, imm := operandCimmlwsp inst }
  | .ciLdsp =>
    { dec with
      rd := (operandCrd inst).setWidth 8, rs1 := rvIregSp, rs2 := 0, imm := operandCimmldsp inst }
  | .ciLqsp =>
    { dec with
      rd := (operandCrd inst).setWidth 8, rs1 := rvIregSp, rs2 := 0, imm := operandCimmlqsp inst }
  | .ciLi =>
    { dec with rd := (operandCrd inst).setWidth 8, rs1 := 0, rs2 := 0, imm := operandCimmi inst }
  | .ciLui =>
    { dec with rd := (operandCrd inst).setWidth 8, rs1 := 0, rs2 := 0, imm := operandCimmui inst }
  | .ciNone => { dec with rd := 0, rs1 := 0, rs2 := 0, imm := 0 }
  | .ciw4spn =>
    { dec with
      rd := (operandCrdq inst + 8).setWidth 8, rs1 := rvIregSp, rs2 := 0,
      imm := operandCimm4spn inst }
  | .cj => { dec with rd := 0, rs1 := 0, rs2 := 0, imm := operandCimmj inst }
  | .cjJal => { dec with rd := rvIregRa, rs1 := 0, rs2 := 0, imm := operandCimmj inst }
  | .clLw =>
    { dec with
      rd := (operandCrdq inst + 8).setWidth 8, rs1 := (operandCrs1q inst + 8).setWidth 8, rs2 := 0,
      imm := operandCimmw inst }
  | .clLd =>
    { dec with
      rd := (operandCrdq inst + 8).setWidth 8, rs1 := (operandCrs1q inst + 8).setWidth 8, rs2 := 0,
      imm := operandCimmd inst }
  | .clLq =>
    { dec with
      rd := (operandCrdq inst + 8).setWidth 8, rs1 := (operandCrs1q inst + 8).setWidth 8, rs2 := 0,
      imm := operandCimmq inst }
  | .cr =>
    { dec with
      rd := (operandCrs1rd inst).setWidth 8, rs1 := (operandCrs1rd inst).setWidth 8,
      rs2 := (operandCrs2 inst).setWidth 8, imm := 0 }
  | .crMv =>
    { dec with
      rd := (operandCrd inst).setWidth 8, rs1 := (operandCrs2 inst).setWidth 8, rs2 := 0,
      imm := 0 }
  | .crJalr => { dec with rd := rvIregRa, rs1 := (operandCrs1 inst).setWidth 8, rs2 := 0, imm := 0 }
  | .crJr => { dec with rd := 0, rs1 := (operandCrs1 inst).setWidth 8, rs2 := 0, imm := 0 }
  | .cs =>
    { dec with
      rd := (operandCrs1rdq inst + 8).setWidth 8, rs1 := (operandCrs1rdq inst + 8).setWidth 8,
      rs2 := (operandCrs2q inst + 8).setWidth 8, imm := 0 }
  | .csSw =>
    { dec with
      rd := 0, rs1 := (operandCrs1q inst + 8).setWidth 8,
      rs2 := (operandCrs2q inst + 8).setWidth 8, imm := operandCimmw inst }
  | .csSd =>
    { dec with
      rd := 0, rs1 := (operandCrs1q inst + 8).setWidth 8,
      rs2 := (operandCrs2q inst + 8).setWidth 8, imm := operandCimmd inst }
  | .csSq =>
    { dec with
      rd := 0, rs1 := (operandCrs1q inst + 8).setWidth 8,
      rs2 := (operandCrs2q inst + 8).setWidth 8, imm := operandCimmq inst }
  | .cssSwsp =>
    { dec with
      rd := 0, rs1 := rvIregSp, rs2 := (operandCrs2 inst).setWidth 8, imm := operandCimmswsp inst }
  | .cssSdsp =>
    { dec with
      rd := 0, rs1 := rvIregSp, rs2 := (operandCrs2 inst).setWidth 8, imm := operandCimmsdsp inst }
  | .cssSqsp =>
    { dec with
      rd := 0, rs1 := rvIregSp, rs2 := (operandCrs2 inst).setWidth 8, imm := operandCimmsqsp inst }

def decodeInstOperands (dec : RvDecode) : RvDecode :=
  let codec := (opcodeData dec.op).codec
  decodeOperandsAs codec { dec with codec := codec }

/-! ## Check constraints -/

def RvcConstraint.check (c : RvcConstraint) (dec : RvDecode) : Bool :=
  match c with
  | .rdEqRa => dec.rd == 1
  | .rdEqX0 => dec.rd == 0
  | .rs1EqX0 => dec.rs1 == 0
  | .rs2EqX0 => dec.rs2 == 0
  | .rs2EqRs1 => dec.rs2 == dec.rs1
  | .rs1EqRa => dec.rs1 == 1
  | .immEqZero => dec.imm == 0
  | .immEqN1 => dec.imm == -1
  | .immEqP1 => dec.imm == 1
  | .csrEq0x001 => dec.imm == 0x001
  | .csrEq0x002 => dec.imm == 0x002
  | .csrEq0x003 => dec.imm == 0x003
  | .csrEq0xc00 => dec.imm == 0xc00
  | .csrEq0xc01 => dec.imm == 0xc01
  | .csrEq0xc02 => dec.imm == 0xc02
  | .csrEq0xc80 => dec.imm == 0xc80
  | .csrEq0xc81 => dec.imm == 0xc81
  | .csrEq0xc82 => dec.imm == 0xc82

def checkConstraints (dec : RvDecode) (c : List RvcConstraint) : Bool := c.all (·.check dec)

/-! ## Instruction length -/

def instLength (inst : RvInst) : Nat :=
  if inst &&& 0b11#64 ≠ 0b11#64 then 2
  else if inst &&& 0b11100#64 ≠ 0b11100#64 then 4
  else if inst &&& 0b111111#64 = 0b011111#64 then 6
  else if inst &&& 0b1111111#64 = 0b0111111#64 then 8
  else 0

/-! ## Lift instruction to pseudo-instruction -/

/-- The first entry of the list whose constraints hold. -/
def decodeInstLiftPseudo (dec : RvDecode) : RvDecode :=
  match (opcodeData dec.op).pseudo.find? fun c => checkConstraints dec c.constraints with
  | none => dec
  | some compData => { dec with op := compData.op, codec := (opcodeData compData.op).codec }

/-! ## Decompress instruction -/

/-- The column of the table that `decompress_inst_rv32`, `decompress_inst_rv64` and
`decompress_inst_rv128` look at. -/
def RvOpcodeData.decomp (d : RvOpcodeData) : RvIsa → RvOp
  | .rv32 => d.decompRv32
  | .rv64 => d.decompRv64
  | .rv128 => d.decompRv128

/-- The three functions differ in that column alone. -/
def decompressInst (isa : RvIsa) (dec : RvDecode) : RvDecode :=
  let decompOp := (opcodeData dec.op).decomp isa
  if decompOp ≠ .illegal then
    if (opcodeData dec.op).decompData &&& rvcdImmNz ≠ 0 ∧ dec.imm = 0 then
      { dec with op := .illegal }
    else { dec with op := decompOp, codec := (opcodeData decompOp).codec }
  else dec

/-! ## Disassemble instruction -/

/-- What `disasm_inst` has decoded before it looks for a pseudo-instruction. -/
def decodeInst (isa : RvIsa) (pc : BitVec 64) (inst : RvInst) : RvDecode :=
  decompressInst isa (decodeInstOperands (decodeInstOpcode (.init pc inst) isa))

def disasmInst (isa : RvIsa) (pc : BitVec 64) (inst : RvInst) : Bool :=
  (decodeInstLiftPseudo (decodeInst isa pc inst)).op ≠ .illegal

end IScanU.RVDisas
