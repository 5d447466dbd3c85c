import IScanU.Handlers

/-! # The AArch64 target (`arch/aarch64/ArchFunctions.cpp`)

`cs_disasm_iter` is a parameter: whether Capstone finds an instruction at the start of a buffer. -/

namespace IScanU.Aarch64

def disassemble (csDisasmIter : List Byte → Bool) (data : Scanner) : Bool :=
  csDisasmIter (readBytes data.mem data.instructionPointer data.currentInstructionSize)

/-- The scanner that `main` starts when no stage is changed. -/
def config (csDisasmIter : List Byte → Bool) (search : InstrT → Bool) : Config :=
  .exhaustive .aarch64 search (basicAnalysis (disassemble csDisasmIter))

end IScanU.Aarch64
