import Mathlib.Data.BitVec
import Mathlib.Tactic.Simps.Basic

/-! # Constants of the target architectures (`arch/*/ArchProperties.h`) -/

namespace IScanU

/-- `instr_t`: large enough to hold an instruction, 32 bits on every target. -/
abbrev InstrT := BitVec 32

/-- `reg_t`, and the `uint64_t` of the command line. -/
abbrev RegT := BitVec 64

/-- The constants of one `ArchProperties.h`. -/
structure ArchProperties where
  /-- Does the ISA have ptrace single step support? -/
  archSingleStepPtrace : Bool
  /-- Can hangs occur even when using the ptrace method? -/
  ssHang : Bool
  /-- Maximum offset of a pc relative write, 0 if not possible. -/
  maxPcRelativeWriteOffset : Nat
  variableLengthEncoding : Bool
  /-- Smallest instruction size. -/
  instructionSize : Nat
  /-- Largest instruction size. -/
  instructionSizeUC : Nat
  fillerInstructionSize : Nat
  fillerInstruction : InstrT
  pageSize : Nat

namespace ArchProperties

def aarch64 : ArchProperties where
  archSingleStepPtrace := true
  ssHang := false
  maxPcRelativeWriteOffset := 0
  variableLengthEncoding := false
  instructionSize := 4
  instructionSizeUC := 4
  fillerInstructionSize := 4
  fillerInstruction := 0x16000000
  pageSize := 4096

def rv64g : ArchProperties where
  archSingleStepPtrace := false
  ssHang := false
  maxPcRelativeWriteOffset := 0
  variableLengthEncoding := false
  instructionSize := 4
  instructionSizeUC := 4
  fillerInstructionSize := 4
  fillerInstruction := 0b10000000000000000000000001101111
  pageSize := 4096

@[simps instructionSize instructionSizeUC pageSize]
def rv64gc : ArchProperties where
  archSingleStepPtrace := false
  ssHang := false
  maxPcRelativeWriteOffset := 0
  variableLengthEncoding := true
  instructionSize := 2
  instructionSizeUC := 4
  fillerInstructionSize := 2
  fillerInstruction := 0b1001000000000010
  pageSize := 4096

/-- `MaxNumInstructions`. -/
def maxNumInstructions (arch : ArchProperties) : RegT := 1 <<< (arch.instructionSizeUC * 8)

end ArchProperties

/-- The three targets under `arch/`. -/
inductive Arch
  | aarch64
  | rv64g
  | rv64gc
deriving DecidableEq, Repr

def Arch.properties : Arch → ArchProperties
  | aarch64 => .aarch64
  | rv64g => .rv64g
  | rv64gc => .rv64gc

/-- `maxArchOffset`: maximum offset a pc relative jump can have in bytes. -/
def Arch.maxArchOffset : Arch → Nat
  | aarch64 => 128 * 1024 * 1024
  | rv64g | rv64gc => 1024 * 1024

end IScanU
