import IScanU.Scanner
import Mathlib.Data.Nat.Digits.Defs

/-! # Recovery of gp and tp (`arch/RV64G/`, `arch/RV64GC/`, `src/Scanner.cpp`)

An instruction is executed with all registers cleared by `setState`, and a handler starts with what
it left, but compiled RISC-V code needs gp and tp. `entryHandler` saves them (`setRecoveryData`),
and every later handler loads them again (`recoverState`). The place is computed from the stack
pointer of the moment, in the same way in both functions and for both targets. -/

namespace IScanU

/-! ## Registers in memory -/

/-- Store a register at `addr`. -/
def storeReg (mem : Memory) (addr : Nat) (value : RegT) : Memory :=
  memcpy mem addr ((List.range 8).map fun i => (value >>> (8 * i)).setWidth 8)

/-- Load a register from `addr`. -/
def loadReg (mem : Memory) (addr : Nat) : RegT :=
  .ofNat 64 (Nat.ofDigits 256 ((readBytes mem addr 8).map (·.toNat)))

/-- The registers that the functions below access. -/
structure Registers where
  sp : RegT
  gp : RegT
  tp : RegT

/-! ## The alternate stack -/

/-- What `setAltStack` maps: 16 pages at `ssSp`. -/
structure AltStack (arch : ArchProperties) where
  ssSp : RegT
  aligned : ssSp.toNat % arch.pageSize = 0
  mapped : ssSp.toNat + 16 * arch.pageSize ≤ 2 ^ 64

section
variable {arch : ArchProperties}

/-- The size of the stack that is registered with `sigaltstack`. -/
def AltStack.ssSize (_ : AltStack arch) : Nat := 8 * arch.pageSize

/-- The end of the stack, where it starts to grow down. -/
def AltStack.top (stack : AltStack arch) : Nat := stack.ssSp.toNat + stack.ssSize

/-- The stack pointers inside the stack. -/
instance : Membership RegT (AltStack arch) :=
  ⟨fun stack sp => stack.ssSp.toNat ≤ sp.toNat ∧ sp.toNat < stack.top⟩

end

/-! ## The recovery data -/

section
variable (arch : ArchProperties)

/-- The first multiple of four pages after the stack pointer. -/
def recoveryAddress (sp : RegT) : RegT :=
  let i := sp + .ofNat 64 (4 * arch.pageSize)
  i - i % .ofNat 64 (4 * arch.pageSize)

def setRecoveryData (regs : Registers) (mem : Memory) : Memory :=
  let alignedRecoveryAddress := recoveryAddress arch regs.sp
  let mem := storeReg mem alignedRecoveryAddress.toNat regs.gp
  storeReg mem (alignedRecoveryAddress + 8#64).toNat regs.tp

def recoverState (mem : Memory) (regs : Registers) : Registers :=
  let recoveryAddress := recoveryAddress arch regs.sp
  { regs with
    gp := loadReg mem recoveryAddress.toNat
    tp := loadReg mem (recoveryAddress + 8#64).toNat }

end

namespace RV64G

def setRecoveryData : Registers → Memory → Memory := IScanU.setRecoveryData .rv64g
def recoverState : Memory → Registers → Registers := IScanU.recoverState .rv64g

end RV64G

namespace RV64GC

def setRecoveryData : Registers → Memory → Memory := IScanU.setRecoveryData .rv64gc
def recoverState : Memory → Registers → Registers := IScanU.recoverState .rv64gc

end RV64GC

end IScanU
