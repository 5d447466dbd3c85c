import IScanU.Handlers
import IScanU.Blacklist

/-! # The RV64GC target (`arch/RV64GC/`)

Instructions are 2 or 4 bytes long. `vleExhaustive` enumerates the low halves of words; a low half
that turns out to be the beginning of a longer instruction is completed with every high half.
`cs_disasm_iter` and `disasm_inst` are parameters. -/

namespace IScanU.RV64GC

def blacklist : LowMemoryBlacklist :=
  .ofList [⟨0b000100010111, 0b11111111111111111111000000000000⟩,
    ⟨0b1100011, 0b11111111111111111111111110000000⟩]

/-! ## The analysis stage -/

section
variable (csDisasmIter : List Byte → Bool) (disasmInst : InstrT → Bool)

def disassemble (data : Scanner) : Bool :=
  if data.currentInstructionSize = ArchProperties.rv64gc.instructionSizeUC then
    csDisasmIter (readBytes data.mem data.instructionPointer data.currentInstructionSize)
  else if data.currentInstructionSize = ArchProperties.rv64gc.instructionSize then
    disasmInst data.currentInstruction
  else false

/-- The fetch of the second half of the instruction faulted. -/
def fetchFaulted (data : Scanner) : Bool :=
  data.lastSigno == SIGSEGV && data.lastContext.pc == data.instructionPointer &&
    data.lastInfo.siAddr == data.instructionPointer + ArchProperties.rv64gc.instructionSize

@[simps] def basicAnalysisAndSizeCheckRiscv : AnalysisStage where
  lines data := if fetchFaulted data then []
    else (basicAnalysis (disassemble csDisasmIter disasmInst)).lines data
  sizeError data := if fetchFaulted data then true
    else (basicAnalysis (disassemble csDisasmIter disasmInst)).sizeError data

end

/-! ## The fetch stage -/

/-- `partMask`, its low and its high part. -/
def partMask : InstrT × InstrT := (0xFFFF, 0xFFFF <<< 16)

def construct (part0 part1 : InstrT) : InstrT := part0 ||| part1 <<< 16

/-- Set `currentInstructionSize`, and `instructionPointer` so that the instruction ends the page. -/
@[simps] def setSize (data : Scanner) (size : Nat) : Scanner :=
  { data with
    instructionPointer := data.instructionPage + ArchProperties.rv64gc.pageSize - size
    currentInstructionSize := size }

/-- How the loop over the high halves ends. -/
inductive HighExit
  | finished (data : Scanner)
  | found (tempInstruction : InstrT) (data : Scanner)
  /-- The last high half has been tried; the `break`. -/
  | exhausted (tempInstruction : InstrT) (data : Scanner)

/-- The first `while(!found)` of `vleExhaustive`. -/
def highLoop (search : InstrT → Bool) (part0 part1 tempInstruction : InstrT) (data : Scanner) :
    HighExit :=
  if tempInstruction = data.finalInstruction then .finished data
  else if part1 = partMask.1 then
    let data := writeStdPage .rv64gc data data.instructionPage
    .exhausted tempInstruction (setSize data ArchProperties.rv64gc.instructionSize)
  else
    let part1 := part1 + 1#32
    let tempInstruction := construct part0 part1
    let data := data.count 1
    if search tempInstruction then highLoop search part0 part1 tempInstruction data
    else .found tempInstruction data
termination_by (partMask.1 - part1).toNat
decreasing_by
  rename_i h _
  rw [Cyclic.toNat_sub_succ h]
  exact Nat.lt_succ_self _

theorem low_eq_iff (a b : InstrT) : a &&& partMask.1 = b &&& partMask.1 ↔
    a.setWidth 16 = b.setWidth 16 := by
  have hmask : ∀ x : InstrT, (x &&& partMask.1).toNat = x.toNat % 2 ^ 16 := fun x => by
    rw [BitVec.toNat_and]
    exact Nat.and_two_pow_sub_one_eq_mod x.toNat 16
  rw [← BitVec.toNat_inj, ← BitVec.toNat_inj, hmask, hmask, BitVec.toNat_setWidth,
    BitVec.toNat_setWidth]

theorem construct_zero (part0 : InstrT) : construct part0 0 = part0 := by
  simp [construct]

/-- The second `while(!found)` of `vleExhaustive`, with `part[1] = 0`. From the second pass on
`tempInstruction` is `part0`, which walks around the low halves. -/
def lowLoop (search : InstrT → Bool) (part0 tempInstruction : InstrT) (data : Scanner) :
    Option InstrT × Scanner :=
  if tempInstruction &&& partMask.1 = data.finalInstruction &&& partMask.1 then (none, data)
  else
    let part0 := part0 + 1#32
    let tempInstruction := construct part0 0
    let data := data.count 1
    if search tempInstruction then lowLoop search part0 tempInstruction data
    else (some tempInstruction, data)
termination_by (if tempInstruction.setWidth 16 = part0.setWidth 16 then 0 else 1,
  (data.finalInstruction.setWidth 16 - part0.setWidth 16).toNat)
decreasing_by
  rename_i h _
  rw [low_eq_iff] at h
  rw [construct_zero, if_pos rfl]
  split
  · rename_i hsync
    refine .right _ ?_
    rw [hsync] at h
    rw [Scanner.count_finalInstruction, BitVec.setWidth_add _ _ (by decide : 16 ≤ 32)]
    rw [Cyclic.toNat_sub_succ h]
    exact Nat.lt_succ_self _
  · exact .left _ _ Nat.zero_lt_one

def vleExhaustive (search : InstrT → Bool) : FetchStage := fun data =>
  if data.sizeError then
    let data := data.count 1
    let data := { data with sizeError := false }
    let data := setSize data ArchProperties.rv64gc.instructionSizeUC
    (some data.currentInstruction, data)
  else
    let part0 := data.currentInstruction &&& partMask.1
    let part1 := (data.currentInstruction &&& partMask.2) >>> 16
    if data.currentInstructionSize = ArchProperties.rv64gc.instructionSizeUC then
      match highLoop search part0 part1 data.currentInstruction data with
      | .finished data => (none, data)
      | .found tempInstruction data => (some tempInstruction, data)
      | .exhausted tempInstruction data => lowLoop search part0 tempInstruction data
    else lowLoop search part0 data.currentInstruction data

/-! ## The fetch stage for compressed instructions alone -/

/-- `if((tempInstruction & 0b11) == 0b11)`: pass over the beginning of a full-size instruction. -/
def skipFullSize (tempInstruction : InstrT) (data : Scanner) : InstrT × Scanner :=
  if tempInstruction &&& 0b11 = 0b11 then (tempInstruction + 1#32, data.count 1)
  else (tempInstruction, data)

/-- The `while(blacklist.search(tempInstruction))` loop of `riscvcOnlyFetch`; `none` when it has not
ended after `n` tests. -/
def riscvcOnlyLoop (search : InstrT → Bool) :
    Nat → InstrT → Scanner → Option (Option InstrT × Scanner)
  | 0, _, _ => none
  | n + 1, tempInstruction, data =>
    if search tempInstruction then
      if data.finalInstruction ≤ tempInstruction then some (none, data)
      else
        let (tempInstruction, data) := skipFullSize (tempInstruction + 1#32) (data.count 1)
        riscvcOnlyLoop search n tempInstruction data
    else some (some tempInstruction, data)

def riscvcOnlyFetch (search : InstrT → Bool) (n : Nat) (data : Scanner) :
    Option (Option InstrT × Scanner) :=
  if data.finalInstruction ≤ data.currentInstruction then some (none, data)
  else
    let (tempInstruction, data) := skipFullSize (data.currentInstruction + 1#32) data
    riscvcOnlyLoop search n tempInstruction data

/-- The scanner for instructions of both lengths. -/
@[simps] def config (csDisasmIter : List Byte → Bool) (disasmInst search : InstrT → Bool) :
    Config where
  arch := .rv64gc
  search := search
  analyse := basicAnalysisAndSizeCheckRiscv csDisasmIter disasmInst
  fetchInstruction := vleExhaustive search

end IScanU.RV64GC
