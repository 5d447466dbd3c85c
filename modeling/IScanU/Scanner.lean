import IScanU.ArchProperties
import Mathlib.Tactic.Simps.Basic

/-! # The state of a scanner unit (`include/Scanner.h`, `src/Scanner.cpp`, `src/Utility.cpp`)

A `Scanner` holds the fields of the C++ struct that some modelled function reads, together with
what the worker's process owns: its memory and what it has written through its two file
descriptors. `analysed` is a ghost field: the instructions handed to the analysis stage so far. -/

namespace IScanU

/-! ## Memory -/

abbrev Byte := BitVec 8
/-- Addresses are plain numbers: no mapping of a process reaches the end of the address space. -/
structure Memory where
  byte : Nat → Byte

/-- The `n` low bytes of an instruction in memory order. Both families of targets are little
endian. -/
def instrBytes (instr : InstrT) (n : Nat) : List Byte :=
  (List.range n).map fun i => (instr >>> (8 * i)).setWidth 8

def memcpy (mem : Memory) (dst : Nat) (src : List Byte) : Memory where
  byte a := if h : dst ≤ a ∧ a < dst + src.length then src.get ⟨a - dst, by omega⟩ else mem.byte a

/-- The buffer of `n` bytes at `addr`. -/
def readBytes (mem : Memory) (addr : Nat) (n : Nat) : List Byte :=
  (List.range n).map fun i => mem.byte (addr + i)

@[simp] theorem length_instrBytes (instr : InstrT) (n : Nat) : (instrBytes instr n).length = n := by
  simp [instrBytes]

@[simp] theorem length_readBytes (mem : Memory) (addr : Nat) (n : Nat) :
    (readBytes mem addr n).length = n := by
  simp [readBytes]

/-- What was just copied in is read back. -/
theorem readBytes_memcpy (mem : Memory) (addr : Nat) (src : List Byte) :
    readBytes (memcpy mem addr src) addr src.length = src := by
  apply List.ext_getElem (by simp)
  intro i h1 h2
  simp [readBytes, memcpy, h2]

theorem memcpy_of_not_mem {mem : Memory} {dst a : Nat} {src : List Byte}
    (h : ¬(dst ≤ a ∧ a < dst + src.length)) : (memcpy mem dst src).byte a = mem.byte a := dif_neg h

/-- The beginning of a buffer. -/
theorem readBytes_take (mem : Memory) (addr : Nat) {m n : Nat} (h : m ≤ n) :
    (readBytes mem addr n).take m = readBytes mem addr m := by
  rw [readBytes, ← List.map_take, List.take_range, Nat.min_eq_left h, readBytes]

/-- Reading depends on the bytes of the buffer alone. -/
theorem readBytes_congr {mem mem' : Memory} {addr n : Nat}
    (h : ∀ a, addr ≤ a → a < addr + n → mem'.byte a = mem.byte a) :
    readBytes mem' addr n = readBytes mem addr n := by
  refine List.map_congr_left fun i hi => h _ (Nat.le_add_right ..) ?_
  exact Nat.add_lt_add_left (List.mem_range.1 hi) addr

/-- `ScannerManagerMC::initStdPage`: the filler instruction over a whole page. -/
def stdPage (arch : ArchProperties) : List Byte :=
  (List.replicate (arch.pageSize / arch.fillerInstructionSize)
    (instrBytes arch.fillerInstruction arch.fillerInstructionSize)).flatten

/-! ## Signals -/

def SIGILL : Int := 4
def SIGUSR1 : Int := 10
def SIGSEGV : Int := 11
def SIGUSR2 : Int := 12
def ILL_ILLOPC : Int := 1

/-- The part of `siginfo_t` the analysis stages look at. -/
structure SigInfo where
  siCode : Int
  siAddr : Nat
deriving DecidableEq, Repr, Inhabited

/-- The part of the saved `ucontext_t` the analysis stages look at. -/
structure Context where
  pc : Nat
deriving DecidableEq, Repr, Inhabited

/-- The arguments of a signal handler. -/
structure Signal where
  signo : Int
  info : SigInfo
  context : Context
deriving DecidableEq, Repr, Inhabited

/-! ## Scanner -/

/-- A line written through `outputFD`. The value of a time stamp is not modelled. -/
inductive OutputLine
  | timestamp
  | startOfRun
  | endOfRun
  /-- A line of the analysis stage. -/
  | analysis (text : String)
deriving DecidableEq, Repr

/-- Contains all state related to a scanner unit. -/
structure Scanner where
  isReady : Bool
  isStopped : Bool
  workerID : Int
  instructionPage : Nat
  instructionPointer : Nat
  currentInstruction : InstrT
  finalInstruction : InstrT
  currentInstructionSize : Nat
  sizeError : Bool
  oldNumInstrExec : Nat
  numInstrExec : Nat
  lastPerformanceExec : Nat
  lastSigno : Int
  lastInfo : SigInfo
  lastContext : Context
  outputFD : List OutputLine
  /-- The instructions of the `HANG` lines written through `hangOutputFD`. -/
  hangOutputFD : List InstrT
  mem : Memory
  analysed : List InstrT

/-- A scanner in freshly mapped anonymous memory. -/
def Scanner.zero : Scanner where
  isReady := false
  isStopped := false
  workerID := 0
  instructionPage := 0
  instructionPointer := 0
  currentInstruction := 0
  finalInstruction := 0
  currentInstructionSize := 0
  sizeError := false
  oldNumInstrExec := 0
  numInstrExec := 0
  lastPerformanceExec := 0
  lastSigno := 0
  lastInfo := default
  lastContext := default
  outputFD := []
  hangOutputFD := []
  mem := ⟨fun _ => 0⟩
  analysed := []

/-- `data->numInstrExec += n`. -/
@[simps] def Scanner.count (data : Scanner) (n : Nat) : Scanner :=
  { data with numInstrExec := data.numInstrExec + n }

@[simp] theorem Scanner.count_zero (data : Scanner) : data.count 0 = data := rfl

@[simp] theorem Scanner.count_count (data : Scanner) (n m : Nat) :
    (data.count n).count m = data.count (n + m) := by
  simp [Scanner.count, Nat.add_assoc]

/-- `data->currentInstruction = instr`. -/
@[simps] def Scanner.setCurrent (data : Scanner) (instr : InstrT) : Scanner :=
  { data with currentInstruction := instr }

@[simps] def recordSignal (data : Scanner) (sig : Signal) : Scanner :=
  { data with lastSigno := sig.signo, lastInfo := sig.info, lastContext := sig.context }

@[simps] def writeOutput (data : Scanner) (lines : List OutputLine) : Scanner :=
  { data with outputFD := data.outputFD ++ lines }

/-- Write the line `HANG <currentInstruction>`. -/
@[simps] def writeHang (data : Scanner) : Scanner :=
  { data with hangOutputFD := data.hangOutputFD ++ [data.currentInstruction] }

/-- Write the low `currentInstructionSize` bytes of the instruction to `addr`. -/
@[simps] def writeInstruction (data : Scanner) (addr : Nat) (instr : InstrT) : Scanner :=
  { data with mem := memcpy data.mem addr (instrBytes instr data.currentInstructionSize) }

@[simps] def writeStdPage (arch : ArchProperties) (data : Scanner) (addr : Nat) : Scanner :=
  { data with mem := memcpy data.mem addr (stdPage arch) }

/-- The visible part of `stopWorker`; the wait that follows never ends. -/
@[simps!] def stopWorker (data : Scanner) : Scanner :=
  writeOutput { data with isStopped := true } [.timestamp, .endOfRun]

/-- The size of what `initScanner` maps: the instruction page and the guards around it. -/
def cageSize (arch : Arch) : Nat := 2 * arch.maxArchOffset + arch.properties.pageSize

/-- The instruction page in a mapping that begins at `mapped`. -/
def cagePage (arch : Arch) (mapped : Nat) : Nat := mapped + arch.maxArchOffset

/-- `initScanner` up to its `pause()`, with the instruction page mapped at `page`. -/
def initScanner (arch : ArchProperties) (page : Nat) (data : Scanner) : Scanner :=
  let data := writeStdPage arch data page
  { data with
    instructionPage := page
    instructionPointer := page + arch.pageSize - data.currentInstructionSize
    isReady := true }

/-- `initScannerPtrace` up to its `pause()`, with the instruction page mapped at `page`. -/
def initScannerPtrace (page : Nat) (data : Scanner) : Scanner :=
  { data with
    instructionPointer := page
    isReady := true }

end IScanU
