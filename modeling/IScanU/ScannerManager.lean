import IScanU.Scanner

/-! # Scanner managers (`src/ScannerManager*.cpp`)

Both constructors split the range among the threads with the same statements and differ in their
`localScannerInit`. Numbers are the machine's: `numThreads` is an `int`, the boundaries are 64 bit,
and the fields of a `Scanner` keep their low 32 bits. -/

namespace IScanU

/-- A worker's range of instructions. -/
structure WorkRange where
  start : InstrT
  final : InstrT
  ordered : start ≤ final

instance : Membership InstrT WorkRange := ⟨fun r w => r.start ≤ w ∧ w ≤ r.final⟩

theorem WorkRange.mem_iff {r : WorkRange} {w : InstrT} : w ∈ r ↔ r.start ≤ w ∧ w ≤ r.final :=
  Iff.rfl

/-- The instructions up to `final`. -/
def WorkRange.upTo (final : InstrT) : WorkRange := ⟨0, final, Nat.zero_le final.toNat⟩

/-- A scanner before its process is forked. -/
def newScanner (localScannerInit : Scanner → Scanner) (start final : InstrT) : Scanner :=
  localScannerInit { Scanner.zero with
    currentInstruction := start
    finalInstruction := final }

namespace ScannerManager

/-- The body of the constructors' loop for the remaining threads; the last of them gets `last` as
its final instruction. -/
def createWorkers (localScannerInit : Scanner → Scanner) (last instrPerThread : RegT) :
    Nat → Nat → RegT → RegT → List Scanner
  | 0, _, _, _ => []
  | remaining + 1, i, startInstruction, finalInstruction =>
    let scannerData := newScanner localScannerInit (startInstruction.setWidth 32)
      (finalInstruction.setWidth 32)
    let scannerData := { scannerData with workerID := i }
    let scannerData := if remaining = 0 then
      { scannerData with finalInstruction := last.setWidth 32 } else scannerData
    scannerData :: createWorkers localScannerInit last instrPerThread remaining (i + 1)
      (finalInstruction + 1#64) (finalInstruction + instrPerThread)

/-- The number of threads that the constructors go on with. -/
def clampThreads (numThreads : BitVec 32) (first last : RegT) : BitVec 32 :=
  if last - first < numThreads.signExtend 64 ∧ last - first > 0 then
    (last - first).setWidth 32
  else numThreads

/-- Constructor; `none` is the division by zero. -/
def create (localScannerInit : Scanner → Scanner) (numThreads : BitVec 32) (first last : RegT) :
    Option (List Scanner) :=
  let numThreads := clampThreads numThreads first last
  if numThreads.signExtend 64 = 0#64 then none
  else
    let instrPerThread := (last - first) / numThreads.signExtend 64
    some (createWorkers localScannerInit last instrPerThread numThreads.toInt.toNat 0 first
      (first + instrPerThread))

/-- The cores that `setAffinity` hands out after core `i`; `none` is the remainder by zero. -/
def setAffinityFrom (numCores : BitVec 32) : Int → List Scanner → Option (List Int)
  | _, [] => some []
  | i, _ :: threads =>
    if numCores = 0#32 then none
    else (setAffinityFrom numCores ((i + 1).tmod numCores.toInt) threads).map (i :: ·)

def setAffinity (numCores : BitVec 32) (threads : List Scanner) : Option (List Int) :=
  setAffinityFrom numCores 0 threads

end ScannerManager

namespace ScannerManagerMC

def localScannerInit (arch : ArchProperties) (data : Scanner) : Scanner :=
  { data with
    oldNumInstrExec := 0
    numInstrExec := 0
    lastPerformanceExec := 0
    isReady := false
    isStopped := false
    sizeError := false
    currentInstructionSize := arch.instructionSize }

def create (arch : ArchProperties) : BitVec 32 → RegT → RegT → Option (List Scanner) :=
  ScannerManager.create (localScannerInit arch)

end ScannerManagerMC

namespace ScannerManagerPtrace

def localScannerInit (data : Scanner) : Scanner :=
  { data with
    oldNumInstrExec := 0
    numInstrExec := 0
    lastPerformanceExec := 0
    isReady := false
    isStopped := false }

def create : BitVec 32 → RegT → RegT → Option (List Scanner) :=
  ScannerManager.create localScannerInit

end ScannerManagerPtrace

/-! ## A worker before its start signal -/

/-- A memory cage worker for `[start, final]` that waits in `pause()`, its page mapped at `page`. -/
@[simps!] def workerMC (arch : ArchProperties) (page : Nat) (start final : InstrT) : Scanner :=
  initScanner arch page (newScanner (ScannerManagerMC.localScannerInit arch) start final)

/-- A ptrace worker for `[start, final]` that waits in `pause()`, its page mapped at `page`. -/
@[simps!] def workerPtrace (page : Nat) (start final : InstrT) : Scanner :=
  initScannerPtrace page (newScanner ScannerManagerPtrace.localScannerInit start final)

end IScanU
