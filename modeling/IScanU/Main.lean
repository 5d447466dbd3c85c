import IScanU.ScannerManager

/-! # The command line (`src/main.cpp`)

Arguments of options are the 64-bit numbers that `strtoull` returns; `int` variables keep their
low 32 bits. -/

namespace IScanU

inductive Method
  | memcage
  | ptrace
  | kernelmod
deriving DecidableEq, Repr

/-- What the function pointer `analyse` is set to. -/
inductive Analyse
  | basicAnalysis
  | insnAnalysis
deriving DecidableEq, Repr

/-- The options `getopt` can return. -/
inductive Opt
  | j (arg : RegT)
  | b (arg : RegT)
  | e (arg : RegT)
  | a (arg : RegT)
  | m
  | p
  | k
  | i
  | d
deriving DecidableEq, Repr

/-- The variables of `main` that options set. -/
structure Settings where
  numThreads : BitVec 32
  numCores : BitVec 32
  setAffinity : Bool
  firstInstruction : RegT
  lastInstruction : RegT
  method : Method
  analyse : Analyse
  debugMode : Bool
deriving DecidableEq

def maxThreadsMemcage : BitVec 32 := 96

/-- The highest instruction of a target, which is what `lastInstruction` starts from. -/
def ArchProperties.lastInstruction (arch : ArchProperties) : RegT :=
  if arch.variableLengthEncoding then 1 <<< (arch.instructionSize * 8) - 1
  else arch.maxNumInstructions - 1

/-- The variables before the first option. -/
def Settings.initial (arch : ArchProperties) : Settings where
  numThreads := 1
  numCores := 1
  setAffinity := false
  firstInstruction := 0
  lastInstruction := arch.lastInstruction
  method := .memcage
  analyse := .basicAnalysis
  debugMode := false

/-- One pass through the `while` over `getopt`; `none` is `exit(-1)`. -/
def parseOption (arch : ArchProperties) (s : Settings) : Opt → Option Settings
  | .j arg => some { s with numThreads := if arg < 1 then 1 else arg.setWidth 32 }
  | .b arg => some (if arg ≤ s.lastInstruction then { s with firstInstruction := arg } else s)
  | .e arg => some (if arg ≤ s.lastInstruction ∧ arg ≥ s.firstInstruction then
      { s with lastInstruction := arg } else s)
  | .a arg => some { s with numCores := arg.setWidth 32, setAffinity := true }
  | .m => some { s with method := .memcage }
  | .p => if arch.archSingleStepPtrace then some { s with method := .ptrace } else none
  | .k => some { s with method := .kernelmod }
  | .i => some { s with analyse := .insnAnalysis }
  | .d => some { s with debugMode := true }

def parseOptions (arch : ArchProperties) (opts : List Opt) : Option Settings :=
  opts.foldlM (parseOption arch) (.initial arch)

/-- The number of threads that reaches the constructor. -/
def Settings.threads (s : Settings) : BitVec 32 :=
  match s.method with
  | .memcage => if s.numThreads.toInt > maxThreadsMemcage.toInt then maxThreadsMemcage else s.numThreads
  | .ptrace | .kernelmod => s.numThreads

/-- The `switch` over `method`; `none` is the division by zero. -/
def createManager (arch : ArchProperties) (s : Settings) : Option (List Scanner) :=
  match s.method with
  | .memcage | .kernelmod =>
    ScannerManagerMC.create arch s.threads s.firstInstruction s.lastInstruction
  | .ptrace => ScannerManagerPtrace.create s.threads s.firstInstruction s.lastInstruction

/-- `if(setAffinity)`: the cores of the threads, none if the option was not given; `none` is the
remainder by zero. -/
def affinity (s : Settings) (threads : List Scanner) : Option (List Int) :=
  if s.setAffinity then ScannerManager.setAffinity s.numCores threads else some []

end IScanU
