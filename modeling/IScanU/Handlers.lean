import IScanU.Analyser
import IScanU.Feeder
import IScanU.Theory.Machine

/-! # Signal handlers and the ptrace loop (`src/Handlers.cpp`, `src/Scanner.cpp`)

A handler of a worker ends in one of two ways: it returns to the instruction page with the program
counter at `instructionPointer` and all registers cleared (`Control.resume`), or it waits for ever
in `stopWorker` (`Control.halt`). -/

namespace IScanU

/-- A build of the scanner: the target, `blacklist.search` and the two stages set in `main`. -/
structure Config where
  arch : ArchProperties
  search : InstrT → Bool
  analyse : AnalysisStage
  fetchInstruction : FetchStage

/-- The stages `main` sets by default, with any analysis stage. -/
@[simps] def Config.exhaustive (arch : ArchProperties) (search : InstrT → Bool)
    (analyse : AnalysisStage) : Config where
  arch := arch
  search := search
  analyse := analyse
  fetchInstruction := IScanU.exhaustive search

/-- AArch64 with nothing blacklisted and a disassembler that accepts everything. -/
def Config.plain : Config := .exhaustive .aarch64 (fun _ => false) (basicAnalysis fun _ => true)

/-! ## Memory cage handlers -/

/-- Put the current instruction where it is executed. -/
@[simps!] def enterInstruction (data : Scanner) : Scanner :=
  writeInstruction data data.instructionPointer data.currentInstruction

section
variable (cfg : Config)

/-- `if(maxPcRelativeWriteOffset) writeStdPage(...)`. -/
@[simps] def restorePage (data : Scanner) : Scanner :=
  { data with
    mem := if cfg.arch.maxPcRelativeWriteOffset ≠ 0 then
        (writeStdPage cfg.arch data data.instructionPage).mem
      else data.mem }

/-- Executes main scanning loop in the memcage method. -/
def faultHandler (sig : Signal) (data : Scanner) : Control Scanner :=
  let data := recordSignal data sig
  let data := cfg.analyse.call data
  let (fetched, data) := cfg.fetchInstruction data
  let data := data.count 1
  match fetched with
  | none => .halt (stopWorker data)
  | some nextInstruction =>
    let data := restorePage cfg data
    let data := writeInstruction data data.instructionPointer nextInstruction
    .resume (data.setCurrent nextInstruction)

/-- Stores good state for scanner loop and starts scanner loop. -/
def entryHandler (data : Scanner) : Control Scanner :=
  let data := writeOutput data [.timestamp, .startOfRun]
  if cfg.search data.currentInstruction then
    match cfg.fetchInstruction data with
    | (none, data) => .halt (stopWorker data)
    | (some nextInstruction, data) =>
      .resume (enterInstruction (data.setCurrent nextInstruction))
  else
    .resume (enterInstruction data)

/-- Executed when scanner gets stuck, forces move to next instruction. -/
def hangHandler (sig : Signal) (data : Scanner) : Control Scanner :=
  let data := writeHang data
  let data := recordSignal data { sig with signo := SIGSEGV }
  let data := cfg.analyse.call data
  let data := writeStdPage cfg.arch data data.instructionPage
  match cfg.fetchInstruction data with
  | (none, data) => .halt (stopWorker data)
  | (some nextInstruction, data) =>
    .resume (enterInstruction (data.setCurrent nextInstruction))

/-! ## Ptrace -/

/-- From the return of `pause()` to the `while` of `ptraceLoop`. -/
def ptraceEntry (data : Scanner) : Control Scanner :=
  let data := writeOutput data [.timestamp, .startOfRun]
  if cfg.search data.currentInstruction then
    match cfg.fetchInstruction data with
    | (none, data) => .halt (stopWorker data)
    | (some nextInstruction, data) =>
      .resume (data.setCurrent nextInstruction)
  else
    .resume data

/-- The `memcpy` of `ptraceLoop`, of `instructionSize` bytes. -/
@[simps] def writeInstructionPtrace (data : Scanner) : Scanner :=
  { data with
    mem := memcpy data.mem data.instructionPointer
      (instrBytes data.currentInstruction cfg.arch.instructionSize) }

/-- One pass through the `while` of `ptraceLoop`; `sig` is what the single-stepped instruction
raised. The exit of the loop writes the same lines and flag as `stopWorker`. -/
def ptraceStep (sig : Signal) (data : Scanner) : Control Scanner :=
  let data := writeInstructionPtrace cfg data
  let data := recordSignal data sig
  let data := cfg.analyse.call data
  let data := data.count 1
  match cfg.fetchInstruction data with
  | (none, data) => .halt (stopWorker data)
  | (some nextInstruction, data) =>
    .resume (data.setCurrent nextInstruction)

/-- `ptraceLoop`, at most `n` passes, when the oracle says what each instruction raises. -/
def ptraceLoop (oracle : InstrT → Signal) (n : Nat) (data : Scanner) : Control Scanner :=
  .run (fun data => ptraceStep cfg (oracle data.currentInstruction) data) n (ptraceEntry cfg data)

/-! ## A memory cage worker left to itself -/

/-- What becomes of an instruction on the instruction page. -/
inductive Outcome
  /-- It raises a signal. -/
  | fault (sig : Signal)
  /-- It does not come back, and the manager's SIGUSR2 arrives. -/
  | hang (sig : Signal)

def workerStep (outcome : Outcome) (data : Scanner) : Control Scanner :=
  match outcome with
  | .fault sig => faultHandler cfg sig data
  | .hang sig => hangHandler cfg sig data

/-- A worker whose instructions come out as the oracle says: `entryHandler`, then at most `n`
handlers. -/
def workerLoop (oracle : InstrT → Outcome) (n : Nat) (data : Scanner) : Control Scanner :=
  .run (fun data => workerStep cfg (oracle data.currentInstruction) data) n (entryHandler cfg data)

end

/-! ## The manager -/

/-- The globals of `ScannerManager.cpp` that `alarmHandler` works on. -/
structure Manager where
  performanceLogCount : Int
  performanceLogSlowFactor : Int
  checkForHang : Bool
  managerFD : List String
  performanceLogFD : List String

/-- Conversion to `int`. -/
def toInt32 (n : Int) : Int := n.bmod (2 ^ 32)

/-- The instructions a thread executed since the last performance log. -/
def executedSinceLog (thread : Scanner) : Int :=
  toInt32 (thread.numInstrExec - thread.lastPerformanceExec)

/-- The text of a performance log over the threads that are still running. -/
def performanceLog (threads : List Scanner) : String :=
  let running := threads.filter (!·.isStopped)
  let insn := running.foldl (fun insn thread => toInt32 (insn + executedSinceLog thread)) 0
  "===== start of performance log =====\n" ++
    String.join (running.map fun thread =>
      "thread " ++ toString thread.workerID ++ ": " ++ toString (executedSinceLog thread) ++ "\n") ++
    "Total: " ++ toString insn ++ "\n"

/-- Is the performance log due at this alarm? -/
def Manager.logDue (m : Manager) : Bool :=
  m.performanceLogCount == m.performanceLogSlowFactor - 1

/-- Is the thread taken to hang? -/
def Manager.suspects (m : Manager) (thread : Scanner) : Bool :=
  m.checkForHang && thread.numInstrExec == thread.oldNumInstrExec && !thread.isStopped

/-- What an alarm does to the data of one thread, if its counter is the same at every reading. -/
def Manager.visit (m : Manager) (thread : Scanner) : Scanner :=
  let thread := if m.logDue && !thread.isStopped then
    { thread with lastPerformanceExec := thread.numInstrExec } else thread
  { thread with oldNumInstrExec := thread.numInstrExec }

/-- What an alarm leaves: the threads' data, the threads it sends SIGUSR2 to, and whether it ends
the run. -/
structure Alarm where
  manager : Manager
  threads : List Scanner
  signalled : List Bool
  finished : Bool

/-- Handler executes manager tasks: logs performance, checks for hangs. The threads wait for it. -/
def alarmHandler (m : Manager) (threads : List Scanner) : Alarm :=
  let performanceLogFD :=
    if m.logDue then m.performanceLogFD ++ [performanceLog threads] else m.performanceLogFD
  let finished := threads.all (·.isStopped)
  { manager := { m with
      performanceLogCount := (m.performanceLogCount + 1).tmod m.performanceLogSlowFactor
      performanceLogFD := performanceLogFD
      managerFD := if finished then m.managerFD ++ ["finished run\n"] else m.managerFD }
    threads := threads.map m.visit
    signalled := threads.map m.suspects
    finished := finished }

end IScanU
