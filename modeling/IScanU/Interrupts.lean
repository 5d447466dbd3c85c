import IScanU.Handlers
import IScanU.ScannerManager

/-! # A worker whose handlers are interrupted (`src/Handlers.cpp`, `src/Utility.cpp`)

`registerHandlers` installs the handlers with an empty `sa_mask`: a handler blocks its own signal
and no other, so a SIGUSR2 can be delivered between any two statements of `entryHandler`,
`faultHandler` and `stopWorker`. `hangHandler` then abandons what it interrupts: it returns to the
instruction page, and what the abandoned handler blocks stays blocked, so that a later fault with
that signal kills the worker. The functions that the statements call are single steps, but for
`analyse`, which has a call and a return; `hangHandler` is one, too. -/

namespace IScanU

/-- Where a worker is: what it does next. -/
inductive Point
  /-- `entryHandler` has been called. -/
  | entering
  /-- The start line is written. -/
  | announcing
  /-- The blacklist is searched for the first instruction. -/
  | screening
  /-- The next instruction is fetched into `currentInstruction`. -/
  | replacing
  /-- The test of `finished` in `entryHandler`. -/
  | replaced (finished : Bool)
  /-- The `writeInstruction` of `entryHandler`. -/
  | placing
  /-- The instruction page is executed. -/
  | executing
  /-- `faultHandler` has been called. -/
  | recording (sig : Signal)
  /-- The assignment to `lastInfo`. -/
  | informing (sig : Signal)
  /-- The assignment to `lastContext`. -/
  | situating (sig : Signal)
  /-- `analyse` is called. -/
  | analysing
  /-- `analyse` returns, with these lines written and this flag set. -/
  | concluding (lines : List String) (sizeError : Bool)
  | fetching
  /-- `fetchInstruction` has returned. -/
  | counting (fetched : Option InstrT)
  /-- The test of `finished`. -/
  | testing (fetched : Option InstrT)
  | restoring (nextInstruction : InstrT)
  | writing (nextInstruction : InstrT)
  /-- The assignment to `currentInstruction`. -/
  | updating (nextInstruction : InstrT)
  | returning
  /-- `stopWorker` has been called; the current instruction has been analysed or not. -/
  | stopping (analysed : Bool)
  /-- `stopWorker` has set `isStopped`. -/
  | reporting
  /-- The end line is written. -/
  | ending
  /-- The wait at the end of `stopWorker`. -/
  | waiting
  /-- A blocked signal has been raised. -/
  | killed

/-- The next statement of the worker; `none` where it waits for a signal. -/
def Point.next (cfg : Config) : Point → Scanner → Option (Point × Scanner)
  | .entering, data => some (.announcing, writeOutput data [.timestamp])
  | .announcing, data => some (.screening, writeOutput data [.startOfRun])
  | .screening, data =>
    some (if cfg.search data.currentInstruction then .replacing else .placing, data)
  | .replacing, data =>
    match cfg.fetchInstruction data with
    | (none, data) => some (.replaced true, data)
    | (some nextInstruction, data) => some (.replaced false, data.setCurrent nextInstruction)
  | .replaced finished, data => some (if finished then .stopping false else .placing, data)
  | .placing, data => some (.returning, enterInstruction data)
  | .executing, _ => none
  | .recording sig, data => some (.informing sig, { data with lastSigno := sig.signo })
  | .informing sig, data => some (.situating sig, { data with lastInfo := sig.info })
  | .situating sig, data => some (.analysing, { data with lastContext := sig.context })
  | .analysing, data =>
    some (.concluding (cfg.analyse.lines data) (cfg.analyse.sizeError data),
      { data with analysed := data.analysed ++ [data.currentInstruction] })
  | .concluding lines sizeError, data =>
    some (.fetching,
      { data with outputFD := data.outputFD ++ lines.map .analysis, sizeError := sizeError })
  | .fetching, data =>
    let (fetched, data) := cfg.fetchInstruction data
    some (.counting fetched, data)
  | .counting fetched, data => some (.testing fetched, data.count 1)
  | .testing none, data => some (.stopping true, data)
  | .testing (some nextInstruction), data => some (.restoring nextInstruction, data)
  | .restoring nextInstruction, data => some (.writing nextInstruction, restorePage cfg data)
  | .writing nextInstruction, data =>
    some (.updating nextInstruction, writeInstruction data data.instructionPointer nextInstruction)
  | .updating nextInstruction, data => some (.returning, data.setCurrent nextInstruction)
  | .returning, data => some (.executing, data)
  | .stopping _, data => some (.reporting, { data with isStopped := true })
  | .reporting, data => some (.ending, writeOutput data [.timestamp])
  | .ending, data => some (.waiting, writeOutput data [.endOfRun])
  | .waiting, _ | .killed, _ => none

/-- At most `n` statements without a signal. -/
def Point.run (cfg : Config) : Nat → Point × Scanner → Point × Scanner
  | 0, c => c
  | n + 1, c =>
    match c.1.next cfg c.2 with
    | some c' => run cfg n c'
    | none => c

/-- The signals that are blocked after the next statement: the return from a handler takes back what
its signal has added. -/
def Point.unmask : Point → List Int → List Int
  | .returning, mask => mask.tail
  | _, mask => mask

/-- The worker takes signals. -/
def Point.alive : Point → Bool
  | .killed => false
  | _ => true

/-- The manager and one worker. -/
structure Interleaving where
  manager : Manager
  data : Scanner
  point : Point
  /-- The signals whose handlers have not returned: these are blocked. -/
  mask : List Int
  /-- A SIGUSR2 is in flight. -/
  hangPending : Bool
  /-- `alarmHandler` has written `finished run` and exited. -/
  finished : Bool

inductive Interrupt
  /-- The worker goes on. -/
  | statement
  /-- The instruction under execution raises a signal. -/
  | fault (sig : Signal)
  /-- SIGALRM in the manager. -/
  | tick
  /-- The SIGUSR2 in flight is delivered. -/
  | deliver (sig : Signal)

namespace Interleaving

/-- The manager has started a worker for the range. -/
def init (arch : ArchProperties) (page : Nat) (r : WorkRange) : Interleaving where
  manager :=
    { performanceLogCount := 0
      performanceLogSlowFactor := 10
      checkForHang := true
      managerFD := []
      performanceLogFD := [] }
  data := workerMC arch page r.start r.final
  point := .entering
  mask := [SIGUSR1]
  hangPending := false
  finished := false

/-- The worker after its `hangHandler`. The mask is that of what was interrupted, unless the handler
does not return. -/
def hung (s : Interleaving) : Control Scanner → Interleaving
  | .resume data => { s with data := data, point := .executing, hangPending := false }
  | .halt data =>
    { s with data := data, point := .waiting, mask := SIGUSR2 :: s.mask, hangPending := false }

def step (cfg : Config) : Interrupt → Interleaving → Option Interleaving
  | .statement, s =>
    (s.point.next cfg s.data).map fun (point, data) =>
      { s with point := point, data := data, mask := s.point.unmask s.mask }
  | .fault sig, s =>
    match s.point with
    | .executing =>
      if sig.signo ∈ s.mask then some { s with point := .killed }
      else some { s with point := .recording sig, mask := sig.signo :: s.mask }
    | _ => none
  | .tick, s =>
    if s.finished then none
    else
      let alarm := alarmHandler s.manager [s.data]
      some { s with
        manager := alarm.manager
        data := s.manager.visit s.data
        hangPending := s.hangPending || s.manager.suspects s.data
        finished := alarm.finished }
  | .deliver sig, s =>
    if s.hangPending ∧ SIGUSR2 ∉ s.mask ∧ s.point.alive then
      some (s.hung (hangHandler cfg sig s.data))
    else none

end Interleaving

end IScanU
