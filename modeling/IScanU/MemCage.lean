import IScanU.Handlers
import IScanU.ScannerManager

/-! # The manager and its memory cage workers (`src/Handlers.cpp`, `src/ScannerManagerMC.cpp`)

The processes of a run and the signals between them, as a step function on events that a scheduler
chooses. Every handler runs to completion, also that of an alarm (its single readings of the threads
are taken apart in `IScanU.Alarms`). What the manager has sent may be delivered at any later
time, so a SIGUSR2 can find its worker at another instruction than the alarm that triggered it, in
`pause()`, or in `stopWorker`. -/

namespace IScanU

/-- A worker process, with what the manager has sent to it. -/
structure Cell where
  range : WorkRange
  data : Scanner
  /-- The worker executes its instruction page; otherwise it waits in `pause()` or `stopWorker`. -/
  executing : Bool
  /-- The SIGUSR1 of `runScanners` has been delivered. -/
  started : Bool
  /-- A SIGUSR2 is in flight. -/
  hangPending : Bool
  /-- Ghost: the current instruction at each alarm so far. -/
  atTicks : List InstrT
  /-- Ghost: since the last alarm, or ever, the instruction may have changed without being
  counted: there was no alarm yet, or `entryHandler` or `hangHandler` has run. -/
  uncounted : Bool
  /-- Ghost: a handler has run since the last alarm that sent a SIGUSR2. -/
  late : Bool

namespace Cell

/-- A worker that waits for its start signal, its page mapped at `page`. -/
def init (arch : ArchProperties) (page : Nat) (range : WorkRange) : Cell where
  range := range
  data := workerMC arch page range.start range.final
  executing := false
  started := false
  hangPending := false
  atTicks := []
  uncounted := true
  late := true

/-- The worker after one of its handlers. -/
@[simps] def handled (c : Cell) (left : Control Scanner) : Cell :=
  { c with
    data := left.state
    executing := match left with
      | .resume _ => true
      | .halt _ => false
    late := true }

/-- The worker after an alarm that left `data` and maybe sent a SIGUSR2. -/
@[simps] def alarmed (c : Cell) (data : Scanner) (signalled : Bool) : Cell :=
  { c with
    data := data
    hangPending := c.hangPending || signalled
    atTicks := c.atTicks ++ [c.data.currentInstruction]
    uncounted := false
    late := c.late && !signalled }

end Cell

/-- What can happen to a worker. -/
inductive CellEvent
  /-- SIGUSR1 is delivered. -/
  | start
  /-- The instruction under execution raises a signal. -/
  | fault (sig : Signal)
  /-- The SIGUSR2 in flight is delivered. -/
  | deliver (sig : Signal)
  /-- A SIGUSR2 that the manager has not sent. -/
  | spurious (sig : Signal)

/-- One event of a worker; `none` if it cannot happen. -/
def Cell.step (cfg : Config) : CellEvent → Cell → Option Cell
  | .start, c =>
    if c.started then none
    else some { c.handled (entryHandler cfg c.data) with started := true, uncounted := true }
  | .fault sig, c =>
    if c.executing then some (c.handled (faultHandler cfg sig c.data)) else none
  | .deliver sig, c =>
    if c.hangPending then
      some { c.handled (hangHandler cfg sig c.data) with hangPending := false, uncounted := true }
    else none
  | .spurious sig, c => some { c.handled (hangHandler cfg sig c.data) with uncounted := true }

structure System where
  manager : Manager
  cells : List Cell
  /-- `alarmHandler` has written `finished run` and exited. -/
  finished : Bool

inductive Event
  /-- SIGALRM. -/
  | tick
  | worker (i : Nat) (e : CellEvent)

namespace System

/-- The manager that `ScannerManagerMC` sets up, and its workers, each with its page. -/
def init (arch : ArchProperties) (workers : List (Nat × WorkRange)) : System where
  manager :=
    { performanceLogCount := 0
      performanceLogSlowFactor := 10
      checkForHang := true
      managerFD := []
      performanceLogFD := [] }
  cells := workers.map fun w => .init arch w.1 w.2
  finished := false

/-- `alarmHandler`, and the signals it sends. -/
def tick (s : System) : System :=
  let alarm := alarmHandler s.manager (s.cells.map (·.data))
  { manager := alarm.manager
    cells := (s.cells.zip (alarm.threads.zip alarm.signalled)).map fun (c, data, signalled) =>
      c.alarmed data signalled
    finished := alarm.finished }

def step (cfg : Config) : Event → System → Option System
  | .tick, s => if s.finished then none else some s.tick
  | .worker i e, s =>
    (s.cells[i]?).bind fun c => (c.step cfg e).map fun c' => { s with cells := s.cells.set i c' }

theorem tick_cells (s : System) :
    s.tick.cells = s.cells.map fun c => c.alarmed (s.manager.visit c.data) (s.manager.suspects c.data) := by
  have hzip : ∀ l : List Cell, l.zip ((l.map fun c => s.manager.visit c.data).zip
      (l.map fun c => s.manager.suspects c.data)) =
      l.map fun c => (c, s.manager.visit c.data, s.manager.suspects c.data) := by
    intro l
    induction l with
    | nil => rfl
    | cons c l ih => simp [ih]
  simp [tick, alarmHandler, Function.comp_def, hzip]

end System

end IScanU
