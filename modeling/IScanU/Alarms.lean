import IScanU.MemCage

/-! # The manager beside its workers (`alarmHandler` of `src/Handlers.cpp`)

The workers do not wait for `alarmHandler`. Here it takes one reading of their data after the other,
and they may go on in between. For a performance log it reads the counter of a thread twice, for the
line and for `lastPerformanceExec`; to find hangs it reads it once more. -/

namespace IScanU

/-- What the manager does next. -/
inductive AlarmPoint
  /-- It waits for SIGALRM, or has exited. -/
  | waiting
  /-- The loop of the performance log, with what has been read of the threads so far: the test of
  `isStopped`, or the writing of the log. -/
  | testing (seen : List Scanner)
  /-- `temp` is computed. -/
  | reading (seen : List Scanner)
  /-- The assignment to `lastPerformanceExec`, after `thread` has been read. -/
  | storing (seen : List Scanner) (thread : Scanner)
  /-- The two assignments to `performanceLogCount`. -/
  | pacing
  /-- The second loop, at the thread `i`: `isStopped` is tested for `finished`. -/
  | checking (i : Nat) (finished : Bool)
  /-- `currentExecuted` is read. -/
  | sampling (i : Nat) (finished : Bool)
  /-- The test for a hang, and the assignment to `oldNumInstrExec`. -/
  | comparing (i : Nat) (finished : Bool) (currentExecuted : Nat)

/-- The processes of a run, with the manager somewhere in `alarmHandler`. -/
structure Supervision where
  system : System
  point : AlarmPoint
  /-- Ghost: the alarms so far. -/
  alarms : Nat
  /-- Ghost: what threads have counted between the two readings of a log. -/
  missed : Nat
  /-- Ghost: the sum of what the log under way has stored. -/
  stored : Nat
  /-- Ghost: what each log has read for its lines, and the sum of what it has stored. -/
  logs : List (List Scanner × Nat)

/-- What happens next. -/
inductive Turn
  /-- The manager goes on, or receives SIGALRM. -/
  | manager
  | worker (i : Nat) (e : CellEvent)

namespace Supervision

def init (arch : ArchProperties) (workers : List (Nat × WorkRange)) : Supervision where
  system := .init arch workers
  point := .waiting
  alarms := 0
  missed := 0
  stored := 0
  logs := []

/-- The log is written. -/
@[simps] def writeLog (s : Supervision) (seen : List Scanner) : Supervision :=
  let m := s.system.manager
  { s with
    system := { s.system with
      manager := { m with performanceLogFD := m.performanceLogFD ++ [performanceLog seen] } }
    point := .pacing
    stored := 0
    logs := s.logs ++ [(seen, s.stored)] }

/-- The second reading of a counter, of the next thread `c` after `seen`. -/
@[simps] def store (s : Supervision) (seen : List Scanner) (thread : Scanner) (c : Cell) :
    Supervision :=
  let data := { c.data with lastPerformanceExec := c.data.numInstrExec }
  { s with
    system := { s.system with cells := s.system.cells.set seen.length { c with data := data } }
    point := .testing (seen ++ [thread])
    missed := s.missed + (c.data.numInstrExec - thread.numInstrExec)
    stored := s.stored + c.data.numInstrExec }

@[simps] def pace (s : Supervision) : Supervision :=
  let m := s.system.manager
  { s with
    system := { s.system with
      manager := { m with
        performanceLogCount := (m.performanceLogCount + 1).tmod m.performanceLogSlowFactor } }
    point := .checking 0 true
    alarms := s.alarms + 1 }

/-- The test of the thread `c` for a hang. -/
@[simps] def compare (s : Supervision) (i : Nat) (finished : Bool) (currentExecuted : Nat)
    (c : Cell) : Supervision :=
  let signalled := s.system.manager.checkForHang && currentExecuted == c.data.oldNumInstrExec &&
    !c.data.isStopped
  let data := { c.data with oldNumInstrExec := currentExecuted }
  { s with
    system := { s.system with cells := s.system.cells.set i (c.alarmed data signalled) }
    point := .checking (i + 1) finished }

/-- The end of the handler. -/
@[simps] def conclude (s : Supervision) (finished : Bool) : Supervision :=
  let m := s.system.manager
  { s with
    system := { s.system with
      manager := { m with
        managerFD := if finished then m.managerFD ++ ["finished run\n"] else m.managerFD }
      finished := finished }
    point := .waiting }

/-- The next step of the manager. -/
def manage (s : Supervision) : Option Supervision :=
  match s.point with
  | .waiting =>
    if s.system.finished then none
    else if s.system.manager.logDue then some { s with point := .testing [] }
    else some { s with point := .pacing }
  | .testing seen =>
    match s.system.cells[seen.length]? with
    | some c =>
      some { s with
        point := if c.data.isStopped then .testing (seen ++ [c.data]) else .reading seen }
    | none => some (s.writeLog seen)
  | .reading seen =>
    -- The thread may have stopped since the test.
    (s.system.cells[seen.length]?).map fun c =>
      { s with point := .storing seen { c.data with isStopped := false } }
  | .storing seen thread => (s.system.cells[seen.length]?).map (s.store seen thread)
  | .pacing => some s.pace
  | .checking i finished =>
    match s.system.cells[i]? with
    | some c => some { s with point := .sampling i (finished && c.data.isStopped) }
    | none => some (s.conclude finished)
  | .sampling i finished =>
    (s.system.cells[i]?).map fun c => { s with point := .comparing i finished c.data.numInstrExec }
  | .comparing i finished currentExecuted =>
    (s.system.cells[i]?).map (s.compare i finished currentExecuted)

def step (cfg : Config) : Turn → Supervision → Option Supervision
  | .manager, s => s.manage
  | .worker i e, s =>
    (s.system.step cfg (.worker i e)).map fun system => { s with system := system }

end Supervision

end IScanU
