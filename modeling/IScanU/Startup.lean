import IScanU.Handlers
import IScanU.Main

/-! # The start of a run (`src/ScannerManager*.cpp`, `src/Scanner.cpp`, `src/Handlers.cpp`)

`runScanners` is the same in both managers: it waits until every worker has set `isReady` and then
sends each of them a SIGUSR1. A worker sets `isReady` and calls `pause()` in two steps. The signal
may be delivered at any time after it was sent, and what the handler does that `registerHandlers`
installs for it depends on the method. -/

namespace IScanU

/-- How far a worker is with its start-up. -/
inductive StartPoint
  | initialising
  /-- `isReady` is set, `pause()` has not been called. -/
  | ready
  /-- In `pause()`. -/
  | pausing
  /-- The scan has been entered. -/
  | started
deriving DecidableEq, Repr

/-- A worker process. -/
structure Starter where
  range : WorkRange
  /-- Where the instruction page gets mapped. -/
  page : Nat
  data : Scanner
  point : StartPoint
  /-- A SIGUSR1 is in flight. -/
  startPending : Bool

namespace Starter

/-- The data of a worker when its process is forked. -/
def forked (cfg : Config) : Method → WorkRange → Scanner
  | .memcage, r | .kernelmod, r =>
    newScanner (ScannerManagerMC.localScannerInit cfg.arch) r.start r.final
  | .ptrace, r => newScanner ScannerManagerPtrace.localScannerInit r.start r.final

/-- `initScanner` or `initScannerPtrace`, up to the `pause()`. -/
def initialised (cfg : Config) : Method → Nat → Scanner → Scanner
  | .memcage, page, data | .kernelmod, page, data => initScanner cfg.arch page data
  | .ptrace, page, data => initScannerPtrace page data

def init (cfg : Config) (method : Method) (page : Nat) (r : WorkRange) : Starter where
  range := r
  page := page
  data := forked cfg method r
  point := .initialising
  startPending := false

/-- The way into the scan: `entryHandler`, or what follows the `pause()` of `initScannerPtrace`. -/
def entry (cfg : Config) : Method → Scanner → Control Scanner
  | .memcage, data | .kernelmod, data => entryHandler cfg data
  | .ptrace, data => ptraceEntry cfg data

def enter (cfg : Config) (method : Method) (w : Starter) : Starter :=
  { w with data := (entry cfg method w.data).state, point := .started }

/-- The SIGUSR1 in flight is delivered. `entryHandler` goes to the instruction page from wherever
the worker is; `startHandlerPtrace` is empty, so the worker goes on from where it is, and only a
`pause()` returns. -/
def deliver (cfg : Config) (method : Method) (w : Starter) : Starter :=
  match method, w.point with
  | .memcage, _ | .kernelmod, _ | .ptrace, .pausing =>
    { w.enter cfg method with startPending := false }
  | .ptrace, _ => { w with startPending := false }

end Starter

/-- How far the manager is with `runScanners`. -/
inductive RunScanners
  /-- The loop on `allReady` looks at the thread. -/
  | polling (i : Nat)
  /-- The thread is the next to get a SIGUSR1. -/
  | sending (i : Nat)
  | returned
deriving DecidableEq, Repr

/-- The manager and its workers, in the iteration order of `threadDataMap`. -/
structure Startup where
  manager : RunScanners
  workers : List Starter

inductive StartEvent
  /-- The manager goes on. -/
  | manager
  /-- The worker runs up to `isReady = true`. -/
  | init (i : Nat)
  /-- The worker calls `pause()`. -/
  | pause (i : Nat)
  | deliver (i : Nat)

namespace Startup

def init (cfg : Config) (method : Method) (workers : List (Nat × WorkRange)) : Startup where
  manager := .polling 0
  workers := workers.map fun w => .init cfg method w.1 w.2

@[simps] def set (s : Startup) (i : Nat) (w : Starter) : Startup :=
  { s with workers := s.workers.set i w }

/-- A statement of `runScanners`. -/
def next (s : Startup) : Option Startup :=
  match s.manager with
  | .polling i =>
    match s.workers[i]? with
    | none => some { s with manager := .sending 0 }
    | some w => some { s with manager := .polling (if w.data.isReady then i + 1 else 0) }
  | .sending i =>
    match s.workers[i]? with
    | none => some { s with manager := .returned }
    | some w => some { s.set i { w with startPending := true } with manager := .sending (i + 1) }
  | .returned => none

def step (cfg : Config) (method : Method) : StartEvent → Startup → Option Startup
  | .manager, s => s.next
  | .init i, s =>
    (s.workers[i]?).bind fun w =>
      if w.point = .initialising then
        let data := Starter.initialised cfg method w.page w.data
        some (s.set i { w with data := data, point := .ready })
      else none
  | .pause i, s =>
    (s.workers[i]?).bind fun w =>
      if w.point = .ready then some (s.set i { w with point := .pausing }) else none
  | .deliver i, s =>
    (s.workers[i]?).bind fun w =>
      if w.startPending then some (s.set i (w.deliver cfg method)) else none

end Startup

end IScanU
