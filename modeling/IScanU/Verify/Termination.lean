import IScanU.Verify.MemCage

/-! # Every schedule ends

Each handler that runs on a worker takes an instruction off its list of pending ones or stops it,
whether the signal was raised by the instruction, sent by the manager, or came from nowhere. So
there are at most as many handlers as pending instructions before the worker stops, in whatever
order the processes run; and until then the worker can go on by itself. A handler that has started
runs to completion here: a SIGUSR2 inside `faultHandler` would leave SIGSEGV blocked. -/

namespace IScanU

/-- A signal that is handled by `faultHandler` or `hangHandler`. -/
def CellEvent.analyses : CellEvent → Bool
  | .start => false
  | .fault _ | .deliver _ | .spurious _ => true

/-- The worker `i` analyses an instruction. -/
def Event.analysedBy (i : Nat) : Event → Bool
  | .tick => false
  | .worker j e => j == i && e.analyses

/-- How many handlers can still run before the worker is stopped. -/
def handlersLeft (search : InstrT → Bool) (data : Scanner) : Nat :=
  if data.isStopped then 0
  else (pending search data.currentInstruction data.finalInstruction).length + 1

section
variable {search : InstrT → Bool} {data : Scanner} {left : Control Scanner}

theorem handlersLeft_of_stopped (h : data.isStopped = true) : handlersLeft search data = 0 :=
  if_pos h

theorem handlersLeft_of_running (h : data.isStopped = false) : handlersLeft search data =
    (pending search data.currentInstruction data.finalInstruction).length + 1 :=
  if_neg (by simp [h])

theorem HandlerStep.handlersLeft (h : HandlerStep search hung data left) :
    handlersLeft search left.state ≤ handlersLeft search data - 1 := by
  cases hs : data.isStopped with
  | true =>
    rw [handlersLeft_of_stopped (h.stopped hs)]
    exact Nat.zero_le _
  | false =>
    cases h with
    | next hp hd hstop =>
      rw [Control.state_resume, handlersLeft_of_running hs, hp,
        handlersLeft_of_running (hstop.trans hs), hd.final, (pending_tail hp).2]
      exact Nat.le_refl _
    | last _ _ _ hstop =>
      rw [Control.state_halt, handlersLeft_of_stopped hstop]
      exact Nat.zero_le _

theorem EntryStep.handlersLeft (h : EntryStep search data left) :
    handlersLeft search left.state ≤ handlersLeft search data := by
  cases hs : data.isStopped with
  | true =>
    rw [handlersLeft_of_stopped (h.stopped hs)]
    exact Nat.zero_le _
  | false =>
    cases h with
    | next hw he hstop =>
      have hrest := worklist_tail hw
      rw [worklist_eq] at hw
      rw [Control.state_resume, handlersLeft_of_running hs,
        handlersLeft_of_running (hstop.trans hs), he.final, hrest]
      split at hw
      · rw [hw]
        exact Nat.le_succ _
      · rw [(List.cons.inj hw).2]
    | last _ _ _ hstop =>
      rw [Control.state_halt, handlersLeft_of_stopped hstop]
      exact Nat.zero_le _

end

section
variable {arch : ArchProperties} {search : InstrT → Bool} {analyse : AnalysisStage}

theorem Cell.step_handlersLeft {e : CellEvent} {c c' : Cell}
    (h : c.step (.exhaustive arch search analyse) e = some c') :
    handlersLeft search c'.data ≤ handlersLeft search c.data - if e.analyses then 1 else 0 := by
  have hcases := Cell.step_cases h
  cases e with
  | start =>
    obtain ⟨left, hs, rfl⟩ := hcases
    exact hs.handlersLeft
  | fault sig =>
    obtain ⟨left, hs, rfl⟩ := hcases
    exact hs.handlersLeft
  | deliver sig =>
    obtain ⟨-, left, hs, rfl⟩ := hcases
    exact hs.handlersLeft
  | spurious sig =>
    obtain ⟨left, hs, rfl⟩ := hcases
    exact hs.handlersLeft

/-- The handlers that are left to the worker `i`. -/
def System.handlersLeft (search : InstrT → Bool) (i : Nat) (s : System) : Nat :=
  ((s.cells[i]?).map fun c => IScanU.handlersLeft search c.data).getD 0

theorem System.handlersLeft_eq {s : System} (h : s.cells[i]? = some c) :
    s.handlersLeft search i = IScanU.handlersLeft search c.data := by
  rw [System.handlersLeft, h]
  rfl

theorem Manager.handlersLeft_visit (m : Manager) (data : Scanner) :
    handlersLeft search (m.visit data) = handlersLeft search data := by
  obtain ⟨n, hn⟩ := m.visit_eq data
  rw [hn]
  rfl

theorem System.step_handlersLeft {e : Event} {s t : System}
    (h : s.step (.exhaustive arch search analyse) e = some t) :
    t.handlersLeft search i ≤ s.handlersLeft search i - if e.analysedBy i then 1 else 0 := by
  cases e with
  | tick =>
    obtain ⟨-, rfl⟩ := System.step_tick h
    rw [System.handlersLeft, System.tick_cells, List.getElem?_map, Option.map_map]
    have hvisit : ((fun c => IScanU.handlersLeft search c.data) ∘ fun c : Cell =>
        c.alarmed (s.manager.visit c.data) (s.manager.suspects c.data)) =
        fun c => IScanU.handlersLeft search c.data :=
      funext fun c => s.manager.handlersLeft_visit c.data
    rw [hvisit]
    exact Nat.le_refl _
  | worker j e =>
    obtain ⟨c, c', hc, hc', rfl⟩ := System.step_worker h
    by_cases hij : j = i
    · subst hij
      have hlt := (List.getElem?_eq_some_iff.1 hc).1
      rw [System.handlersLeft_eq hc,
        System.handlersLeft_eq (c := c') (List.getElem?_set_self hlt), Event.analysedBy,
        beq_self_eq_true, Bool.true_and]
      exact Cell.step_handlersLeft hc'
    · have hother : ({ s with cells := s.cells.set j c' } : System).handlersLeft search i =
          s.handlersLeft search i := by
        rw [System.handlersLeft, System.handlersLeft, List.getElem?_set_ne hij]
      rw [hother, Event.analysedBy, beq_false_of_ne hij]
      exact Nat.le_refl _

/-- A worker that has been started executes its page, or is stopped. -/
def Awake (c : Cell) : Prop :=
  c.started = false ∨ c.executing = true ∨ c.data.isStopped = true

theorem awake_handled_of_halts {c : Cell} (h : ∀ d, left = .halt d → d.isStopped = true) :
    (c.handled left).executing = true ∨ (c.handled left).data.isStopped = true := by
  cases left with
  | resume d => exact .inl rfl
  | halt d => exact .inr (h d rfl)

theorem HandlerStep.isStopped_of_halt {left : Control Scanner}
    (h : HandlerStep search hung data left) : ∀ d, left = .halt d → d.isStopped = true := by
  rintro d rfl
  cases h with
  | last _ _ _ hstop => exact hstop

theorem EntryStep.isStopped_of_halt {left : Control Scanner} (h : EntryStep search data left) :
    ∀ d, left = .halt d → d.isStopped = true := by
  rintro d rfl
  cases h with
  | last _ _ _ hstop => exact hstop

theorem Awake.step {e : CellEvent} {c c' : Cell}
    (h : c.step (.exhaustive arch search analyse) e = some c') : Awake c' := by
  have hcases := Cell.step_cases h
  cases e with
  | start =>
    obtain ⟨left, hs, rfl⟩ := hcases
    exact .inr (awake_handled_of_halts (c := c) hs.isStopped_of_halt)
  | fault sig =>
    obtain ⟨left, hs, rfl⟩ := hcases
    exact .inr (awake_handled_of_halts (c := c) hs.isStopped_of_halt)
  | deliver sig =>
    obtain ⟨-, left, hs, rfl⟩ := hcases
    exact .inr (awake_handled_of_halts (c := c) hs.isStopped_of_halt)
  | spurious sig =>
    obtain ⟨left, hs, rfl⟩ := hcases
    exact .inr (awake_handled_of_halts (c := c) hs.isStopped_of_halt)

theorem Awake.system_step {e : Event} {s t : System} (h : ∀ c ∈ s.cells, Awake c)
    (hstep : s.step (.exhaustive arch search analyse) e = some t) : ∀ c ∈ t.cells, Awake c := by
  refine System.step_forall hstep h (fun _ c hc => ?_) fun i e' c c' _ _ hc' => .step hc'
  obtain ⟨n, hn⟩ := s.manager.visit_eq c.data
  rw [Awake, Cell.alarmed_data, hn]
  exact h c hc

/-- A worker that is not stopped has not had more handlers than pending instructions. -/
theorem analyses_le_of_running (workers : List (Nat × WorkRange)) {es : List Event} {s : System}
    (h : Transition.replay (System.step (.exhaustive arch search analyse)) (fun _ _ => True) es
      (.init arch workers) = some s) (hc : s.cells[i]? = some c) (hrun : c.data.isStopped = false) :
    es.countP (Event.analysedBy i) ≤ (pending search c.range.start c.range.final).length := by
  have hranges : s.cells.map Cell.range = (System.init arch workers).cells.map Cell.range :=
    (Transition.reach_of_replay h).invariant
      (I := fun t => t.cells.map Cell.range = (System.init arch workers).cells.map Cell.range)
      (fun _ _ _ _ hs hstep => (System.step_ranges hstep).trans hs) rfl
  have hrange := congrArg (·[i]?) hranges
  simp only [List.getElem?_map, hc, Option.map_some] at hrange
  obtain ⟨c₀, hc₀, hsame⟩ := Option.map_eq_some_iff.1 hrange.symm
  obtain ⟨w, -, rfl⟩ := List.mem_map.1 (List.mem_of_getElem? hc₀)
  have hmeasure := Transition.measure_of_replay (p := Event.analysedBy i)
    (fun e s t _ hstep => System.step_handlersLeft hstep) h
  rw [System.handlersLeft_eq hc, System.handlersLeft_eq hc₀, handlersLeft_of_running hrun,
    handlersLeft_of_running rfl] at hmeasure
  have hpending : pending search (Cell.init arch w.1 w.2).data.currentInstruction
      (Cell.init arch w.1 w.2).data.finalInstruction =
      pending search c.range.start c.range.final := hsame ▸ rfl
  rw [hpending] at hmeasure
  omega

/-- A worker that is not stopped can go on. -/
theorem Awake.goes_on {c : Cell} (h : Awake c) (hrun : c.data.isStopped = false) (cfg : Config)
    (sig : Signal) : ∃ e ∈ [CellEvent.start, .fault sig], (c.step cfg e).isSome := by
  rcases h with hstart | hexec | hstop
  · exact ⟨.start, by simp, by simp [Cell.step, hstart]⟩
  · exact ⟨.fault sig, by simp, by simp [Cell.step, hexec]⟩
  · rw [hrun] at hstop
    cases hstop

/-- **Every schedule of handlers ends.** Let signals come between handlers. While a worker is not
stopped, no more handlers have run on it than there are instructions to execute after the first one,
and it can go on: by its start signal, or because its instruction raises a signal. When all workers
are stopped, the next alarm ends the run. -/
theorem scan_terminates (arch : ArchProperties) (search : InstrT → Bool) (analyse : AnalysisStage)
    (workers : List (Nat × WorkRange)) {es : List Event} {s : System}
    (h : Transition.replay (System.step (.exhaustive arch search analyse)) (fun _ _ => True) es
      (.init arch workers) = some s) :
    (∀ i c, s.cells[i]? = some c → c.data.isStopped = false →
      es.countP (Event.analysedBy i) ≤ (pending search c.range.start c.range.final).length ∧
        ∀ sig, ∃ e ∈ [CellEvent.start, .fault sig],
          (c.step (.exhaustive arch search analyse) e).isSome) ∧
      ((∀ c ∈ s.cells, c.data.isStopped = true) → s.finished = false →
        ∃ t, s.step (.exhaustive arch search analyse) .tick = some t ∧ t.finished = true) := by
  have hawake : ∀ c ∈ s.cells, Awake c :=
    (Transition.reach_of_replay h).invariant
      (fun _ _ _ _ hs hstep => Awake.system_step hs hstep) fun c hc => by
        obtain ⟨w, -, rfl⟩ := List.mem_map.1 hc
        exact .inl rfl
  refine ⟨fun i c hc hrun => ⟨analyses_le_of_running workers h hc hrun, fun sig => ?_⟩,
    fun hall hfin => ⟨s.tick, by simp [System.step, hfin], ?_⟩⟩
  · exact (hawake c (List.mem_of_getElem? hc)).goes_on hrun _ sig
  · simpa [System.tick, alarmHandler] using hall

/-- After two handlers in two instructions the only worker is stopped, also when the second signal
came from nowhere. -/
theorem scan_terminates_two : ∃ s t : System,
    s.cells.map (·.data.isStopped) = [true] ∧ System.step .plain .tick s = some t ∧
      t.finished = true := by
  have hrun : (Transition.replay (System.step .plain) (fun _ _ => True)
      [.worker 0 .start, .worker 0 (.fault ⟨11, ⟨1, 0⟩, ⟨0⟩⟩),
        .worker 0 (.spurious ⟨12, ⟨0, 0⟩, ⟨0⟩⟩)] (.init .aarch64 [(4096, .upTo 1)])).map
      (fun s => (s.cells.map (·.data.isStopped), s.finished)) = some ([true], false) := by
    decide +kernel
  obtain ⟨s, hs, hfacts⟩ := Option.map_eq_some_iff.1 hrun
  obtain ⟨hstopped, hfin⟩ := Prod.mk.inj hfacts
  obtain ⟨-, hend⟩ := scan_terminates .aarch64 (fun _ => false) (basicAnalysis fun _ => true)
    [(4096, .upTo 1)] hs
  have hall : ∀ c ∈ s.cells, c.data.isStopped = true := fun c hc =>
    List.mem_singleton.1 (hstopped ▸ List.mem_map_of_mem hc)
  obtain ⟨t, ht, hdone⟩ := hend hall hfin
  exact ⟨s, t, hstopped, ht, hdone⟩

end

end IScanU
