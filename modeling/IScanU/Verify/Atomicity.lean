import IScanU.Verify.Completion
import IScanU.Verify.Interrupts

/-! # Handlers as single steps

The model of a whole run lets every handler run to completion. It simulates the one in which alarms
and SIGUSR2s come between the statements of a worker, as long as no SIGUSR2 is delivered inside
`entryHandler` and `stopWorker`, or in `faultHandler` after the call of `analyse` and before the
assignment to `currentInstruction`. A `faultHandler` takes effect when it counts its instruction,
an `entryHandler` when it has its first instruction; where they stop the worker, when `isStopped` is
set. What the manager remembers of a worker can differ, since an alarm may find a counter that no
handler leaves behind; but a SIGUSR2 that is sent under interruptions is sent without them, too. -/

namespace IScanU

/-! ## The worker's own data -/

/-- The data without what the manager remembers of a worker. -/
@[simps] def Scanner.own (data : Scanner) : Scanner :=
  { data with oldNumInstrExec := 0, lastPerformanceExec := 0 }

/-- The same data of a worker. -/
def Same (data data' : Scanner) : Prop := data.own = data'.own

section
variable {data data' : Scanner}

theorem Same.symm (h : Same data data') : Same data' data := Eq.symm h

theorem Same.trans {data'' : Scanner} (h : Same data data') (h' : Same data' data'') :
    Same data data'' := Eq.trans h h'

/-- The worker does not look at what the manager remembers. -/
theorem Same.congr {f : Scanner → Scanner} (hf : ∀ d, (f d).own = f d.own) (h : Same data data') :
    Same (f data) (f data') := by
  rw [Same, hf, hf, h]

theorem Same.read {α : Type} {f : Scanner → α} (hf : ∀ d, f d.own = f d) (h : Same data data') :
    f data = f data' := by
  rw [← hf data, ← hf data', h]

theorem Same.isStopped (h : Same data data') : data.isStopped = data'.isStopped :=
  h.read Scanner.own_isStopped

theorem Same.numInstrExec (h : Same data data') : data.numInstrExec = data'.numInstrExec :=
  h.read Scanner.own_numInstrExec

theorem Same.currentInstruction (h : Same data data') :
    data.currentInstruction = data'.currentInstruction :=
  h.read Scanner.own_currentInstruction

theorem Same.analysed (h : Same data data') : data.analysed = data'.analysed :=
  h.read Scanner.own_analysed

theorem same_visit (m : Manager) (data : Scanner) : Same (m.visit data) data := by
  obtain ⟨n, hn⟩ := m.visit_eq data
  rw [hn]
  rfl

end

/-- An analysis stage that does not look at what the manager remembers. -/
structure AnalysisStage.Blind (analyse : AnalysisStage) : Prop where
  lines : ∀ data, analyse.lines data.own = analyse.lines data
  sizeError : ∀ data, analyse.sizeError data.own = analyse.sizeError data

/-- `basicAnalysis` is such a stage if the disassembler is. -/
theorem blind_basicAnalysis {disassemble : Scanner → Bool}
    (h : ∀ data, disassemble data.own = disassemble data) : (basicAnalysis disassemble).Blind :=
  ⟨fun data => by simp [h], fun _ => rfl⟩

section
variable {analyse : AnalysisStage} {data data' : Scanner}

theorem AnalysisStage.Blind.call (hblind : analyse.Blind) (data : Scanner) :
    (analyse.call data).own = analyse.call data.own := by
  simp only [AnalysisStage.call, hblind.lines, hblind.sizeError]
  rfl

theorem exhaustive_own (search : InstrT → Bool) (data : Scanner) :
    exhaustive search data.own = ((exhaustive search data).1, (exhaustive search data).2.own) := by
  simp only [exhaustive_eq]
  rfl

theorem Same.fetched (h : Same data data') (search : InstrT → Bool) :
    (exhaustive search data).1 = (exhaustive search data').1 :=
  h.read (f := fun d => (exhaustive search d).1) fun d => by rw [exhaustive_own]

theorem Same.fetch (h : Same data data') (search : InstrT → Bool) :
    Same (exhaustive search data).2 (exhaustive search data').2 :=
  h.congr fun d => (congrArg Prod.snd (exhaustive_own search d)).symm

end

/-- Two handlers leave the same. -/
inductive Alike : Control Scanner → Control Scanner → Prop
  | resume {data data' : Scanner} : Same data data' → Alike (.resume data) (.resume data')
  | halt {data data' : Scanner} : Same data data' → Alike (.halt data) (.halt data')

theorem Alike.state {left left' : Control Scanner} (h : Alike left left') :
    Same left.state left'.state := by
  cases h with
  | resume h => exact h
  | halt h => exact h

section
variable {arch : ArchProperties} {search : InstrT → Bool} {analyse : AnalysisStage}
  {data data' : Scanner}

theorem alike_hangHandler (hblind : analyse.Blind) (sig : Signal) (h : Same data data') :
    Alike (hangHandler (.exhaustive arch search analyse) sig data)
      (hangHandler (.exhaustive arch search analyse) sig data') := by
  have hrecorded : Same (recordSignal (writeHang data) { sig with signo := SIGSEGV })
      (recordSignal (writeHang data') { sig with signo := SIGSEGV }) :=
    h.congr (f := fun d => recordSignal (writeHang d) { sig with signo := SIGSEGV }) fun _ => rfl
  have hpage := (hrecorded.congr hblind.call).congr
    (f := fun d => writeStdPage arch d d.instructionPage) fun _ => rfl
  have hfirst := hpage.fetched search
  have hrest := hpage.fetch search
  unfold hangHandler
  simp only [Config.exhaustive_analyse, Config.exhaustive_arch, Config.exhaustive_fetchInstruction]
  generalize exhaustive search _ = fetched at hfirst hrest ⊢
  generalize exhaustive search _ = fetched' at hfirst hrest ⊢
  obtain ⟨next, d⟩ := fetched
  obtain ⟨next', d'⟩ := fetched'
  cases hfirst
  cases next with
  | none => exact .halt (hrest.congr fun _ => rfl)
  | some w =>
    exact .resume (hrest.congr (f := fun d => enterInstruction (d.setCurrent w)) fun _ => rfl)

end

/-! ## Where a worker is in its handler -/

/-- The first two lines of `entryHandler`. -/
@[simps!] def announced (data : Scanner) : Scanner := writeOutput data [.timestamp, .startOfRun]

/-- The call of `analyse`. -/
@[simps] def called (data : Scanner) : Scanner :=
  { data with analysed := data.analysed ++ [data.currentInstruction] }

/-- From the test of `finished` to the assignment to `currentInstruction`. -/
def onTo (cfg : Config) (nextInstruction : InstrT) (data : Scanner) : Scanner :=
  (writeInstruction (restorePage cfg data) data.instructionPointer nextInstruction).setCurrent
    nextInstruction

section
variable {cfg : Config} {sig : Signal} {data : Scanner} {next : InstrT}

theorem entryHandler_clean (h : cfg.search data.currentInstruction = false) :
    entryHandler cfg data = .resume (enterInstruction (announced data)) := by
  rw [entryHandler, writeOutput_currentInstruction, h, if_neg Bool.false_ne_true]
  rfl

theorem entryHandler_some (h : cfg.search data.currentInstruction = true)
    (hnext : (cfg.fetchInstruction (announced data)).1 = some next) : entryHandler cfg data =
      .resume (enterInstruction ((cfg.fetchInstruction (announced data)).2.setCurrent next)) := by
  rw [announced] at hnext ⊢
  rw [entryHandler, writeOutput_currentInstruction, h, if_pos rfl]
  generalize cfg.fetchInstruction (writeOutput data _) = fetched at hnext ⊢
  obtain ⟨_, d⟩ := fetched
  cases hnext
  rfl

theorem entryHandler_none (h : cfg.search data.currentInstruction = true)
    (hnext : (cfg.fetchInstruction (announced data)).1 = none) : entryHandler cfg data =
      .halt (stopWorker (cfg.fetchInstruction (announced data)).2) := by
  rw [announced] at hnext ⊢
  rw [entryHandler, writeOutput_currentInstruction, h, if_pos rfl]
  generalize cfg.fetchInstruction (writeOutput data _) = fetched at hnext ⊢
  obtain ⟨_, d⟩ := fetched
  cases hnext
  rfl

theorem faultHandler_some
    (h : (cfg.fetchInstruction (cfg.analyse.call (recordSignal data sig))).1 = some next) :
    faultHandler cfg sig data = .resume (onTo cfg next
      ((cfg.fetchInstruction (cfg.analyse.call (recordSignal data sig))).2.count 1)) := by
  rw [faultHandler]
  generalize cfg.fetchInstruction (cfg.analyse.call (recordSignal data sig)) = fetched at h ⊢
  obtain ⟨_, d⟩ := fetched
  cases h
  rfl

theorem faultHandler_none
    (h : (cfg.fetchInstruction (cfg.analyse.call (recordSignal data sig))).1 = none) :
    faultHandler cfg sig data = .halt (stopWorker
      ((cfg.fetchInstruction (cfg.analyse.call (recordSignal data sig))).2.count 1)) := by
  rw [faultHandler]
  generalize cfg.fetchInstruction (cfg.analyse.call (recordSignal data sig)) = fetched at h ⊢
  obtain ⟨_, d⟩ := fetched
  cases h
  rfl

end

/-- Where a SIGUSR2 finds the worker as if it were between two handlers. -/
def Point.settled : Point → Bool
  | .entering | .executing | .recording _ | .informing _ | .situating _ | .analysing
  | .returning => true
  | _ => false

/-- A SIGUSR2 is delivered only at such points. -/
def Calm : Interrupt → Interleaving → Prop
  | .deliver _, s => s.point.settled
  | _, _ => True

instance : ∀ e s, Decidable (Calm e s)
  | .deliver _, s => inferInstanceAs (Decidable (s.point.settled = true))
  | .statement, _ | .fault _, _ | .tick, _ => inferInstanceAs (Decidable True)

theorem Calm.undisturbed {e : Interrupt} {s : Interleaving} (h : Calm e s) : Undisturbed e s := by
  cases e with
  | deliver sig =>
    have hsettled : s.point.settled = true := h
    rw [Undisturbed]
    cases hpoint : s.point <;> rw [hpoint] at hsettled <;> first | rfl | cases hsettled
  | _ => trivial

/-- How an interrupted worker stands to the worker `c` whose handlers are single steps. Up to the
points where those take effect it is ahead by the statements that have not taken effect; from there
on it is behind by those that are left. -/
def Tracks (cfg : Config) (c : Cell) : Point → Scanner → Prop
  | .entering, data => c.started = false ∧ Same c.data data
  | .announcing, data => c.started = false ∧ Same (writeOutput c.data [.timestamp]) data
  | .screening, data => c.started = false ∧ Same (announced c.data) data
  | .replacing, data =>
    c.started = false ∧ cfg.search c.data.currentInstruction = true ∧ Same (announced c.data) data
  | .replaced true, data | .stopping false, data =>
    c.started = false ∧ cfg.search c.data.currentInstruction = true ∧
      (cfg.fetchInstruction (announced c.data)).1 = none ∧
      Same (cfg.fetchInstruction (announced c.data)).2 data
  | .replaced false, data | .placing, data =>
    c.executing = true ∧ Same c.data (enterInstruction data)
  | .executing, data | .recording _, data | .returning, data | .killed, data =>
    c.executing = true ∧ Same c.data data
  | .informing sig, data =>
    c.executing = true ∧ Same { c.data with lastSigno := sig.signo } data
  | .situating sig, data =>
    c.executing = true ∧ Same { c.data with lastSigno := sig.signo, lastInfo := sig.info } data
  | .analysing, data => c.executing = true ∧ ∃ sig, Same (recordSignal c.data sig) data
  | .concluding lines sizeError, data =>
    c.executing = true ∧ ∃ sig, cfg.analyse.lines (recordSignal c.data sig) = lines ∧
      cfg.analyse.sizeError (recordSignal c.data sig) = sizeError ∧
      Same (called (recordSignal c.data sig)) data
  | .fetching, data =>
    c.executing = true ∧ ∃ sig, Same (cfg.analyse.call (recordSignal c.data sig)) data
  | .counting fetched, data =>
    c.executing = true ∧ ∃ sig,
      (cfg.fetchInstruction (cfg.analyse.call (recordSignal c.data sig))).1 = fetched ∧
      Same (cfg.fetchInstruction (cfg.analyse.call (recordSignal c.data sig))).2 data
  | .testing none, data | .stopping true, data =>
    c.executing = true ∧ ∃ sig,
      (cfg.fetchInstruction (cfg.analyse.call (recordSignal c.data sig))).1 = none ∧
      Same ((cfg.fetchInstruction (cfg.analyse.call (recordSignal c.data sig))).2.count 1) data
  | .testing (some next), data | .restoring next, data =>
    c.executing = true ∧ Same c.data (onTo cfg next data)
  | .writing next, data =>
    c.executing = true ∧ Same c.data
      ((writeInstruction data data.instructionPointer next).setCurrent next)
  | .updating next, data => c.executing = true ∧ Same c.data (data.setCurrent next)
  | .reporting, data =>
    c.executing = false ∧ Same c.data (writeOutput data [.timestamp, .endOfRun])
  | .ending, data => c.executing = false ∧ Same c.data (writeOutput data [.endOfRun])
  | .waiting, data => c.executing = false ∧ Same c.data data

/-- While the counter of the interrupted worker stands still, so does the other one. -/
structure InStep (data data' : Scanner) : Prop where
  grown : data.oldNumInstrExec ≤ data.numInstrExec
  still : data.numInstrExec = data.oldNumInstrExec → data'.numInstrExec = data'.oldNumInstrExec

/-- The worker `c` of `t` stands for the worker of `s`. -/
structure Tracked (cfg : Config) (s : Interleaving) (t : System) (c : Cell) : Prop where
  cells : t.cells = [c]
  checks : t.manager.checkForHang = s.manager.checkForHang
  finished : t.finished = s.finished
  pending : s.hangPending = true → c.hangPending = true
  stopped : c.data.isStopped = s.data.isStopped
  inStep : s.data.isStopped = false → InStep s.data c.data
  tracks : Tracks cfg c s.point s.data

section
variable {arch : ArchProperties} {search : InstrT → Bool} {analyse : AnalysisStage}
  {point point' : Point} {data data' : Scanner} {c c' : Cell}

theorem Tracks.congr (h : Tracks (.exhaustive arch search analyse) c point data)
    (hblind : analyse.Blind) (hstarted : c'.started = c.started)
    (hexecuting : c'.executing = c.executing) (hc : Same c'.data c.data) (hd : Same data data') :
    Tracks (.exhaustive arch search analyse) c' point data' := by
  have hcall : ∀ sig, Same (analyse.call (recordSignal c'.data sig))
      (analyse.call (recordSignal c.data sig)) := fun sig =>
    hc.congr (f := fun d => analyse.call (recordSignal d sig)) fun d => hblind.call _
  have hrecord : ∀ sig, Same (recordSignal c'.data sig) (recordSignal c.data sig) := fun sig =>
    hc.congr (f := fun d => recordSignal d sig) fun _ => rfl
  have hannounced : Same (announced c'.data) (announced c.data) := hc.congr fun _ => rfl
  have hsearch : search c'.data.currentInstruction = search c.data.currentInstruction :=
    congrArg search hc.currentInstruction
  have hstop (hs : Tracks (.exhaustive arch search analyse) c (.stopping false) data) :
      Tracks (.exhaustive arch search analyse) c' (.stopping false) data' := by
    obtain ⟨hfresh, hblack, hfirst, hsame⟩ := hs
    exact ⟨hstarted.trans hfresh, hsearch.trans hblack, (hannounced.fetched search).trans hfirst,
      ((hannounced.fetch search).trans hsame).trans hd⟩
  have hstop' (hs : Tracks (.exhaustive arch search analyse) c (.stopping true) data) :
      Tracks (.exhaustive arch search analyse) c' (.stopping true) data' := by
    obtain ⟨hrun, sig, hfirst, hsame⟩ := hs
    have hcount := ((hcall sig).fetch search).congr (f := fun d => d.count 1) fun _ => rfl
    exact ⟨hexecuting.trans hrun, sig, ((hcall sig).fetched search).trans hfirst,
      (hcount.trans hsame).trans hd⟩
  have hplace (hs : Tracks (.exhaustive arch search analyse) c .placing data) :
      Tracks (.exhaustive arch search analyse) c' .placing data' :=
    ⟨hexecuting.trans hs.1, (hc.trans hs.2).trans (hd.congr (f := enterInstruction) fun _ => rfl)⟩
  have hrestore (next : InstrT)
      (hs : Tracks (.exhaustive arch search analyse) c (.restoring next) data) :
      Tracks (.exhaustive arch search analyse) c' (.restoring next) data' :=
    ⟨hexecuting.trans hs.1, (hc.trans hs.2).trans
      (hd.congr (f := onTo (.exhaustive arch search analyse) next) fun _ => rfl)⟩
  cases point with
  | entering => exact ⟨hstarted.trans h.1, (hc.trans h.2).trans hd⟩
  | announcing =>
    exact ⟨hstarted.trans h.1,
      ((hc.congr (f := fun d => writeOutput d [.timestamp]) fun _ => rfl).trans h.2).trans hd⟩
  | screening => exact ⟨hstarted.trans h.1, (hannounced.trans h.2).trans hd⟩
  | replacing =>
    exact ⟨hstarted.trans h.1, hsearch.trans h.2.1, (hannounced.trans h.2.2).trans hd⟩
  | replaced finished =>
    cases finished with
    | false => exact hplace h
    | true => exact hstop h
  | placing => exact hplace h
  | stopping analysed =>
    cases analysed with
    | false => exact hstop h
    | true => exact hstop' h
  | executing | recording sig | returning | waiting | killed =>
    exact ⟨hexecuting.trans h.1, (hc.trans h.2).trans hd⟩
  | informing sig =>
    exact ⟨hexecuting.trans h.1, ((hc.congr (f := fun d => { d with lastSigno := sig.signo })
      fun _ => rfl).trans h.2).trans hd⟩
  | situating sig =>
    exact ⟨hexecuting.trans h.1, ((hc.congr
      (f := fun d => { d with lastSigno := sig.signo, lastInfo := sig.info })
      fun _ => rfl).trans h.2).trans hd⟩
  | analysing =>
    obtain ⟨hrun, sig, hsame⟩ := h
    exact ⟨hexecuting.trans hrun, sig, ((hrecord sig).trans hsame).trans hd⟩
  | concluding lines sizeError =>
    obtain ⟨hrun, sig, hlines, hsize, hsame⟩ := h
    exact ⟨hexecuting.trans hrun, sig, ((hrecord sig).read hblind.lines).trans hlines,
      ((hrecord sig).read hblind.sizeError).trans hsize,
      (((hrecord sig).congr (f := called) fun _ => rfl).trans hsame).trans hd⟩
  | fetching =>
    obtain ⟨hrun, sig, hsame⟩ := h
    exact ⟨hexecuting.trans hrun, sig, ((hcall sig).trans hsame).trans hd⟩
  | counting fetched =>
    obtain ⟨hrun, sig, hfirst, hsame⟩ := h
    exact ⟨hexecuting.trans hrun, sig, ((hcall sig).fetched search).trans hfirst,
      (((hcall sig).fetch search).trans hsame).trans hd⟩
  | testing fetched =>
    cases fetched with
    | none => exact hstop' h
    | some next => exact hrestore next h
  | restoring next => exact hrestore next h
  | writing next =>
    exact ⟨hexecuting.trans h.1, (hc.trans h.2).trans (hd.congr
      (f := fun d => (writeInstruction d d.instructionPointer next).setCurrent next) fun _ => rfl)⟩
  | updating next =>
    exact ⟨hexecuting.trans h.1,
      (hc.trans h.2).trans (hd.congr (f := fun d => d.setCurrent next) fun _ => rfl)⟩
  | reporting =>
    exact ⟨hexecuting.trans h.1, (hc.trans h.2).trans
      (hd.congr (f := fun d => writeOutput d [.timestamp, .endOfRun]) fun _ => rfl)⟩
  | ending =>
    exact ⟨hexecuting.trans h.1, (hc.trans h.2).trans
      (hd.congr (f := fun d => writeOutput d [.endOfRun]) fun _ => rfl)⟩

/-- At a settled point a SIGUSR2 does the same to both. -/
theorem Tracks.hang (hblind : analyse.Blind) (hsettled : point.settled = true)
    (h : Tracks (.exhaustive arch search analyse) c point data) (sig : Signal) :
    Alike (hangHandler (.exhaustive arch search analyse) sig c.data)
      (hangHandler (.exhaustive arch search analyse) sig data) ∧
      c.data.numInstrExec = data.numInstrExec := by
  -- what a signal has left is overwritten
  have hoverwritten : ∀ sig', hangHandler (.exhaustive arch search analyse) sig
      (recordSignal c.data sig') = hangHandler (.exhaustive arch search analyse) sig c.data :=
    fun _ => rfl
  cases point with
  | entering | executing | recording _ | returning =>
    exact ⟨alike_hangHandler hblind sig h.2, h.2.numInstrExec⟩
  | informing sig' =>
    have hleft := @alike_hangHandler arch search analyse _ _ hblind sig h.2
    have hsame := hoverwritten { sig' with info := c.data.lastInfo, context := c.data.lastContext }
    exact ⟨hsame ▸ hleft, h.2.numInstrExec⟩
  | situating sig' =>
    have hleft := @alike_hangHandler arch search analyse _ _ hblind sig h.2
    have hsame := hoverwritten { sig' with context := c.data.lastContext }
    exact ⟨hsame ▸ hleft, h.2.numInstrExec⟩
  | analysing =>
    obtain ⟨-, sig', hsame⟩ := h
    exact ⟨hoverwritten sig' ▸ alike_hangHandler hblind sig hsame, hsame.numInstrExec⟩
  | _ => cases hsettled

/-- A statement counts up, leaves the manager's memory alone, and starts no worker again. -/
theorem Point.next_counts
    (h : point.next (.exhaustive arch search analyse) data = some (point', data')) :
    data'.oldNumInstrExec = data.oldNumInstrExec ∧ data.numInstrExec ≤ data'.numInstrExec ∧
      (data'.isStopped = false → data.isStopped = false) := by
  cases point with
  | replacing =>
    rw [Point.next, Config.exhaustive_fetchInstruction, exhaustive_eq] at h
    cases hq : (pending search data.currentInstruction data.finalInstruction).head? with
    | none =>
      rw [hq] at h
      cases h
      exact ⟨rfl, Nat.le_add_right .., id⟩
    | some q =>
      rw [hq] at h
      cases h
      exact ⟨rfl, Nat.le_add_right .., id⟩
  | fetching =>
    simp only [Point.next, Config.exhaustive_fetchInstruction, exhaustive_eq] at h
    cases h
    exact ⟨rfl, Nat.le_add_right .., id⟩
  | counting fetched =>
    cases h
    exact ⟨rfl, Nat.le_add_right .., id⟩
  | testing fetched => cases fetched <;> cases h <;> exact ⟨rfl, Nat.le_refl _, id⟩
  | stopping analysed =>
    cases h
    exact ⟨rfl, Nat.le_refl _, (Bool.noConfusion ·)⟩
  | _ => cases h <;> exact ⟨rfl, Nat.le_refl _, id⟩

theorem InStep.moved {d d' : Scanner} (h : InStep data d)
    (hsame : d.numInstrExec = data.numInstrExec) (hsame' : d'.numInstrExec = data'.numInstrExec)
    (hold : data'.oldNumInstrExec = data.oldNumInstrExec)
    (hold' : d'.oldNumInstrExec = d.oldNumInstrExec)
    (hle : data.numInstrExec ≤ data'.numInstrExec) : InStep data' d' := by
  have hgrown := h.grown
  refine ⟨by omega, fun hstill => ?_⟩
  have hrest := h.still (by omega)
  omega

/-! ## The simulation -/

theorem System.reach_single {cfg : Config} {e : CellEvent} {t : System} (hcells : t.cells = [c])
    (h : c.step cfg e = some c') :
    Transition.Reach (System.step cfg) (fun _ _ => True) t { t with cells := [c'] } := by
  have hstep : t.step cfg (.worker 0 e) = some { t with cells := [c'] } := by
    simp [System.step, hcells, h]
  exact .single ⟨_, trivial, hstep⟩

section
variable {s : Interleaving} {t : System} {mask : List Int}

/-- The other model follows to a state that stands for `s`. -/
def Follows (cfg : Config) (t : System) (s : Interleaving) : Prop :=
  ∃ t', Transition.Reach (System.step cfg) (fun _ _ => True) t t' ∧ ∃ c, Tracked cfg s t' c

/-- The other worker waits for the next statement. -/
theorem Tracked.stutter (h : Tracked (.exhaustive arch search analyse) s t c)
    (hstopped : data.isStopped = s.data.isStopped)
    (hold : data.oldNumInstrExec = s.data.oldNumInstrExec)
    (hle : s.data.numInstrExec ≤ data.numInstrExec)
    (htracks : Tracks (.exhaustive arch search analyse) c point data) :
    Follows (.exhaustive arch search analyse) t
      { s with point := point, data := data, mask := mask } := by
  refine ⟨t, .refl, c, h.cells, h.checks, h.finished, h.pending, h.stopped.trans hstopped.symm,
    fun hrun => ?_, htracks⟩
  have hinStep := h.inStep (hstopped.symm.trans hrun)
  have hgrown := hinStep.grown
  have hrun' : data.isStopped = false := hrun
  exact ⟨by simp only; omega, fun hstill => hinStep.still (by simp only at hstill; omega)⟩

/-- The other worker takes a step. -/
theorem Tracked.moved (h : Tracked (.exhaustive arch search analyse) s t c) {e : CellEvent}
    (hstep : c.step (.exhaustive arch search analyse) e = some c')
    (hpending : c.hangPending = true → c'.hangPending = true)
    (hstopped : c'.data.isStopped = data.isStopped)
    (hinStep : data.isStopped = false → InStep data c'.data)
    (htracks : Tracks (.exhaustive arch search analyse) c' point data) :
    Follows (.exhaustive arch search analyse) t
      { s with point := point, data := data, mask := mask } :=
  ⟨_, System.reach_single h.cells hstep, c', rfl, h.checks, h.finished,
    fun hs => hpending (h.pending hs), hstopped, hinStep, htracks⟩

/-- The `entryHandler` of the other worker takes effect. -/
theorem Tracked.start (h : Tracked (.exhaustive arch search analyse) s t c)
    (hfresh : c.started = false) {left : Control Scanner}
    (hleft : entryHandler (.exhaustive arch search analyse) c.data = left)
    (hstopped : left.state.isStopped = data.isStopped)
    (hinStep : data.isStopped = false → InStep data left.state)
    (htracks : Tracks (.exhaustive arch search analyse)
      { c.handled left with started := true, uncounted := true } point data) :
    Follows (.exhaustive arch search analyse) t
      { s with point := point, data := data, mask := mask } := by
  have hstart : c.step (.exhaustive arch search analyse) .start =
      some { c.handled (entryHandler (.exhaustive arch search analyse) c.data) with
        started := true, uncounted := true } := if_neg (by simp [hfresh])
  rw [hleft] at hstart
  exact h.moved hstart id hstopped hinStep htracks

/-- The `faultHandler` of the other worker takes effect. -/
theorem Tracked.fault (h : Tracked (.exhaustive arch search analyse) s t c)
    (hrun : c.executing = true) {sig : Signal} {left : Control Scanner}
    (hleft : faultHandler (.exhaustive arch search analyse) sig c.data = left)
    (hstopped : left.state.isStopped = data.isStopped)
    (hinStep : data.isStopped = false → InStep data left.state)
    (htracks : Tracks (.exhaustive arch search analyse) (c.handled left) point data) :
    Follows (.exhaustive arch search analyse) t
      { s with point := point, data := data, mask := mask } := by
  have hfault : c.step (.exhaustive arch search analyse) (.fault sig) =
      some (c.handled (faultHandler (.exhaustive arch search analyse) sig c.data)) := if_pos hrun
  rw [hleft] at hfault
  exact h.moved hfault id hstopped hinStep htracks

/-- A statement of `entryHandler` up to its first instruction. -/
theorem Tracked.entry (h : Tracked (.exhaustive arch search analyse) s t c)
    (hpoint : s.point = .screening ∨ s.point = .replacing)
    (hnext : s.point.next (.exhaustive arch search analyse) s.data = some (point, data)) :
    Follows (.exhaustive arch search analyse) t
      { s with point := point, data := data, mask := mask } := by
  have htracks := h.tracks
  obtain ⟨hold, hle, hon⟩ := Point.next_counts hnext
  obtain hpoint | hpoint := hpoint
  · rw [hpoint] at hnext htracks
    obtain ⟨hfresh, hsame⟩ := htracks
    rw [Point.next, Config.exhaustive_search, ← hsame.currentInstruction,
      announced_currentInstruction] at hnext
    cases hsearch : search c.data.currentInstruction with
    | false =>
      rw [hsearch] at hnext
      cases hnext
      exact h.start hfresh (entryHandler_clean hsearch) hsame.isStopped
        (fun hrun => ⟨(h.inStep hrun).grown, (h.inStep hrun).still⟩)
        ⟨rfl, hsame.congr (f := enterInstruction) fun _ => rfl⟩
    | true =>
      rw [hsearch] at hnext
      cases hnext
      exact h.stutter rfl hold hle ⟨hfresh, hsearch, hsame⟩
  · rw [hpoint] at hnext htracks
    obtain ⟨hfresh, hsearch, hsame⟩ := htracks
    have hfirst := hsame.fetched search
    have hrest := hsame.fetch search
    have hcounts : (exhaustive search (announced c.data)).2.oldNumInstrExec =
        c.data.oldNumInstrExec := by
      rw [exhaustive_eq]
      rfl
    have hstops : (exhaustive search s.data).2.isStopped = s.data.isStopped := by
      rw [exhaustive_eq]
      rfl
    rw [Point.next, Config.exhaustive_fetchInstruction] at hnext
    generalize hfetch : exhaustive search s.data = fetched at hnext hfirst hrest hstops
    obtain ⟨_ | next, d⟩ := fetched
    · cases hnext
      exact h.stutter hstops hold hle ⟨hfresh, hsearch, hfirst, hrest⟩
    · cases hnext
      have hsame' := hrest.congr (f := fun d => enterInstruction (d.setCurrent next)) fun _ => rfl
      exact h.start hfresh (entryHandler_some hsearch hfirst) hsame'.isStopped
        (fun hrun => (h.inStep (hon hrun)).moved hsame.numInstrExec hsame'.numInstrExec hold hcounts
          hle) ⟨rfl, hsame'⟩

/-- A statement of the worker. -/
theorem Tracked.statement (hblind : analyse.Blind)
    (h : Tracked (.exhaustive arch search analyse) s t c)
    (hnext : s.point.next (.exhaustive arch search analyse) s.data = some (point, data)) :
    Follows (.exhaustive arch search analyse) t
      { s with point := point, data := data, mask := mask } := by
  have htracks := h.tracks
  obtain ⟨hold, hle, -⟩ := Point.next_counts hnext
  cases hpoint : s.point with
  | entering =>
    rw [hpoint] at hnext htracks
    cases hnext
    exact h.stutter rfl hold hle
      ⟨htracks.1, htracks.2.congr (f := fun d => writeOutput d [.timestamp]) fun _ => rfl⟩
  | announcing =>
    rw [hpoint] at hnext htracks
    have hsame := htracks.2.congr (f := fun d => writeOutput d [.startOfRun]) fun _ => rfl
    rw [writeOutput_writeOutput] at hsame
    cases hnext
    exact h.stutter rfl hold hle ⟨htracks.1, hsame⟩
  | screening => exact h.entry (.inl hpoint) hnext
  | replacing => exact h.entry (.inr hpoint) hnext
  | replaced finished =>
    rw [hpoint] at hnext htracks
    cases finished <;> cases hnext <;> exact h.stutter rfl hold hle htracks
  | recording sig =>
    rw [hpoint] at hnext htracks
    cases hnext
    exact h.stutter rfl hold hle ⟨htracks.1,
      htracks.2.congr (f := fun d => { d with lastSigno := sig.signo }) fun _ => rfl⟩
  | informing sig =>
    rw [hpoint] at hnext htracks
    cases hnext
    exact h.stutter rfl hold hle ⟨htracks.1,
      htracks.2.congr (f := fun d => { d with lastInfo := sig.info }) fun _ => rfl⟩
  | situating sig =>
    rw [hpoint] at hnext htracks
    cases hnext
    exact h.stutter rfl hold hle ⟨htracks.1, sig,
      htracks.2.congr (f := fun d => { d with lastContext := sig.context }) fun _ => rfl⟩
  | analysing =>
    rw [hpoint] at hnext htracks
    obtain ⟨hrun, sig, hsame⟩ := htracks
    cases hnext
    exact h.stutter rfl hold hle ⟨hrun, sig, hsame.read hblind.lines,
      hsame.read hblind.sizeError, hsame.congr (f := called) fun _ => rfl⟩
  | concluding lines sizeError =>
    rw [hpoint] at hnext htracks
    obtain ⟨hrun, sig, hlines, hsize, hsame⟩ := htracks
    cases hnext
    have hsame' := hsame.congr (f := fun d =>
      { d with outputFD := d.outputFD ++ lines.map .analysis, sizeError := sizeError }) fun _ => rfl
    rw [← hlines, ← hsize] at hsame' ⊢
    exact h.stutter rfl hold hle ⟨hrun, sig, hsame'⟩
  | fetching =>
    rw [hpoint] at hnext htracks
    obtain ⟨hrun, sig, hsame⟩ := htracks
    have hstopped : (exhaustive search s.data).2.isStopped = s.data.isStopped := by
      rw [exhaustive_eq]
      rfl
    cases hnext
    exact h.stutter hstopped hold hle
      ⟨hrun, sig, hsame.fetched search, hsame.fetch search⟩
  | counting fetched =>
    rw [hpoint] at hnext htracks
    obtain ⟨hrun, sig, hfirst, hsame⟩ := htracks
    cases hnext
    cases fetched with
    | none =>
      exact h.stutter rfl hold hle
        ⟨hrun, sig, hfirst, hsame.congr (f := fun d => d.count 1) fun _ => rfl⟩
    | some next =>
      have hsame' := hsame.congr
        (f := fun d => onTo (.exhaustive arch search analyse) next (d.count 1)) fun _ => rfl
      refine h.fault hrun (faultHandler_some hfirst) hsame'.isStopped (fun hrunning => ?_)
        ⟨rfl, hsame'⟩
      have hgrown := (h.inStep hrunning).grown
      refine ⟨Nat.le_succ_of_le hgrown, fun hstill => ?_⟩
      simp only [Scanner.count_numInstrExec, Scanner.count_oldNumInstrExec] at hstill
      omega
  | testing fetched =>
    rw [hpoint] at hnext htracks
    cases fetched <;> cases hnext <;> exact h.stutter rfl hold hle htracks
  | stopping analysed =>
    rw [hpoint] at hnext htracks
    cases analysed with
    | false =>
      obtain ⟨hfresh, hsearch, hfirst, hsame⟩ := htracks
      cases hnext
      exact h.start hfresh (entryHandler_none hsearch hfirst) rfl (Bool.noConfusion ·)
        ⟨rfl, hsame.congr (f := stopWorker) fun _ => rfl⟩
    | true =>
      obtain ⟨hrun, sig, hfirst, hsame⟩ := htracks
      cases hnext
      exact h.fault hrun (faultHandler_none hfirst) rfl (Bool.noConfusion ·)
        ⟨rfl, hsame.congr (f := stopWorker) fun _ => rfl⟩
  | reporting =>
    rw [hpoint] at hnext htracks
    cases hnext
    refine h.stutter rfl hold hle ⟨htracks.1, ?_⟩
    rw [writeOutput_writeOutput]
    exact htracks.2
  | placing | restoring next | writing next | updating next | returning | ending =>
    rw [hpoint] at hnext htracks
    cases hnext
    exact h.stutter rfl hold hle htracks
  | executing | waiting | killed =>
    rw [hpoint] at hnext
    cases hnext

/-- An alarm. It finds the interrupted worker to hang only if it finds the other one to hang. -/
theorem Tracked.tick (hblind : analyse.Blind)
    (h : Tracked (.exhaustive arch search analyse) s t c) {s' : Interleaving}
    (hstep : s.step (.exhaustive arch search analyse) .tick = some s') :
    t.step (.exhaustive arch search analyse) .tick = some t.tick ∧
      ∃ c', Tracked (.exhaustive arch search analyse) s' t.tick c' := by
  obtain ⟨hfin, hs'⟩ := Option.ite_none_left_eq_some.mp hstep
  cases hs'
  rw [Bool.not_eq_true] at hfin
  have htick : t.step (.exhaustive arch search analyse) .tick = some t.tick :=
    if_neg (by simp [h.finished, hfin])
  have hcells : t.tick.cells =
      [c.alarmed (t.manager.visit c.data) (t.manager.suspects c.data)] := by
    rw [System.tick_cells, h.cells]
    rfl
  have hsuspects : s.manager.suspects s.data = true → t.manager.suspects c.data = true := by
    intro hsus
    simp only [Manager.suspects, Bool.and_eq_true, beq_iff_eq, Bool.not_eq_true'] at hsus ⊢
    obtain ⟨⟨hchecks, hstill⟩, hrun⟩ := hsus
    exact ⟨⟨h.checks.trans hchecks, (h.inStep hrun).still hstill⟩, h.stopped.trans hrun⟩
  have hown := same_visit s.manager s.data
  have hown' := same_visit t.manager c.data
  have htracks : Tracks (.exhaustive arch search analyse)
      (c.alarmed (t.manager.visit c.data) (t.manager.suspects c.data)) s.point
      (s.manager.visit s.data) := h.tracks.congr hblind rfl rfl hown' hown.symm
  refine ⟨htick, _, hcells, h.checks, ?_, fun hpending => ?_, ?_, fun _ => ?_, htracks⟩
  · simp [System.tick, alarmHandler, h.cells, h.stopped]
  · rw [Bool.or_eq_true] at hpending
    rw [Cell.alarmed_hangPending, Bool.or_eq_true]
    exact hpending.imp h.pending hsuspects
  · exact hown'.isStopped.trans (h.stopped.trans hown.isStopped.symm)
  · obtain ⟨n, hn⟩ := s.manager.visit_eq s.data
    obtain ⟨n', hn'⟩ := t.manager.visit_eq c.data
    rw [Cell.alarmed_data, hn, hn']
    exact ⟨Nat.le_refl _, fun _ => rfl⟩

/-- A SIGUSR2 at a settled point. -/
theorem Tracked.deliver (hblind : analyse.Blind)
    (h : Tracked (.exhaustive arch search analyse) s t c) (hpending : s.hangPending = true)
    (hsettled : s.point.settled = true) (sig : Signal) :
    ∃ c', c.step (.exhaustive arch search analyse) (.deliver sig) = some c' ∧
      Tracked (.exhaustive arch search analyse)
        (s.hung (hangHandler (.exhaustive arch search analyse) sig s.data))
        { t with cells := [c'] } c' := by
  obtain ⟨halike, hnum⟩ := h.tracks.hang hblind hsettled sig
  have hs := hangHandler_step arch search analyse sig s.data
  have hc := hangHandler_step arch search analyse sig c.data
  have hdeliver : c.step (.exhaustive arch search analyse) (.deliver sig) =
      some { c.handled (hangHandler (.exhaustive arch search analyse) sig c.data) with
        hangPending := false, uncounted := true } := if_pos (h.pending hpending)
  have hstate := halike.state
  have hinStep :
      (hangHandler (.exhaustive arch search analyse) sig s.data).state.isStopped = false →
      InStep (hangHandler (.exhaustive arch search analyse) sig s.data).state
        (hangHandler (.exhaustive arch search analyse) sig c.data).state := fun hrun => by
    have hrunning : s.data.isStopped = false := by
      by_contra hstop
      rw [Bool.not_eq_false] at hstop
      exact absurd ((hs.stopped hstop).symm.trans hrun) Bool.noConfusion
    have hcount := hs.handled.count
    exact (h.inStep hrunning).moved hnum hstate.numInstrExec hs.handled.oldCount
      hc.handled.oldCount (by omega)
  refine ⟨_, hdeliver, ?_⟩
  generalize hangHandler (.exhaustive arch search analyse) sig s.data = left at *
  generalize hangHandler (.exhaustive arch search analyse) sig c.data = left' at *
  cases halike with
  | resume hsame =>
    exact ⟨rfl, h.checks, h.finished, (Bool.noConfusion ·), hstate.isStopped, hinStep, rfl, hsame⟩
  | halt hsame =>
    exact ⟨rfl, h.checks, h.finished, (Bool.noConfusion ·), hstate.isStopped, hinStep, rfl, hsame⟩

/-- One step of the interrupted worker or its manager is none or one of the other model. -/
theorem Tracked.step (hblind : analyse.Blind) {e : Interrupt} {s' : Interleaving}
    (h : Tracked (.exhaustive arch search analyse) s t c) (hok : Calm e s)
    (hstep : s.step (.exhaustive arch search analyse) e = some s') :
    Follows (.exhaustive arch search analyse) t s' := by
  cases e with
  | statement =>
    obtain ⟨⟨point, data⟩, hnext, rfl⟩ := Option.map_eq_some_iff.mp hstep
    exact h.statement hblind hnext
  | fault sig =>
    have htracks := h.tracks
    have hpoint := (Interleaving.step_cases hstep).1
    rw [hpoint] at htracks
    simp only [Interleaving.step, hpoint] at hstep
    by_cases hmask : sig.signo ∈ s.mask
    · rw [if_pos hmask, Option.some.injEq] at hstep
      exact hstep ▸ h.stutter rfl rfl (Nat.le_refl _) htracks
    · rw [if_neg hmask, Option.some.injEq] at hstep
      exact hstep ▸ h.stutter rfl rfl (Nat.le_refl _) htracks
  | tick =>
    obtain ⟨htick, c', h'⟩ := h.tick hblind hstep
    exact ⟨t.tick, .single ⟨.tick, trivial, htick⟩, c', h'⟩
  | deliver sig =>
    obtain ⟨hpending, -, rfl⟩ := Interleaving.step_cases hstep
    obtain ⟨c', hdeliver, h'⟩ := h.deliver hblind hpending hok sig
    exact ⟨_, System.reach_single h.cells hdeliver, c', h'⟩

theorem Tracked.init (page : Nat) (r : WorkRange) :
    Tracked (.exhaustive arch search analyse) (.init arch page r) (.init arch [(page, r)])
      (.init arch page r) :=
  ⟨rfl, rfl, rfl, (Bool.noConfusion ·), rfl, fun _ => ⟨Nat.le_refl _, fun _ => rfl⟩, rfl, rfl⟩

theorem exists_tracked (hblind : analyse.Blind) {page : Nat} {r : WorkRange}
    (h : Transition.Reach (Interleaving.step (.exhaustive arch search analyse)) Calm
      (.init arch page r) s) :
    ∃ t, Transition.Reach (System.step (.exhaustive arch search analyse)) (fun _ _ => True)
        (.init arch [(page, r)]) t ∧
      ∃ c, Tracked (.exhaustive arch search analyse) s t c :=
  h.simulated (R := fun s t => ∃ c, Tracked (.exhaustive arch search analyse) s t c)
    (fun _ _ _ _ hok ⟨_, htracked⟩ hstep => htracked.step hblind hok hstep) ⟨_, .init page r⟩

/-- A worker that is stopped has no statement left that analyses. -/
theorem Tracks.analysed (h : Tracks (.exhaustive arch search analyse) c point data)
    (hphase : point.phase = .stopped) :
    c.data.analysed = data.analysed := by
  cases point with
  | reporting | ending | waiting => exact h.2.analysed
  | stopping analysed => cases analysed <;> cases hphase
  | _ => cases hphase

/-- **Handlers as single steps.** Let alarms come between any two statements of `entryHandler`,
`faultHandler` and `stopWorker`, and SIGUSR2s where they find the worker as if it were between two
handlers. Then there is a run with handlers as single steps that comes to the same: the end of the
run is reported in both or in neither, the worker is stopped in both or in neither, a SIGUSR2 that
is in flight is so there, too, and whenever the worker executes its instruction or waits, its data
are the same, but for what the manager remembers of it. -/
theorem handlers_atomic (arch : ArchProperties) (search : InstrT → Bool) (analyse : AnalysisStage)
    (hblind : analyse.Blind) (page : Nat) (r : WorkRange) {s : Interleaving}
    (h : Transition.Reach (Interleaving.step (.exhaustive arch search analyse)) Calm
      (.init arch page r) s) :
    ∃ t c, Transition.Reach (System.step (.exhaustive arch search analyse)) (fun _ _ => True)
        (.init arch [(page, r)]) t ∧
      t.cells = [c] ∧ t.finished = s.finished ∧ c.data.isStopped = s.data.isStopped ∧
      (s.hangPending = true → c.hangPending = true) ∧
      (s.point = .executing → c.executing = true ∧ Same c.data s.data) ∧
      (s.point = .waiting → c.executing = false ∧ Same c.data s.data) := by
  obtain ⟨t, ht, c, htracked⟩ := exists_tracked hblind h
  have htracks := htracked.tracks
  refine ⟨t, c, ht, htracked.cells, htracked.finished, htracked.stopped, htracked.pending,
    fun hpoint => ?_, fun hpoint => ?_⟩
  · rw [hpoint] at htracks
    exact htracks
  · rw [hpoint] at htracks
    exact htracks

/-- A worker in the `faultHandler` of its first instruction, where the SIGUSR2 of the first alarm
hits it. SIGSEGV stays blocked. -/
def hitInHandler : List Interrupt :=
  List.replicate 5 .statement ++ [.tick, .fault ⟨11, ⟨1, 0⟩, ⟨0⟩⟩, .statement,
    .deliver ⟨12, ⟨0, 0⟩, ⟨0⟩⟩]

/-- The next instruction raises a SIGILL, with an alarm inside the handler; another SIGSEGV kills
the worker. -/
theorem handlers_atomic_ten : ∃ t c, Transition.Reach (System.step .plain) (fun _ _ => True)
    (.init .aarch64 [(4096, .upTo 9)]) t ∧ t.cells = [c] ∧ c.data.analysed = [0, 1] := by
  have hrun : (Transition.replay (Interleaving.step .plain) Calm
      (hitInHandler ++ .fault ⟨4, ⟨1, 0⟩, ⟨0⟩⟩ :: List.replicate 4 .statement ++
        .tick :: List.replicate 8 .statement)
      (.init .aarch64 4096 (.upTo 9))).bind (fun s =>
        (s.step .plain (.fault ⟨11, ⟨1, 0⟩, ⟨0⟩⟩)).map fun s' =>
          (s.data.analysed, s'.point.alive)) = some ([0, 1], false) := by
    decide +kernel
  obtain ⟨s, hs, hfault⟩ := Option.bind_eq_some_iff.mp hrun
  obtain ⟨s', hs', hvalue⟩ := Option.map_eq_some_iff.mp hfault
  have hanalysed : s.data.analysed = [0, 1] := (Prod.mk.inj hvalue).1
  have hpoint : s.point = .executing := (Interleaving.step_cases hs').1
  obtain ⟨t, c, ht, hcells, -, -, -, hsame, -⟩ := handlers_atomic .aarch64 (fun _ => false)
    (basicAnalysis fun _ => true) (blind_basicAnalysis fun _ => rfl) 4096 (.upTo 9)
    (Transition.reach_of_replay hs)
  exact ⟨t, c, ht, hcells, ((hsame hpoint).2.analysed).trans hanalysed⟩

/-- **The completion report under interruptions.** When the manager has reported the end of the run,
every instruction of the range that is not blacklisted has been analysed, once and in its turn. -/
theorem interrupted_finished_covered (arch : ArchProperties) (search : InstrT → Bool)
    (analyse : AnalysisStage) (hblind : analyse.Blind) (page : Nat) (r : WorkRange)
    {s : Interleaving}
    (h : Transition.Reach (Interleaving.step (.exhaustive arch search analyse)) Calm
      (.init arch page r) s) (hfin : s.finished = true) :
    (∀ w ∈ r, search w = false → w ∈ s.data.analysed) ∧ s.data.analysed.Pairwise (· < ·) := by
  have horderly := reach_orderly (h.mono fun _ _ hok => hok.undisturbed)
  obtain ⟨t, ht, c, htracked⟩ := exists_tracked hblind h
  have htruthful : Truthful search [r] t :=
    ht.invariant (fun _ _ _ _ hs hstep => Truthful.step hs hstep) (Truthful.init arch [(page, r)])
  have hc : c ∈ t.cells := by
    rw [htracked.cells]
    exact List.mem_singleton_self c
  have hrange : c.range = r := by
    have hranges := htruthful.ranges
    rw [htracked.cells] at hranges
    exact List.singleton_inj.mp hranges
  have hstopped := htruthful.finished (htracked.finished.trans hfin) c hc
  have hphase := horderly.stopped.mp (htracked.stopped.symm.trans hstopped)
  have hcovered := (htruthful.covered c hc).stopped hstopped
  rw [hrange, htracked.tracks.analysed hphase] at hcovered
  exact ⟨hcovered, horderly.sorted⟩

/-- One worker for the instructions 0 and 1, with an alarm inside the `faultHandler` of 1. -/
theorem interrupted_finished_covered_one : ∃ s : Interleaving, s.finished = true ∧
    0 ∈ s.data.analysed ∧ 1 ∈ s.data.analysed ∧ s.data.analysed.Pairwise (· < ·) := by
  have hrun : (Transition.replay (Interleaving.step .plain) Calm
      (hitInHandler ++ .fault ⟨4, ⟨1, 0⟩, ⟨0⟩⟩ :: List.replicate 3 .statement ++
        .tick :: List.replicate 8 .statement ++ [.tick]) (.init .aarch64 4096 (.upTo 1))).map
      (·.finished) = some true := by
    decide +kernel
  obtain ⟨s, hs, hfin⟩ := Option.map_eq_some_iff.mp hrun
  obtain ⟨hall, hsorted⟩ := interrupted_finished_covered .aarch64 (fun _ => false)
    (basicAnalysis fun _ => true) (blind_basicAnalysis fun _ => rfl) 4096 (.upTo 1)
    (Transition.reach_of_replay hs) hfin
  exact ⟨s, hfin, hall 0 ⟨by decide, by decide⟩ rfl, hall 1 ⟨by decide, by decide⟩ rfl, hsorted⟩

end

end

end IScanU
