import IScanU.Verify.Completion
import IScanU.Verify.WholeScan

/-! # The workers at the same time

`whole_scan` lets the workers run one after the other. Here they run at the same time, between the
alarms of the manager, and in any order. What they have written when the manager reports the end of
the run is the same (`concurrent_scan`). -/

namespace IScanU

deriving instance DecidableEq for Outcome

/-- The workers behave as the oracle says: an instruction raises its signal, or a SIGUSR2 finds it
under execution. -/
def Behaved (oracle : InstrT → Outcome) : Event → System → Prop
  | .tick, _ | .worker _ .start, _ => True
  | .worker i (.fault sig), s =>
    ∀ c ∈ s.cells[i]?, oracle c.data.currentInstruction = .fault sig
  | .worker i (.deliver sig), s | .worker i (.spurious sig), s =>
    ∀ c ∈ s.cells[i]?, c.executing = true ∧ oracle c.data.currentInstruction = .hang sig

instance (oracle : InstrT → Outcome) : ∀ e s, Decidable (Behaved oracle e s)
  | .tick, _ | .worker _ .start, _ => inferInstanceAs (Decidable True)
  | .worker i (.fault sig), s => inferInstanceAs (Decidable (∀ c ∈ s.cells[i]?,
      oracle c.data.currentInstruction = .fault sig))
  | .worker i (.deliver sig), s | .worker i (.spurious sig), s =>
    inferInstanceAs (Decidable (∀ c ∈ s.cells[i]?,
      c.executing = true ∧ oracle c.data.currentInstruction = .hang sig))

theorem report_concat (hung : InstrT → Bool) (lines : InstrT → List String) (done : List InstrT)
    (w : InstrT) : reportNext hung lines (report hung lines done) w =
      report hung lines (done ++ [w]) := by
  simp [reportNext, report]

section
variable (csDisasmIter : List Byte → Bool) (search : InstrT → Bool) (oracle : InstrT → Outcome)

/-- What there is to be written of a range. -/
abbrev reportOf (done : List InstrT) : List InstrT × List InstrT × List String :=
  report (fun w => (oracle w).isHang) (reported csDisasmIter oracle) done

/-- Where a worker is in its scan. -/
inductive Reporting (c : Cell) : Prop
  | waiting : c.started = false → c.executing = false → c.data.isStopped = false →
      c.data.currentInstructionSize = 4 → c.data.currentInstruction = c.range.start →
      c.data.finalInstruction = c.range.final → written c.data = reportOf csDisasmIter oracle [] →
      Reporting c
  | working (done : List InstrT) : c.started = true → c.executing = true →
      c.data.isStopped = false → Caged c.data →
      worklist search c.range.start c.range.final = done ++ c.data.currentInstruction ::
        pending search c.data.currentInstruction c.data.finalInstruction →
      written c.data = reportOf csDisasmIter oracle done → Reporting c
  | stopped : c.started = true → c.executing = false →
      written c.data = reportOf csDisasmIter oracle (worklist search c.range.start c.range.final) →
      Reporting c

variable {csDisasmIter search oracle}

theorem Reporting.init (page : Nat) (r : WorkRange) :
    Reporting csDisasmIter search oracle (.init .aarch64 page r) :=
  .waiting rfl rfl rfl rfl rfl rfl rfl

/-- The start signal. -/
theorem Reporting.start {c c' : Cell} (h : Reporting csDisasmIter search oracle c)
    (hstep : c.step (Aarch64.config csDisasmIter search) .start = some c') :
    Reporting csDisasmIter search oracle c' := by
  simp only [Cell.step, Option.ite_none_left_eq_some, Option.some.injEq] at hstep
  obtain ⟨hstart, rfl⟩ := hstep
  cases h with
  | working _ hstarted => exact absurd hstarted hstart
  | stopped hstarted => exact absurd hstarted hstart
  | waiting _ _ hrun hsize hcur hfinal hwritten =>
    have hentry := entryHandler_step .aarch64 search
      (basicAnalysis (Aarch64.disassemble csDisasmIter)) c.data
    have henter : written (entryHandler (Aarch64.config csDisasmIter search) c.data).state =
        reportOf csDisasmIter oracle [] := by
      rw [← hwritten]
      simp only [written, Prod.mk.injEq]
      exact ⟨hentry.entered.analysed, hentry.entered.hangs, findings_entryHandler ..⟩
    have hcaged := fun d hc => @entryHandler_caged .aarch64 search
      (basicAnalysis (Aarch64.disassemble csDisasmIter)) c.data d hc hsize
    change EntryStep search c.data (entryHandler (Aarch64.config csDisasmIter search) c.data)
      at hentry
    change ∀ d, entryHandler (Aarch64.config csDisasmIter search) c.data = .resume d → Caged d
      at hcaged
    generalize entryHandler (Aarch64.config csDisasmIter search) c.data = left
      at hentry henter hcaged
    cases hentry with
    | @next d ws hw he hstop =>
      refine .working [] rfl rfl (hstop.trans hrun) (hcaged _ rfl) ?_ henter
      rw [hcur, hfinal] at hw
      change worklist search c.range.start c.range.final = d.currentInstruction :: _
      rw [hw]
      exact congrArg _ ((worklist_tail hw).symm.trans (by rw [← hfinal, ← he.final]; rfl))
    | last hw =>
      rw [hcur, hfinal] at hw
      exact .stopped rfl rfl (hw ▸ henter)

/-- A handler of an instruction that has come out as the oracle says. -/
theorem Reporting.handled {c c' : Cell} (h : Reporting csDisasmIter search oracle c)
    (hexec : c.executing = true) (hrange : c'.range = c.range) (hstarted : c'.started = c.started)
    (hdata : c'.data = (c.handled (workerStep (Aarch64.config csDisasmIter search)
      (oracle c.data.currentInstruction) c.data)).data)
    (hexec' : c'.executing = (c.handled (workerStep (Aarch64.config csDisasmIter search)
      (oracle c.data.currentInstruction) c.data)).executing) :
    Reporting csDisasmIter search oracle c' := by
  cases h with
  | waiting _ hwait => rw [hexec] at hwait; cases hwait
  | stopped _ hwait => rw [hexec] at hwait; cases hwait
  | working done hbegun _ hrun hcaged htodo hwritten =>
    have hstep : HandlerStep search _ c.data (workerStep (Aarch64.config csDisasmIter search)
        (oracle c.data.currentInstruction) c.data) :=
      workerStep_step .aarch64 search (basicAnalysis (Aarch64.disassemble csDisasmIter)) oracle c.data
    have hadd := written_workerStep csDisasmIter search oracle hcaged
    have hkeep := fun d hc => @workerStep_caged csDisasmIter search oracle c.data d hc hcaged
    rw [hwritten, report_concat] at hadd
    generalize workerStep (Aarch64.config csDisasmIter search)
      (oracle c.data.currentInstruction) c.data = left at hdata hexec' hstep hadd hkeep
    cases hstep with
    | @next d ws hp hd hstop =>
      have htail : pending search d.currentInstruction d.finalInstruction = ws :=
        hd.final ▸ (pending_tail hp).2
      refine .working (done ++ [c.data.currentInstruction]) (hstarted.trans hbegun) hexec' ?_ ?_ ?_ ?_
      · exact hdata ▸ hstop.trans hrun
      · exact hdata ▸ hkeep d rfl
      · rw [hrange, htodo, hp, hdata, List.append_assoc]
        exact congrArg (done ++ c.data.currentInstruction :: d.currentInstruction :: ·) htail.symm
      · exact hdata ▸ hadd
    | last hp =>
      refine .stopped (hstarted.trans hbegun) hexec' ?_
      rw [hrange, htodo, hp]
      exact hdata ▸ hadd

theorem Reporting.step {s : System} {i : Nat} {e : CellEvent} {c c' : Cell}
    (h : Reporting csDisasmIter search oracle c) (hc : s.cells[i]? = some c)
    (hok : Behaved oracle (.worker i e) s)
    (hstep : c.step (Aarch64.config csDisasmIter search) e = some c') :
    Reporting csDisasmIter search oracle c' := by
  cases e with
  | start => exact h.start hstep
  | fault sig =>
    have horacle : oracle c.data.currentInstruction = .fault sig := hok c hc
    simp only [Cell.step, Option.ite_none_right_eq_some, Option.some.injEq] at hstep
    obtain ⟨hexec, rfl⟩ := hstep
    exact h.handled hexec rfl rfl (by rw [horacle]; rfl) (by rw [horacle]; rfl)
  | deliver sig =>
    obtain ⟨hexec, horacle⟩ : c.executing = true ∧ oracle c.data.currentInstruction = .hang sig :=
      hok c hc
    simp only [Cell.step, Option.ite_none_right_eq_some, Option.some.injEq] at hstep
    obtain ⟨-, rfl⟩ := hstep
    exact h.handled hexec rfl rfl (by rw [horacle]; rfl) (by rw [horacle]; rfl)
  | spurious sig =>
    obtain ⟨hexec, horacle⟩ : c.executing = true ∧ oracle c.data.currentInstruction = .hang sig :=
      hok c hc
    simp only [Cell.step, Option.some.injEq] at hstep
    subst hstep
    exact h.handled hexec rfl rfl (by rw [horacle]; rfl) (by rw [horacle]; rfl)

/-- An alarm. -/
theorem Reporting.alarmed {c : Cell} (h : Reporting csDisasmIter search oracle c) (m : Manager)
    (signalled : Bool) :
    Reporting csDisasmIter search oracle (c.alarmed (m.visit c.data) signalled) := by
  obtain ⟨n, hn⟩ := m.visit_eq c.data
  rw [hn]
  cases h with
  | waiting hstart hexec hrun hsize hcur hfinal hwritten =>
    exact .waiting hstart hexec hrun hsize hcur hfinal hwritten
  | working done hstart hexec hrun hcaged htodo hwritten =>
    exact .working done hstart hexec hrun ⟨hcaged.size, hcaged.bytes⟩ htodo hwritten
  | stopped hstart hexec hwritten => exact .stopped hstart hexec hwritten

theorem Reporting.system_step {e : Event} {s t : System}
    (h : ∀ c ∈ s.cells, Reporting csDisasmIter search oracle c) (hok : Behaved oracle e s)
    (hstep : s.step (Aarch64.config csDisasmIter search) e = some t) :
    ∀ c ∈ t.cells, Reporting csDisasmIter search oracle c := by
  refine System.step_forall hstep h (fun _ c hc => (h c hc).alarmed _ _) ?_
  rintro i e' c c' rfl hc hc'
  exact (h c (List.mem_of_getElem? hc)).step hc hok hc'

/-- When the manager has reported the end of the run, every worker has reported on its range. -/
theorem written_of_finished {workers : List (Nat × WorkRange)} {s : System}
    (h : Transition.Reach (System.step (Aarch64.config csDisasmIter search)) (Behaved oracle)
      (.init .aarch64 workers) s) (hfin : s.finished = true) :
    s.cells.map Cell.range = workers.map (·.2) ∧
      ∀ c ∈ s.cells, written c.data =
        reportOf csDisasmIter oracle (worklist search c.range.start c.range.final) := by
  have htruthful : Truthful search (workers.map (·.2)) s :=
    h.invariant (fun _ _ _ _ hs hstep => Truthful.step hs hstep) (Truthful.init .aarch64 workers)
  have hreporting : ∀ c ∈ s.cells, Reporting csDisasmIter search oracle c :=
    h.invariant (fun _ _ _ hok hs hstep => Reporting.system_step hs hok hstep) fun c hc => by
      obtain ⟨w, -, rfl⟩ := List.mem_map.1 hc
      exact .init w.1 w.2
  refine ⟨htruthful.ranges, fun c hc => ?_⟩
  have hstop := htruthful.finished hfin c hc
  cases hreporting c hc with
  | waiting _ _ hrun => rw [hrun] at hstop; cases hstop
  | working _ _ _ hrun => rw [hrun] at hstop; cases hstop
  | stopped _ _ hwritten => exact hwritten

end

/-- The ranges of the workers, which are not empty. -/
theorem exists_ranges {workers : List Scanner}
    (h : ∀ s ∈ workers, s.currentInstruction ≤ s.finalInstruction) :
    ∃ ranges : List WorkRange, ranges.map (fun r => (r.start, r.final)) =
      workers.map fun s => (s.currentInstruction, s.finalInstruction) := by
  induction workers with
  | nil => exact ⟨[], rfl⟩
  | cons s workers ih =>
    rw [List.forall_mem_cons] at h
    obtain ⟨ranges, hranges⟩ := ih h.2
    exact ⟨⟨s.currentInstruction, s.finalInstruction, h.1⟩ :: ranges, by simp [hranges]⟩

/-- **The concurrent scan.** Let the workers that the constructor sets up run at the same time, in
any order and between any alarms. When the manager has reported the end of the run, they have
reported, one after the other, on the instructions of the range that are not blacklisted, in order
and each once. -/
theorem concurrent_scan (csDisasmIter : List Byte → Bool) (search : InstrT → Bool)
    (oracle : InstrT → Outcome) {numThreads : BitVec 32} {first last : RegT} (hle : first ≤ last)
    (hlast : last.toNat < 2 ^ 32) (hthreads : 0 < numThreads.toInt)
    (h : first < last ∨ numThreads = 1) :
    let todo := worklist search (first.setWidth 32) (last.setWidth 32)
    ∃ (workers : List Scanner) (ranges : List WorkRange),
      ScannerManagerMC.create .aarch64 numThreads first last = some workers ∧
      ranges.map (fun r => (r.start, r.final)) =
        workers.map (fun s => (s.currentInstruction, s.finalInstruction)) ∧
      ∀ pages : List Nat, pages.length = ranges.length → ∀ s : System,
        Transition.Reach (System.step (Aarch64.config csDisasmIter search)) (Behaved oracle)
          (.init .aarch64 (pages.zip ranges)) s → s.finished = true →
        s.cells.flatMap (·.data.analysed) = todo ∧
          s.cells.flatMap (·.data.hangOutputFD) = todo.filter (fun w => (oracle w).isHang) ∧
          s.cells.flatMap (fun c => findings c.data) =
            todo.flatMap (reported csDisasmIter oracle) := by
  intro todo
  obtain ⟨workers, hcreate, htiles⟩ :=
    ScannerManager.create_tiles (ScannerManagerMC.keepsRange .aarch64) hle hlast hthreads h
  obtain ⟨ranges, hranges⟩ := exists_ranges fun s hs =>
    BitVec.le_def.2 (htiles.nonempty (interval s) (List.mem_map_of_mem hs))
  refine ⟨workers, ranges, hcreate, hranges, fun pages hpages s hreach hfin => ?_⟩
  obtain ⟨hcells, hwritten⟩ := written_of_finished hreach hfin
  rw [List.map_snd_zip (Nat.le_of_eq hpages.symm)] at hcells
  have htodo : s.cells.flatMap (fun c => worklist search c.range.start c.range.final) = todo := by
    have hall : workers.flatMap
        (fun s => worklist search s.currentInstruction s.finalInstruction) = _ :=
      flatMap_worklist htiles hlast
    rw [BitVec.ofNat_toNat, BitVec.ofNat_toNat] at hall
    have hpair := congrArg (List.flatMap fun p : InstrT × InstrT => worklist search p.1 p.2) hranges
    rw [List.flatMap_map, List.flatMap_map] at hpair
    have hcell := congrArg (List.flatMap fun r : WorkRange => worklist search r.start r.final) hcells
    rw [List.flatMap_map] at hcell
    exact hcell.trans (hpair.trans hall)
  have hforall : List.Forall₂ (fun c d => written d = report (fun w => (oracle w).isHang)
      (reported csDisasmIter oracle) (worklist search c.range.start c.range.final))
      s.cells (s.cells.map (·.data)) := by
    rw [List.forall₂_map_right_iff, List.forall₂_same]
    exact hwritten
  have hreports := flatMap_written hforall
  rw [List.flatMap_map, List.flatMap_map, List.flatMap_map, htodo] at hreports
  exact hreports

/-- Two workers for four instructions, one of which hangs. The second worker is the first to be
started and to end. -/
def twoWorkersRun : List Event :=
  [.worker 1 .start, .worker 1 (.fault guardPageFault), .worker 0 .start, .tick,
    .worker 1 (.fault guardPageFault), .worker 0 (.fault guardPageFault), .tick, .tick,
    .worker 0 (.deliver guardPageFault), .tick]

theorem concurrent_scan_two :
    let oracle w := if w = 1 then Outcome.hang guardPageFault else .fault guardPageFault
    let todo := worklist (fun _ => false) 0 3
    ∃ s : System, s.finished = true ∧ s.cells.flatMap (·.data.analysed) = todo ∧
      s.cells.flatMap (·.data.hangOutputFD) = todo.filter (fun w => (oracle w).isHang) ∧
      s.cells.flatMap (fun c => findings c.data) = todo.flatMap (reported decodesNop oracle) := by
  intro oracle todo
  obtain ⟨workers, ranges, hcreate, hranges, hscan⟩ := concurrent_scan decodesNop (fun _ => false)
    oracle (by decide : (0 : RegT) ≤ 3) (by decide) (by decide : 0 < (2 : BitVec 32).toInt)
    (.inl (by decide))
  have hworkers : ranges.map (fun r => (r.start, r.final)) = [(0, 1), (2, 3)] := by
    have heval : (ScannerManagerMC.create .aarch64 2 0 3).map
        (·.map fun s => (s.currentInstruction, s.finalInstruction)) = some [(0, 1), (2, 3)] := by
      decide
    rw [hcreate] at heval
    exact hranges.trans (Option.some.inj heval)
  obtain ⟨first, rest, rfl, hfirst, hrest⟩ := List.map_eq_cons_iff.1 hworkers
  obtain ⟨second, rfl, hsecond⟩ := List.map_eq_singleton_iff.1 hrest
  obtain ⟨start₀, final₀, _⟩ := first
  obtain ⟨start₁, final₁, _⟩ := second
  cases hfirst
  cases hsecond
  have hrun : (Transition.replay (System.step (Aarch64.config decodesNop fun _ => false))
      (Behaved oracle) twoWorkersRun (.init .aarch64
        ([0x1000, 0x2000].zip [⟨0, 1, by decide⟩, ⟨2, 3, by decide⟩]))).map (·.finished) =
      some true := by
    decide +kernel
  obtain ⟨s, hs, hfin⟩ := Option.map_eq_some_iff.1 hrun
  exact ⟨s, hfin, hscan [0x1000, 0x2000] rfl s (Transition.reach_of_replay hs) hfin⟩

end IScanU
