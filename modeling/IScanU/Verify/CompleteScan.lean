import IScanU.Verify.Exhaustive
import IScanU.ScannerManager

/-! # A worker left to itself scans its range

The run of one worker under the exhaustive fetch stage, for the memory cage with any pattern of
faults and hangs, and for the ptrace loop: it hands the non-blacklisted instructions of its range
to the analysis stage, in increasing order and each once, and then stops. -/

namespace IScanU

/-- The outcomes that are reported with a `HANG` line. -/
def Outcome.isHang : Outcome → Bool
  | .fault _ => false
  | .hang _ => true

/-- What a worker that has scanned the range leaves. -/
structure Scanned (search hung : InstrT → Bool) (r : WorkRange) (data : Scanner) : Prop where
  /-- It analysed in increasing order, -/
  sorted : data.analysed.Pairwise (· < ·)
  /-- exactly the non-blacklisted instructions of the range, -/
  exact : ∀ w, w ∈ data.analysed ↔ w ∈ r ∧ search w = false
  /-- reported exactly those of them that hang, -/
  hangs : data.hangOutputFD = data.analysed.filter hung
  /-- and stopped once. -/
  stopped : data.isStopped = true ∧ endsOfRun data = 1

section
variable {search hung : InstrT → Bool} {next : Scanner → Control Scanner} {J : Scanner → Prop}

/-- Folding a list into a pair of logs. -/
theorem foldl_logs (g : α → List β) (as : List α) (bs : List β) (l : List α) :
    l.foldl (fun p w => (p.1 ++ [w], p.2 ++ g w)) (as, bs) = (as ++ l, bs ++ l.flatMap g) := by
  induction l generalizing as bs with
  | nil => simp
  | cons w l ih => simp [ih]

/-- From an instruction on, the worker analyses that instruction and then the pending ones. `J` is
what the handlers keep and rely on. -/
theorem run_pending
    (hstep : ∀ data, J data → HandlerStep search (hung data.currentInstruction) data (next data))
    (hJ : ∀ data data', J data → next data = .resume data' → J data')
    {data : Scanner} (hdata : J data) :
    let todo := data.currentInstruction ::
      pending search data.currentInstruction data.finalInstruction
    ∃ data', .run next todo.length (.resume data) = Control.halt data' ∧
      data'.analysed = data.analysed ++ todo ∧
      data'.hangOutputFD = data.hangOutputFD ++ todo.filter hung ∧
      data'.isStopped = true ∧ endsOfRun data' = endsOfRun data + 1 := by
  have hlog : ∀ d d', Handled (hung d.currentInstruction) d d' →
      (d'.analysed, d'.hangOutputFD) = (d.analysed ++ [d.currentInstruction],
        d.hangOutputFD ++ [d.currentInstruction].filter hung) := by
    intro d d' h
    simp [h.analysed, h.hangs, List.filter_cons]
  obtain ⟨data', hrun, ⟨hstop, hends⟩, hlogs⟩ :=
    Control.run_queue (J := fun d => J d ∧ endsOfRun d = endsOfRun data)
      (Q := fun d => d.isStopped = true ∧ endsOfRun d = endsOfRun data + 1)
      (q := fun d => pending search d.currentInstruction d.finalInstruction)
      (i := Scanner.currentInstruction) (o := fun d => (d.analysed, d.hangOutputFD))
      (f := fun p w => (p.1 ++ [w], p.2 ++ [w].filter hung))
      (fun d hd hq => by
        obtain ⟨d', hc, _, hh, hstop, hends⟩ := (hstep d hd.1).of_nil hq
        exact ⟨d', hc, ⟨hstop, hd.2 ▸ hends⟩, hlog d d' hh⟩)
      (fun d w ws hd hq => by
        obtain ⟨d', hc, hw, hws, hh, _, hends⟩ := (hstep d hd.1).of_cons hq
        exact ⟨d', hc, ⟨hJ d d' hd.1 hc, hends.trans hd.2⟩, hw, hws, hlog d d' hh⟩) ⟨hdata, rfl⟩
  rw [foldl_logs, Prod.mk.injEq] at hlogs
  refine ⟨data', hrun, hlogs.1, ?_, hstop, hends⟩
  rw [hlogs.2, ← List.filter_flatMap, List.flatMap_singleton']

/-- The whole run: entry, then one handler per instruction. -/
theorem run_worklist {data : Scanner} {c : Control Scanner}
    (hentry : EntryStep search data c)
    (hstep : ∀ data, J data → HandlerStep search (hung data.currentInstruction) data (next data))
    (hJ : ∀ data data', J data → next data = .resume data' → J data')
    (hentered : ∀ data', c = .resume data' → J data') :
    let todo := worklist search data.currentInstruction data.finalInstruction
    ∃ data', .run next todo.length c = Control.halt data' ∧
      data'.analysed = data.analysed ++ todo ∧
      data'.hangOutputFD = data.hangOutputFD ++ todo.filter hung ∧
      data'.isStopped = true ∧ endsOfRun data' = endsOfRun data + 1 := by
  cases hentry with
  | last hw _ he hstop hends =>
    rw [hw]
    exact ⟨_, rfl, by simp [he.analysed], by simp [he.hangs], hstop, hends⟩
  | next hw he _ hends =>
    obtain ⟨data', hrun, ha, hh, hstop, hends'⟩ := run_pending hstep hJ (hentered _ rfl)
    have hq := worklist_tail hw
    rw [he.final, hq] at hrun ha hh
    rw [hw]
    exact ⟨data', hrun, he.analysed ▸ ha, he.hangs ▸ hh, hstop, hends ▸ hends'⟩

/-- A worker with nothing analysed or written yet ends with its range scanned. -/
theorem run_scanned {r : WorkRange} {data : Scanner} {c : Control Scanner}
    (hentry : EntryStep search data c)
    (hstep : ∀ data, HandlerStep search (hung data.currentInstruction) data (next data))
    (hstart : data.currentInstruction = r.start) (hfinal : data.finalInstruction = r.final)
    (hfresh : data.analysed = [] ∧ data.hangOutputFD = [] ∧ data.outputFD = []) :
    ∃ n data', .run next n c = Control.halt data' ∧ Scanned search hung r data' := by
  obtain ⟨data', hrun, ha, hh, hstop, hends⟩ := run_worklist (J := fun _ => True) hentry
    (fun data _ => hstep data) (fun _ _ _ _ => trivial) fun _ _ => trivial
  rw [hstart, hfinal] at ha hh
  rw [hfresh.1, List.nil_append] at ha
  rw [hfresh.2.1, List.nil_append, ← ha] at hh
  refine ⟨_, data', hrun, ?_, ?_, hh, hstop, ?_⟩
  · rw [ha]
    exact worklist_sorted r.ordered
  · intro w
    rw [ha, mem_worklist r.ordered, WorkRange.mem_iff]
  · rw [hends, endsOfRun, hfresh.2.2]
    rfl

end

section
variable (arch : ArchProperties) (search : InstrT → Bool) (analyse : AnalysisStage)

theorem workerStep_step (oracle : InstrT → Outcome) (data : Scanner) :
    HandlerStep search (oracle data.currentInstruction).isHang data
      (workerStep (.exhaustive arch search analyse) (oracle data.currentInstruction) data) := by
  cases oracle data.currentInstruction with
  | fault sig => exact faultHandler_step arch search analyse sig data
  | hang sig => exact hangHandler_step arch search analyse sig data

/-- Both scan methods work through the whole range, whatever is blacklisted. -/
theorem worker_scans_range (page : Nat) (r : WorkRange) :
    (∀ oracle : InstrT → Outcome, ∃ n data,
      workerLoop (.exhaustive arch search analyse) oracle n (workerMC arch page r.start r.final) =
          .halt data ∧
        Scanned search (fun w => (oracle w).isHang) r data) ∧
    (∀ oracle : InstrT → Signal, ∃ n data,
      ptraceLoop (.exhaustive arch search analyse) oracle n (workerPtrace page r.start r.final) =
          .halt data ∧
        Scanned search (fun _ => false) r data) := by
  constructor
  · intro oracle
    exact run_scanned (entryHandler_step arch search analyse _)
      (workerStep_step arch search analyse oracle) rfl rfl ⟨rfl, rfl, rfl⟩
  · intro oracle
    exact run_scanned (ptraceEntry_step arch search analyse _)
      (fun data => ptraceStep_step arch search analyse _ data) rfl rfl ⟨rfl, rfl, rfl⟩

end

end IScanU
