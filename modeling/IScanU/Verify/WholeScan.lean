import IScanU.Verify.MethodAgreement
import IScanU.Verify.Partition
import IScanU.Verify.VleScan
import Mathlib.Data.List.Sort
import Mathlib.Data.List.Forall2

/-! # All workers of a memory cage scan

The intervals of the workers are laid end to end, so what the workers of an AArch64 scan have
analysed, written as findings and reported as hanging is, one worker after the other, what one
worker does with the whole range (`whole_scan`). The number of threads makes no difference. -/

namespace IScanU

open RV64GC (recordedSignal)

/-! ## One worker -/

section
variable {search : InstrT → Bool} {next : Scanner → Control Scanner} {J : Scanner → Prop}
  {o : Scanner → γ} {f : γ → InstrT → γ}

/-- If every handler folds its instruction into an observation, the run folds its whole worklist. -/
theorem run_observed (hung : InstrT → Bool)
    (hstep : ∀ data, HandlerStep search (hung data.currentInstruction) data (next data))
    (hadd : ∀ data, J data → o (next data).state = f (o data) data.currentInstruction)
    (hJ : ∀ data data', J data → next data = .resume data' → J data')
    {data : Scanner} {c : Control Scanner} (hentry : EntryStep search data c)
    (ho : o c.state = o data) (hc : ∀ d, c = .resume d → J d) :
    let todo := worklist search data.currentInstruction data.finalInstruction
    ∃ data', .run next todo.length c = Control.halt data' ∧ o data' = todo.foldl f (o data) := by
  cases hentry with
  | last hw =>
    rw [hw]
    exact ⟨_, rfl, ho⟩
  | @next d ws hw he _ _ =>
    obtain ⟨data', hrun, -, hlog⟩ :=
      Control.run_queue (J := J) (Q := fun _ => True)
        (q := fun d => pending search d.currentInstruction d.finalInstruction)
        (i := Scanner.currentInstruction) (o := o) (f := f)
        (fun d hd hq => by
          obtain ⟨d', hc, -⟩ := (hstep d).of_nil hq
          exact ⟨d', hc, trivial, by simpa [hc] using hadd d hd⟩)
        (fun d w ws hd hq => by
          obtain ⟨d', hc, hw, hws, -⟩ := (hstep d).of_cons hq
          exact ⟨d', hc, hJ d d' hd hc, hw, hws, by simpa [hc] using hadd d hd⟩) (hc d rfl)
    rw [he.final, worklist_tail hw] at hrun hlog
    rw [hw]
    exact ⟨data', hrun, by rw [hlog, ← ho]; rfl⟩

end

theorem findings_call (analyse : AnalysisStage) (data : Scanner) :
    findings (analyse.call data) = findings data ++ analyse.lines data := by
  simp [findings, List.filterMap_map]

theorem findings_stopWorker (data : Scanner) : findings (stopWorker data) = findings data := by
  simp [findings]

/-- A handler adds the lines of its analysis to the findings, if the fetch stage writes nothing. -/
theorem findings_workerStep_of_fetch {cfg : Config}
    (hfetch : ∀ data, (cfg.fetchInstruction data).2.outputFD = data.outputFD) (o : Outcome)
    (data : Scanner) :
    findings (workerStep cfg o data).state = findings data ++
      match o with
      | .fault sig => cfg.analyse.lines (recordSignal data sig)
      | .hang sig =>
        cfg.analyse.lines (recordSignal (writeHang data) { sig with signo := SIGSEGV }) := by
  have hkeep : ∀ d, findings (cfg.fetchInstruction d).2 = findings d := fun d => by
    rw [findings, hfetch, findings]
  cases o with
  | fault sig =>
    rcases hf : cfg.fetchInstruction (cfg.analyse.call (recordSignal data sig)) with ⟨_ | w, d⟩
    all_goals
      have hfound := (hkeep _).trans (findings_call cfg.analyse (recordSignal data sig))
      rw [hf] at hfound
      simp only [workerStep, faultHandler, hf, Control.state]
    · rw [findings_stopWorker]
      exact hfound
    · exact hfound
  | hang sig =>
    simp only [workerStep, hangHandler]
    generalize hcalled : cfg.analyse.call
      (recordSignal (writeHang data) { sig with signo := SIGSEGV }) = called
    have hfound := (hkeep (writeStdPage cfg.arch called called.instructionPage)).trans
      (congrArg findings hcalled.symm |>.trans (findings_call ..))
    rcases hf : cfg.fetchInstruction (writeStdPage cfg.arch called called.instructionPage) with
      ⟨_ | w, d⟩
    all_goals
      rw [hf] at hfound
      simp only [Control.state]
    · rw [findings_stopWorker]
      exact hfound
    · exact hfound

/-- What a worker has written so far: the analysed instructions, those that hung, and the lines of
the analysis stage. -/
def written (data : Scanner) : List InstrT × List InstrT × List String :=
  (data.analysed, data.hangOutputFD, findings data)

/-- What there is to be written of some instructions. -/
def report (hung : InstrT → Bool) (lines : InstrT → List String) (todo : List InstrT) :
    List InstrT × List InstrT × List String :=
  (todo, todo.filter hung, todo.flatMap lines)

section
variable (csDisasmIter : List Byte → Bool) (search : InstrT → Bool) (oracle : InstrT → Outcome)

/-- The lines written for an instruction that comes out as the oracle says. -/
def reported (w : InstrT) : List String :=
  verdict (csDisasmIter (instrBytes w 4)) w (recordedSignal (oracle w)).signo
    (recordedSignal (oracle w)).info.siCode

theorem workerStep_caged {data data' : Scanner}
    (hc : workerStep (Aarch64.config csDisasmIter search) (oracle data.currentInstruction) data =
      .resume data') (h : Caged data) : Caged data' := by
  cases ho : oracle data.currentInstruction with
  | fault sig =>
    rw [ho] at hc
    exact faultHandler_caged _ _ _ hc h.size
  | hang sig =>
    rw [ho] at hc
    simp only [workerStep, hangHandler, Aarch64.config, Config.exhaustive_fetchInstruction,
      Config.exhaustive_analyse, exhaustive_eq] at hc
    generalize List.head? _ = next at hc
    cases next with
    | none => cases hc
    | some w =>
      cases hc
      exact caged_enterInstruction (by simpa using h.size)

theorem findings_workerStep {data : Scanner} (h : Caged data) :
    findings (workerStep (Aarch64.config csDisasmIter search) (oracle data.currentInstruction)
      data).state = findings data ++ reported csDisasmIter oracle data.currentInstruction := by
  have hfetch : ∀ d, ((Aarch64.config csDisasmIter search).fetchInstruction d).2.outputFD =
      d.outputFD := fun d => by
    rw [Aarch64.config, Config.exhaustive_fetchInstruction, exhaustive_eq]
    rfl
  rw [findings_workerStep_of_fetch hfetch]
  cases ho : oracle data.currentInstruction <;>
    simp [reported, ho, recordedSignal, Aarch64.config, Aarch64.disassemble, h.size, h.bytes]

/-- A scanner as the constructor leaves it has written nothing. -/
structure New (arch : ArchProperties) (data : Scanner) : Prop where
  size : data.currentInstructionSize = arch.instructionSize
  output : data.outputFD = []
  hangs : data.hangOutputFD = []
  analysed : data.analysed = []
  sizeError : data.sizeError = false
  running : data.isStopped = false

/-- What one more instruction adds. -/
def reportNext (hung : InstrT → Bool) (lines : InstrT → List String)
    (p : List InstrT × List InstrT × List String) (w : InstrT) :
    List InstrT × List InstrT × List String :=
  (p.1 ++ [w], p.2.1 ++ [w].filter hung, p.2.2 ++ lines w)

theorem foldl_reportNext (hung : InstrT → Bool) (lines : InstrT → List String)
    (p : List InstrT × List InstrT × List String) (todo : List InstrT) :
    todo.foldl (reportNext hung lines) p =
      (p.1 ++ todo, p.2.1 ++ todo.filter hung, p.2.2 ++ todo.flatMap lines) := by
  induction todo generalizing p with
  | nil => simp
  | cons w todo ih =>
    rw [List.foldl_cons, ih]
    simp only [reportNext, List.append_assoc, List.singleton_append, List.flatMap_cons]
    rw [← List.filter_append, List.singleton_append]

theorem written_workerStep {data : Scanner} (h : Caged data) :
    written (workerStep (Aarch64.config csDisasmIter search) (oracle data.currentInstruction)
        data).state =
      reportNext (fun w => (oracle w).isHang) (reported csDisasmIter oracle) (written data)
        data.currentInstruction := by
  have hstep := (workerStep_step .aarch64 search
    (basicAnalysis (Aarch64.disassemble csDisasmIter)) oracle data).handled
  have hfind := findings_workerStep csDisasmIter search oracle h
  simp only [written, reportNext, Prod.mk.injEq]
  refine ⟨hstep.analysed, ?_, hfind⟩
  refine hstep.hangs.trans ?_
  rw [List.filter_cons, List.filter_nil]

/-- A worker that is left to itself reports on its worklist. -/
theorem worker_reports (page : Nat) {data : Scanner} (h : New .aarch64 data) :
    let todo := worklist search data.currentInstruction data.finalInstruction
    ∃ n data', workerLoop (Aarch64.config csDisasmIter search) oracle n
        (initScanner .aarch64 page data) = .halt data' ∧
      written data' =
        report (fun w => (oracle w).isHang) (reported csDisasmIter oracle) todo := by
  have hentry := entryHandler_step .aarch64 search
    (basicAnalysis (Aarch64.disassemble csDisasmIter)) (initScanner .aarch64 page data)
  have hwritten : written (initScanner .aarch64 page data) = ([], [], []) := by
    simp [written, findings, initScanner, h.output, h.hangs, h.analysed]
  have henter : written (entryHandler (Aarch64.config csDisasmIter search)
      (initScanner .aarch64 page data)).state = written (initScanner .aarch64 page data) := by
    simp only [written, Prod.mk.injEq]
    exact ⟨hentry.entered.analysed, hentry.entered.hangs, findings_entryHandler ..⟩
  obtain ⟨data', hrun, hlog⟩ := run_observed (J := Caged) (o := written)
    (f := reportNext (fun w => (oracle w).isHang) (reported csDisasmIter oracle))
    (fun w => (oracle w).isHang)
    (workerStep_step .aarch64 search (basicAnalysis (Aarch64.disassemble csDisasmIter)) oracle)
    (fun d hd => written_workerStep csDisasmIter search oracle hd)
    (fun d d' hd hc => workerStep_caged csDisasmIter search oracle hc hd) hentry henter
    (fun d hc => entryHandler_caged _ _ _ hc h.size)
  refine ⟨_, data', hrun, ?_⟩
  rw [hlog, foldl_reportNext, hwritten]
  rfl

end

/-! ## All workers -/

theorem createWorkers_new (arch : ArchProperties) (last ipt : RegT) (remaining i : Nat)
    (start final : RegT) : ∀ s ∈ ScannerManager.createWorkers
      (ScannerManagerMC.localScannerInit arch) last ipt remaining i start final, New arch s := by
  induction remaining generalizing i start final with
  | zero => exact fun s hs => absurd hs List.not_mem_nil
  | succ remaining ih =>
    rw [ScannerManager.createWorkers, List.forall_mem_cons]
    refine ⟨?_, ih _ _ _⟩
    split <;> exact ⟨rfl, rfl, rfl, rfl, rfl, rfl⟩

theorem create_new {arch : ArchProperties} {numThreads : BitVec 32} {first last : RegT}
    {workers : List Scanner} (h : ScannerManagerMC.create arch numThreads first last = some workers) :
    ∀ s ∈ workers, New arch s := by
  simp only [ScannerManagerMC.create, ScannerManager.create] at h
  split at h
  · cases h
  · cases h
    exact createWorkers_new _ _ _ _ _ _ _

/-- Two ranges that lie end to end. -/
theorem worklist_append {search : InstrT → Bool} {a m b : InstrT} (ham : a ≤ m) (hmb : m < b) :
    worklist search a m ++ worklist search (m + 1#32) b = worklist search a b := by
  have hsucc := Cyclic.succ_le_of_lt hmb
  have hnext := Cyclic.toNat_succ_of_lt hmb
  have hab : a ≤ b := BitVec.le_trans ham (BitVec.le_of_lt hmb)
  have hirrefl : Std.Irrefl (α := InstrT) (· < ·) := ⟨BitVec.lt_irrefl⟩
  refine List.Pairwise.eq_of_mem_iff (r := (· < ·)) ?_ (worklist_sorted hab) fun w => ?_
  · refine List.pairwise_append.2 ⟨worklist_sorted ham, worklist_sorted hsucc, fun x hx y hy => ?_⟩
    have hxm := ((mem_worklist ham).1 hx).1.2
    have hmy := ((mem_worklist hsucc).1 hy).1.1
    rw [BitVec.le_def] at hxm hmy
    rw [BitVec.lt_def]
    omega
  · rw [List.mem_append, mem_worklist ham, mem_worklist hsucc, mem_worklist hab, ← or_and_right]
    refine and_congr_left fun _ => ?_
    simp only [BitVec.le_def, BitVec.lt_def] at *
    omega

/-- The boundaries of a worker, from their numbers. -/
theorem eq_of_interval {s : Scanner} {a b : Nat} (h : interval s = (a, b)) :
    s.currentInstruction = BitVec.ofNat 32 a ∧ s.finalInstruction = BitVec.ofNat 32 b := by
  obtain ⟨rfl, rfl⟩ := Prod.mk.inj h
  rw [BitVec.ofNat_toNat, BitVec.ofNat_toNat, BitVec.setWidth_eq, BitVec.setWidth_eq]
  exact ⟨rfl, rfl⟩

/-- The worklists of workers whose intervals lie end to end. -/
theorem flatMap_worklist {search : InstrT → Bool} {a b : Nat} {workers : List Scanner}
    (h : Tiles a b (workers.map interval)) (hb : b < 2 ^ 32) :
    workers.flatMap (fun s => worklist search s.currentInstruction s.finalInstruction) =
      worklist search (BitVec.ofNat 32 a) (BitVec.ofNat 32 b) := by
  generalize hivs : workers.map interval = ivs at h
  induction h generalizing workers with
  | last _ =>
    obtain ⟨s, rfl, hs⟩ := List.map_eq_singleton_iff.1 hivs
    obtain ⟨hcur, hfinal⟩ := eq_of_interval hs
    rw [List.flatMap_singleton, hcur, hfinal]
  | @cons a m b ivs ham hrest ih =>
    obtain ⟨s, rest, rfl, hs, hmap⟩ := List.map_eq_cons_iff.1 hivs
    obtain ⟨hcur, hfinal⟩ := eq_of_interval hs
    have hmb := hrest.le
    have hnat : ∀ x, x ≤ b → (BitVec.ofNat 32 x).toNat = x := fun x hx => by
      rw [BitVec.toNat_ofNat, Nat.mod_eq_of_lt (Nat.lt_of_le_of_lt hx hb)]
    have hsucc : BitVec.ofNat 32 (m + 1) = BitVec.ofNat 32 m + 1#32 := BitVec.ofNat_add ..
    rw [List.flatMap_cons, ih hb hmap, hcur, hfinal, hsucc]
    refine worklist_append ?_ ?_
    · rw [BitVec.le_def, hnat a (by omega), hnat m (by omega)]
      exact ham
    · rw [BitVec.lt_def, hnat m (by omega), hnat b (Nat.le_refl b)]
      exact hmb

/-- Reports of several workers are put together from their worklists. -/
theorem flatMap_written {hung : InstrT → Bool} {lines : InstrT → List String}
    {todo : α → List InstrT} {workers : List α} {done : List Scanner}
    (h : List.Forall₂ (fun s d => written d = report hung lines (todo s)) workers done) :
    done.flatMap (·.analysed) = workers.flatMap todo ∧
      done.flatMap (·.hangOutputFD) = (workers.flatMap todo).filter hung ∧
      done.flatMap findings = (workers.flatMap todo).flatMap lines := by
  induction h with
  | nil => exact ⟨rfl, rfl, rfl⟩
  | @cons s d workers done hd _ ih =>
    obtain ⟨h1, h2, h3⟩ := ih
    simp only [written, report, Prod.mk.injEq] at hd
    simp only [List.flatMap_cons, List.filter_append, List.flatMap_append, hd, h1, h2, h3, and_self]

section
variable (csDisasmIter : List Byte → Bool) (search : InstrT → Bool) (oracle : InstrT → Outcome)

/-- The run of a worker from its start to its end. -/
def RunsTo (page : Nat) (data data' : Scanner) : Prop :=
  ∃ n, workerLoop (Aarch64.config csDisasmIter search) oracle n (initScanner .aarch64 page data) =
    .halt data'

/-- The workers of a scan all come to their end, and each has reported on its own interval. -/
theorem workers_report (page : Scanner → Nat) {numThreads : BitVec 32} {first last : RegT}
    (hle : first ≤ last) (hlast : last.toNat < 2 ^ 32) (hthreads : 0 < numThreads.toInt)
    (h : first < last ∨ numThreads = 1) :
    ∃ workers done, ScannerManagerMC.create .aarch64 numThreads first last = some workers ∧
      workers.flatMap (fun s => worklist search s.currentInstruction s.finalInstruction) =
        worklist search (first.setWidth 32) (last.setWidth 32) ∧
      List.Forall₂ (fun s d => RunsTo csDisasmIter search oracle (page s) s d) workers done ∧
      List.Forall₂ (fun s d => written d =
        report (fun w => (oracle w).isHang) (reported csDisasmIter oracle)
          (worklist search s.currentInstruction s.finalInstruction)) workers done := by
  obtain ⟨workers, hcreate, htiles⟩ :=
    ScannerManager.create_tiles (ScannerManagerMC.keepsRange .aarch64) hle hlast hthreads h
  have hworker : ∀ s ∈ workers, ∃ d, RunsTo csDisasmIter search oracle (page s) s d ∧
      written d = report (fun w => (oracle w).isHang) (reported csDisasmIter oracle)
        (worklist search s.currentInstruction s.finalInstruction) := fun s hs => by
    obtain ⟨n, d, hrun, hd⟩ :=
      worker_reports csDisasmIter search oracle (page s) (create_new hcreate s hs)
    exact ⟨d, ⟨n, hrun⟩, hd⟩
  have : Nonempty Scanner := ⟨.zero⟩
  choose! final hrun hwritten using hworker
  refine ⟨workers, workers.map final, hcreate, ?_, ?_, ?_⟩
  · rw [flatMap_worklist htiles hlast, BitVec.ofNat_toNat, BitVec.ofNat_toNat]
  · rw [List.forall₂_map_right_iff, List.forall₂_same]
    exact hrun
  · rw [List.forall₂_map_right_iff, List.forall₂_same]
    exact hwritten

/-- **The whole scan.** With any positive number of threads (a single value needs one) the workers
finish, and one after the other they have reported on the instructions of the range that are not
blacklisted, in order and each once. -/
theorem whole_scan (page : Scanner → Nat) {numThreads : BitVec 32} {first last : RegT}
    (hle : first ≤ last) (hlast : last.toNat < 2 ^ 32) (hthreads : 0 < numThreads.toInt)
    (h : first < last ∨ numThreads = 1) :
    let todo := worklist search (first.setWidth 32) (last.setWidth 32)
    ∃ workers done, ScannerManagerMC.create .aarch64 numThreads first last = some workers ∧
      List.Forall₂ (fun s d => RunsTo csDisasmIter search oracle (page s) s d) workers done ∧
      done.flatMap (·.analysed) = todo ∧
      done.flatMap (·.hangOutputFD) = todo.filter (fun w => (oracle w).isHang) ∧
      done.flatMap findings = todo.flatMap (reported csDisasmIter oracle) := by
  obtain ⟨workers, done, hcreate, htodo, hrun, hwritten⟩ :=
    workers_report csDisasmIter search oracle page hle hlast hthreads h
  refine ⟨workers, done, hcreate, hrun, ?_⟩
  rw [← htodo]
  exact flatMap_written hwritten

end

/-- Three workers for ten instructions, one of which hangs. -/
theorem whole_scan_three :
    let oracle w := if w = 7 then Outcome.hang guardPageFault else .fault guardPageFault
    let todo := worklist (· == 5) 0 9
    ∃ workers done, ScannerManagerMC.create .aarch64 3 0 9 = some workers ∧
      List.Forall₂ (fun s d => RunsTo decodesNop (· == 5) oracle 4096 s d) workers done ∧
      done.flatMap (·.analysed) = todo ∧
      done.flatMap (·.hangOutputFD) = todo.filter (fun w => (oracle w).isHang) ∧
      done.flatMap findings = todo.flatMap (reported decodesNop oracle) :=
  whole_scan decodesNop (· == 5)
    (fun w => if w = 7 then Outcome.hang guardPageFault else .fault guardPageFault)
    (fun _ => 4096) (by decide) (by decide) (by decide) (.inl (by decide))

end IScanU
