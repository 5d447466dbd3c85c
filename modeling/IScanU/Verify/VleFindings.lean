import IScanU.Verify.InstructionPage
import IScanU.Verify.RVDisas.Parcels
import IScanU.Verify.VleRun
import IScanU.Verify.WholeScan

/-! # What a variable-length scan reports

Short instructions are put to the disassembler under `disas/`, the others to Capstone, which reads
them from the instruction page. As the page holds the current instruction whenever it is executed,
the lines of a run depend on what was executed and how it came out alone (`vle_findings`). For
parcels that do not begin a longer instruction the verdict is a matter of seven patterns. -/

namespace IScanU.RV64GC

/-- The call `disasm_inst(rv64, 0x1000, currentInstruction)`. -/
def disasmInst (w : InstrT) : Bool := RVDisas.disasmInst .rv64 0x1000 (w.setWidth 64)

theorem disasmInst_parcel_iff {w : InstrT} (h : w &&& 0b11 ≠ 0b11) :
    disasmInst w = true ↔ ∀ p ∈ RVDisas.rejected, w.setWidth 16 ∉ p := by
  have hlow : w.setWidth 64 &&& 0b11#64 ≠ 0b11#64 := fun h64 => h <| by
    have hback := congrArg (BitVec.setWidth 32) h64
    rwa [BitVec.setWidth_and, BitVec.setWidth_setWidth_of_le _ (by decide), BitVec.setWidth_eq] at hback
  rw [disasmInst, RVDisas.disasmInst_iff, RVDisas.decodeInst_parcel .rv64 0x1000 hlow,
    BitVec.setWidth_setWidth_of_le _ (by decide)]

section
variable (csDisasmIter : List Byte → Bool)

/-- Does the disassembler know the instruction? -/
def recognised (x : Nat × InstrT) : Bool :=
  if x.1 = 4 then csDisasmIter (instrBytes x.2 4)
  else if x.2 &&& 0b11 = 0b11 then disasmInst x.2
  else decide (∀ p ∈ RVDisas.rejected, x.2.setWidth 16 ∉ p)

/-- The lines for what is executed in `s`, when it comes out as `o`. -/
def outcomeLines (o : Outcome) (s : Scanner) : List String :=
  if raises o s then []
  else verdict (recognised csDisasmIter (executed s)) s.currentInstruction (recordedSignal o).signo
    (recordedSignal o).info.siCode

theorem disassemble_loaded {data : Scanner} (h : Loaded data) :
    disassemble csDisasmIter disasmInst data = recognised csDisasmIter (executed data) := by
  have hread := h.instruction
  rw [disassemble, recognised, executed]
  obtain hsize | hsize := h.size
  all_goals
    rw [hsize] at hread ⊢
  · simp only [ArchProperties.rv64gc_instructionSizeUC, ArchProperties.rv64gc_instructionSize,
      Nat.reduceEqDiff, if_false, if_true]
    split
    · rfl
    · rename_i hlow
      rw [Bool.eq_iff_iff, disasmInst_parcel_iff hlow, decide_eq_true_eq]
  · simp [hread]

/-! ## The steps -/

theorem Loaded.executed {data : Scanner} {e : Execution} (h : Loaded data)
    (hspares : SparesPage e data) : Loaded { data with mem := e.mem } := by
  refine ⟨h.toRestored.executed hspares, (readBytes_congr fun a hle hlt => ?_).trans h.instruction⟩
  have := h.pointer
  have := h.size
  refine hspares a ?_ ?_ <;> simp only [ArchProperties.rv64gc_pageSize] at * <;> omega

section
variable {search : InstrT → Bool}

/-- What the fetch stage does not touch. -/
structure Untouched (f : Scanner → β) : Prop where
  count : ∀ d n, f (Scanner.count d n) = f d
  setSize : ∀ d n, f (setSize d n) = f d
  sizeError : ∀ d b, f { d with sizeError := b } = f d
  mem : ∀ d m, f { d with mem := m } = f d

section
variable {f : Scanner → β} (hf : Untouched f)
include hf

theorem Untouched.lowLoop {part0 temp : InstrT} {data : Scanner} :
    f (lowLoop search part0 temp data).2 = f data := by
  fun_induction RV64GC.lowLoop search part0 temp data with
  | case1 => rfl
  | case2 _ _ _ _ _ _ _ _ ih => exact ih.trans (hf.count ..)
  | case3 => exact hf.count ..

theorem Untouched.highLoop {part0 part1 temp : InstrT} {data : Scanner} :
    f (highLoop search part0 part1 temp data).state = f data := by
  fun_induction RV64GC.highLoop search part0 part1 temp data with
  | case1 => rfl
  | case2 => exact (hf.setSize ..).trans (hf.mem ..)
  | case3 _ _ _ _ _ _ _ _ _ ih => exact ih.trans (hf.count ..)
  | case4 => exact hf.count ..

theorem Untouched.vleExhaustive (data : Scanner) :
    f (vleExhaustive search data).2 = f data := by
  unfold RV64GC.vleExhaustive
  split
  · exact (hf.setSize ..).trans ((hf.sizeError ..).trans (hf.count ..))
  · simp only
    split
    · have hhigh : f (RV64GC.highLoop search (data.currentInstruction &&& partMask.1)
          ((data.currentInstruction &&& partMask.2) >>> 16) data.currentInstruction data).state =
          f data := hf.highLoop
      generalize RV64GC.highLoop search _ _ data.currentInstruction data = left at hhigh ⊢
      cases left with
      | finished => exact hhigh
      | found => exact hhigh
      | exhausted => exact hf.lowLoop.trans hhigh
    · exact hf.lowLoop

end

theorem untouched_outputFD : Untouched Scanner.outputFD :=
  ⟨fun _ _ => rfl, fun _ _ => rfl, fun _ _ => rfl, fun _ _ => rfl⟩

theorem vleExhaustive_outputFD (data : Scanner) :
    (vleExhaustive search data).2.outputFD = data.outputFD :=
  untouched_outputFD.vleExhaustive data

theorem findings_executionStep {e : Execution} {data : Scanner} (h : Loaded data)
    (hspares : SparesPage e data) :
    findings (executionStep (config csDisasmIter disasmInst search) e data).state =
      findings data ++ outcomeLines csDisasmIter e.outcome data := by
  have hverdict := disassemble_loaded csDisasmIter (h.executed hspares)
  have hlines : ∀ d sig, d.currentInstruction = data.currentInstruction →
      fetchFaulted (recordSignal d sig) = fetchFaulted (recordSignal data sig) →
      disassemble csDisasmIter disasmInst d = recognised csDisasmIter (executed data) →
      (basicAnalysisAndSizeCheckRiscv csDisasmIter disasmInst).lines (recordSignal d sig) =
        if fetchFaulted (recordSignal data sig) then []
        else verdict (recognised csDisasmIter (executed data)) data.currentInstruction sig.signo
          sig.info.siCode := by
    intro d sig hcur hfault hd
    have hd' : disassemble csDisasmIter disasmInst (recordSignal d sig) =
        disassemble csDisasmIter disasmInst d := rfl
    rw [basicAnalysisAndSizeCheckRiscv_lines, basicAnalysis_lines, hd', hd, hfault,
      recordSignal_currentInstruction, hcur]
    rfl
  rw [executionStep, findings_workerStep_of_fetch vleExhaustive_outputFD, outcomeLines, raises]
  cases e.outcome with
  | fault sig => exact congrArg (findings data ++ ·) (hlines _ sig rfl rfl hverdict)
  | hang sig => exact congrArg (findings data ++ ·) (hlines _ _ rfl rfl hverdict)

theorem findings_entryHandler_of_fetch {cfg : Config}
    (hfetch : ∀ data, (cfg.fetchInstruction data).2.outputFD = data.outputFD) (data : Scanner) :
    findings (entryHandler cfg data).state = findings data := by
  have hstart : findings (writeOutput data [.timestamp, .startOfRun]) = findings data := by
    simp [findings]
  simp only [entryHandler]
  split
  · have hkeep := hfetch (writeOutput data [.timestamp, .startOfRun])
    rcases hf : cfg.fetchInstruction (writeOutput data [.timestamp, .startOfRun]) with ⟨_ | w, d⟩
    all_goals
      rw [hf] at hkeep
      have hfound : findings d = findings data := by rw [findings, hkeep, ← findings, hstart]
      simp only [Control.state]
    · rw [findings_stopWorker, hfound]
    · exact hfound
  · exact hstart

end

/-- **What a scan reports.** If no instruction writes its page, a run writes the lines of what was
executed, in order. An instruction with a size error has none, a parcel that does not end in `11`
is unknown if it is in one of the seven rejected patterns, and Capstone is asked about an
instruction of full size. -/
theorem vle_findings (search : InstrT → Bool) (page : Nat) (r : WorkRange) (es : List Execution) :
    let step := executionStep (config csDisasmIter disasmInst search)
    let c := entryHandler (config csDisasmIter disasmInst search)
      (workerMC .rv64gc page r.start r.final)
    (∀ p ∈ Control.steps step c es, SparesPage p.1 p.2) →
      findings (Control.exec step c es).state = (Control.steps step c es).flatMap
        fun p => outcomeLines csDisasmIter p.1.outcome p.2 := by
  intro step c hspares
  have hrestores := vleExhaustive_restores search
  have hentry : findings c.state = [] := findings_entryHandler_of_fetch vleExhaustive_outputFD _
  have hlog : findings (Control.exec step c es).state = findings c.state ++
      (Control.steps step c es).flatMap fun p => outcomeLines csDisasmIter p.1.outcome p.2 :=
    Control.exec_log
      (fun e s s' hok h hret => workerStep_loaded hrestores rfl (h.toRestored.executed hok) hret)
      (fun e s hok h => findings_executionStep csDisasmIter h hok) hspares
      (fun s hs => entryHandler_loaded hrestores (workerMC_restored page r.start r.final) hs)
  rw [hlog, hentry, List.nil_append]

end

/-- The processor of `trap`, whose instructions leave the memory as it is. -/
def trapExecution (sizeErr : InstrT → Bool) (data : Scanner) : Execution :=
  ⟨trap sizeErr data, data.mem⟩

theorem trapExecution_spares (sizeErr : InstrT → Bool) (data : Scanner) :
    SparesPage (trapExecution sizeErr data) data := fun _ _ _ => rfl

/-- The range of the parcel `p` alone. -/
@[simps] def oneParcel (p : InstrT) : WorkRange := ⟨p, p, BitVec.le_refl p⟩

/-- The entry of a worker for the parcel `p`. -/
def singleEntry (csDisasmIter : List Byte → Bool) (page : Nat) (p : InstrT) : Control Scanner :=
  entryHandler (config csDisasmIter disasmInst blacklist.search)
    (workerMC .rv64gc page (oneParcel p).start (oneParcel p).final)

/-- `n` instructions that the worker executes from there on. -/
def singleExecutions (csDisasmIter : List Byte → Bool) (sizeErr : InstrT → Bool) (page n : Nat)
    (p : InstrT) : List Execution :=
  Control.follow (executionStep (config csDisasmIter disasmInst blacklist.search))
    (trapExecution sizeErr) n (singleEntry csDisasmIter page p)

theorem singleExecutions_spare (csDisasmIter : List Byte → Bool) (sizeErr : InstrT → Bool)
    (page n : Nat) (p : InstrT) :
    ∀ q ∈ Control.steps (executionStep (config csDisasmIter disasmInst blacklist.search))
      (singleEntry csDisasmIter page p) (singleExecutions csDisasmIter sizeErr page n p),
      SparesPage q.1 q.2 := fun q hq => by
  rw [Control.steps_follow _ _ _ q hq]
  exact trapExecution_spares _ q.2

theorem steps_singleExecutions (csDisasmIter : List Byte → Bool) (sizeErr : InstrT → Bool)
    (page : Nat) {p : InstrT} (h : blacklist.search p = false) :
    Control.steps (executionStep (config csDisasmIter disasmInst blacklist.search))
        (singleEntry csDisasmIter page p) (singleExecutions csDisasmIter sizeErr page 1 p) =
      [(trapExecution sizeErr (singleEntry csDisasmIter page p).state,
        (singleEntry csDisasmIter page p).state)] := by
  have hcur : (writeOutput (workerMC .rv64gc page (oneParcel p).start (oneParcel p).final)
      [.timestamp, .startOfRun]).currentInstruction = p := rfl
  rw [singleExecutions, Control.follow, Control.follow, singleEntry, entryHandler]
  simp only [config_search, hcur, h]
  exact Control.steps_singleton ..

/-- `c.slli x1, 0` is a finding; the size error of `0x83` is none, but the longer instruction is. -/
theorem vle_findings_slli :
    let step := executionStep (config (fun _ => false) disasmInst blacklist.search)
    let entry := singleEntry (fun _ => false) 4096
    let slli := singleExecutions (fun _ => false) (fun _ => false) 4096 1 0x82
    let load := singleExecutions (fun _ => false) (fun _ => true) 4096 2 0x83
    findings (Control.exec step (entry 0x82) slli).state = ["H 130 5 1\n"] ∧
      (Control.steps step (entry 0x83) load).map (fun p => executed p.2) = [(2, 0x83), (4, 0x83)] ∧
      findings (Control.exec step (entry 0x83) load).state = ["H 131 5 1\n"] := by
  intro step entry slli load
  have hslli := vle_findings (fun _ => false) blacklist.search 4096 (oneParcel 0x82) slli
    (singleExecutions_spare _ _ _ _ _)
  have hload := vle_findings (fun _ => false) blacklist.search 4096 (oneParcel 0x83) load
    (singleExecutions_spare _ _ _ _ _)
  refine ⟨hslli.trans ?_, by decide +kernel, hload.trans (by decide +kernel)⟩
  have hsteps := steps_singleExecutions (fun _ => false) (fun _ => false) 4096
    (p := 0x82) (by decide)
  exact (congrArg (List.flatMap _) hsteps).trans (by decide +kernel)

end IScanU.RV64GC
