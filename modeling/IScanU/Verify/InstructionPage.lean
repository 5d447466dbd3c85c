import IScanU.RV64GC
import IScanU.ScannerManager
import IScanU.Verify.Exhaustive

/-! # What is on the instruction page

Whenever a handler returns to the instruction page of an RV64GC worker, the page holds the current
instruction, in its current size, as its last bytes, and the filler before it. The fetch stage and
the handlers keep only one half of this: before the write at their end everything below
`instructionPointer` is filler (`Restored`). The write establishes the other half. -/

namespace IScanU.RV64GC

theorem length_stdPage : (stdPage .rv64gc).length = ArchProperties.rv64gc.pageSize := by
  rw [stdPage, List.length_flatten, List.map_replicate, List.sum_replicate_nat, length_instrBytes]
  decide

/-- The page is ready for an instruction of the current size: `instructionPointer` is that far from
its end, and below it there is filler only. -/
structure Restored (data : Scanner) : Prop where
  size : data.currentInstructionSize = 2 ∨ data.currentInstructionSize = 4
  pointer : data.instructionPointer =
    data.instructionPage + ArchProperties.rv64gc.pageSize - data.currentInstructionSize
  filler : readBytes data.mem data.instructionPage
      (ArchProperties.rv64gc.pageSize - data.currentInstructionSize) =
    (stdPage .rv64gc).take (ArchProperties.rv64gc.pageSize - data.currentInstructionSize)

/-- The page is ready, and the current instruction is on it. -/
structure Loaded (data : Scanner) : Prop extends Restored data where
  instruction : readBytes data.mem data.instructionPointer data.currentInstructionSize =
    instrBytes data.currentInstruction data.currentInstructionSize

section
variable {data : Scanner}

theorem Restored.count (h : Restored data) (n : Nat) : Restored (data.count n) :=
  ⟨h.size, h.pointer, h.filler⟩

/-- A page that has just been written is ready for either size. -/
theorem Restored.of_writeStdPage {mem : Memory}
    (hmem : data.mem = memcpy mem data.instructionPage (stdPage .rv64gc))
    (hsize : data.currentInstructionSize = 2 ∨ data.currentInstructionSize = 4)
    (hpointer : data.instructionPointer =
      data.instructionPage + ArchProperties.rv64gc.pageSize - data.currentInstructionSize) :
    Restored data := by
  refine ⟨hsize, hpointer, ?_⟩
  have hread := readBytes_memcpy mem data.instructionPage (stdPage .rv64gc)
  rw [length_stdPage, ← hmem] at hread
  rw [← readBytes_take _ _ (Nat.sub_le _ data.currentInstructionSize), hread]

/-- Making room for a longer instruction. -/
theorem Restored.grow (h : Restored data) : Restored (setSize data 4) := by
  refine ⟨.inr rfl, rfl, ?_⟩
  have hle : 4096 - 4 ≤ 4096 - data.currentInstructionSize := by
    have := h.size
    omega
  have hfiller := congrArg (List.take (4096 - 4)) h.filler
  rw [ArchProperties.rv64gc_pageSize, readBytes_take _ _ hle, List.take_take,
    Nat.min_eq_left hle] at hfiller
  exact hfiller

/-- The write at the end of a handler. -/
theorem Restored.enter (h : Restored data) : Loaded (enterInstruction data) := by
  have hlen := length_instrBytes data.currentInstruction data.currentInstructionSize
  refine ⟨⟨h.size, h.pointer, ?_⟩, ?_⟩
  · refine (readBytes_congr fun a _ hlt => memcpy_of_not_mem ?_).trans h.filler
    have := h.pointer
    have := h.size
    rw [ArchProperties.rv64gc_pageSize] at *
    simp only [enterInstruction_instructionPage, enterInstruction_currentInstructionSize] at hlt
    omega
  · have hread := readBytes_memcpy data.mem data.instructionPointer
      (instrBytes data.currentInstruction data.currentInstructionSize)
    rwa [hlen] at hread

end

/-! ## The fetch stages -/

/-- The stage leaves the page ready. -/
def FetchRestores (fetch : FetchStage) : Prop := ∀ data, Restored data → Restored (fetch data).2

theorem exhaustive_restores (search : InstrT → Bool) : FetchRestores (exhaustive search) := by
  intro data h
  rw [exhaustive_eq]
  exact h.count _

section
variable {search : InstrT → Bool}

theorem lowLoop_restored {part0 temp : InstrT} {data : Scanner} (h : Restored data) :
    Restored (lowLoop search part0 temp data).2 := by
  fun_induction lowLoop search part0 temp data with
  | case1 => exact h
  | case2 _ _ _ _ _ _ _ _ ih => exact ih (h.count 1)
  | case3 => exact h.count 1

/-- The state that the loop over the high halves ends in. -/
def HighExit.state : HighExit → Scanner
  | .finished data | .found _ data | .exhausted _ data => data

theorem highLoop_restored {part0 part1 temp : InstrT} {data : Scanner} (h : Restored data) :
    Restored (highLoop search part0 part1 temp data).state := by
  fun_induction highLoop search part0 part1 temp data with
  | case1 => exact h
  | case2 => exact .of_writeStdPage rfl (.inl rfl) rfl
  | case3 _ _ _ _ _ _ _ _ _ ih => exact ih (h.count 1)
  | case4 => exact h.count 1

end

theorem vleExhaustive_restores (search : InstrT → Bool) : FetchRestores (vleExhaustive search) := by
  intro data h
  cases hsize : data.sizeError with
  | true =>
    simp only [vleExhaustive, hsize, if_true]
    have hcleared : Restored { data.count 1 with sizeError := false } :=
      ⟨h.size, h.pointer, h.filler⟩
    exact hcleared.grow
  | false =>
    simp only [vleExhaustive, hsize, Bool.false_eq_true, if_false]
    split
    · have hhigh := @highLoop_restored search (data.currentInstruction &&& partMask.1)
        ((data.currentInstruction &&& partMask.2) >>> 16) data.currentInstruction data h
      generalize highLoop search _ _ data.currentInstruction data = left at hhigh ⊢
      cases left with
      | finished => exact hhigh
      | found => exact hhigh
      | exhausted => exact lowLoop_restored hhigh
    · exact lowLoop_restored h

/-! ## The handlers -/

theorem Restored.setCurrent {data : Scanner} (h : Restored data) (w : InstrT) :
    Restored (data.setCurrent w) := ⟨h.size, h.pointer, h.filler⟩

section
variable {cfg : Config} {data data' : Scanner}

/-- This target has no pc relative writes to clean up after. -/
theorem restorePage_rv64gc (harch : cfg.arch = .rv64gc) (data : Scanner) :
    restorePage cfg data = data := by
  have hoffset : cfg.arch.maxPcRelativeWriteOffset = 0 := by
    rw [harch]
    rfl
  rw [restorePage, if_neg (not_not_intro hoffset)]

variable (hfetch : FetchRestores cfg.fetchInstruction)
include hfetch

theorem entryHandler_loaded (h : Restored data) (hret : entryHandler cfg data = .resume data') :
    Loaded data' := by
  have hready := hfetch (writeOutput data [.timestamp, .startOfRun]) ⟨h.size, h.pointer, h.filler⟩
  simp only [entryHandler] at hret
  split at hret
  · rcases hf : cfg.fetchInstruction (writeOutput data [.timestamp, .startOfRun]) with ⟨_ | w, d⟩
    · simp only [hf, reduceCtorEq] at hret
    · simp only [hf, Control.resume.injEq] at hret hready
      exact hret ▸ (hready.setCurrent w).enter
  · rw [Control.resume.injEq] at hret
    have hwritten : Restored (writeOutput data [.timestamp, .startOfRun]) :=
      ⟨h.size, h.pointer, h.filler⟩
    exact hret ▸ hwritten.enter

variable (harch : cfg.arch = .rv64gc)
include harch

theorem faultHandler_loaded {sig : Signal} (h : Restored data)
    (hret : faultHandler cfg sig data = .resume data') : Loaded data' := by
  have hready := hfetch (cfg.analyse.call (recordSignal data sig)) ⟨h.size, h.pointer, h.filler⟩
  simp only [faultHandler, restorePage_rv64gc harch] at hret
  rcases hf : cfg.fetchInstruction (cfg.analyse.call (recordSignal data sig)) with ⟨_ | w, d⟩
  · simp only [hf, reduceCtorEq] at hret
  · simp only [hf, Control.resume.injEq] at hret hready
    exact hret ▸ ((hready.count 1).setCurrent w).enter

theorem hangHandler_loaded {sig : Signal} (h : Restored data)
    (hret : hangHandler cfg sig data = .resume data') : Loaded data' := by
  simp only [hangHandler, harch] at hret
  generalize hcalled : cfg.analyse.call (recordSignal (writeHang data) { sig with signo := SIGSEGV }) =
    called at hret
  have hrewritten : Restored (writeStdPage .rv64gc called called.instructionPage) := by
    subst hcalled
    exact .of_writeStdPage rfl h.size h.pointer
  have hready := hfetch _ hrewritten
  rcases hf : cfg.fetchInstruction (writeStdPage .rv64gc called called.instructionPage) with ⟨_ | w, d⟩
  · simp only [hf, reduceCtorEq] at hret
  · simp only [hf, Control.resume.injEq] at hret hready
    exact hret ▸ (hready.setCurrent w).enter

theorem workerStep_loaded {o : Outcome} (h : Restored data)
    (hret : workerStep cfg o data = .resume data') : Loaded data' := by
  cases o with
  | fault sig => exact faultHandler_loaded hfetch harch h hret
  | hang sig => exact hangHandler_loaded hfetch harch h hret

end

/-! ## A run -/

/-- How an instruction comes out, and the memory that it leaves. -/
structure Execution where
  outcome : Outcome
  mem : Memory

/-- The handler that follows the execution of an instruction. -/
def executionStep (cfg : Config) (e : Execution) (data : Scanner) : Control Scanner :=
  workerStep cfg e.outcome { data with mem := e.mem }

/-- The instruction does not write the instruction page. -/
def SparesPage (e : Execution) (data : Scanner) : Prop :=
  ∀ a, data.instructionPage ≤ a → a < data.instructionPage + ArchProperties.rv64gc.pageSize →
    e.mem.byte a = data.mem.byte a

theorem Restored.executed {data : Scanner} {e : Execution} (h : Restored data)
    (hspares : SparesPage e data) : Restored { data with mem := e.mem } := by
  refine ⟨h.size, h.pointer, (readBytes_congr fun a hle hlt => ?_).trans h.filler⟩
  exact hspares a hle (hlt.trans_le (Nat.add_le_add_left (Nat.sub_le ..) _))

theorem workerMC_restored (page : Nat) (start final : InstrT) :
    Restored (workerMC .rv64gc page start final) :=
  .of_writeStdPage rfl (.inl rfl) rfl

/-- Whatever instructions do outside their page, and however they come out, every return to the page
finds the current instruction at its end and the filler before it. -/
theorem page_loaded (search : InstrT → Bool) (analyse : AnalysisStage) {fetch : FetchStage}
    (hfetch : fetch = vleExhaustive search ∨ fetch = exhaustive search) (page : Nat) (r : WorkRange)
    (es : List Execution) :
    let cfg : Config := ⟨.rv64gc, search, analyse, fetch⟩
    let c := entryHandler cfg (workerMC .rv64gc page r.start r.final)
    (∀ p ∈ Control.steps (executionStep cfg) c es, SparesPage p.1 p.2) →
      ∀ data, Control.exec (executionStep cfg) c es = .resume data → Loaded data := by
  intro cfg c hspares data hrun
  have hrestores : FetchRestores cfg.fetchInstruction := by
    obtain rfl | rfl := hfetch
    · exact vleExhaustive_restores search
    · exact exhaustive_restores search
  refine Control.exec_invariant (fun e s s' hok h hret => ?_) hspares (fun s hs => ?_) hrun
  · exact workerStep_loaded hrestores rfl (h.toRestored.executed hok) hret
  · exact entryHandler_loaded hrestores (workerMC_restored page r.start r.final) hs

/-- A scan in which every instruction is taken for the beginning of a longer one. -/
def sizeErrorConfig : Config where
  arch := .rv64gc
  search _ := false
  analyse := ⟨fun _ => [], fun _ => true⟩
  fetchInstruction := vleExhaustive fun _ => false

def sizeErrorEntry : Control Scanner :=
  entryHandler sizeErrorConfig (workerMC .rv64gc 0x10000 0x13 0x13)

/-- The instruction that faults and leaves the memory as it is. -/
def sizeErrorExecution : Execution := ⟨.fault default, sizeErrorEntry.state.mem⟩

/-- After a size error the page holds the same instruction in its full size. -/
theorem page_loaded_sizeError :
    ∃ data, Control.exec (executionStep sizeErrorConfig) sizeErrorEntry [sizeErrorExecution] =
        .resume data ∧
      data.currentInstructionSize = 4 ∧ Loaded data := by
  refine ⟨_, rfl, rfl, page_loaded (fun _ => false) ⟨fun _ => [], fun _ => true⟩ (.inl rfl) 0x10000
    ⟨0x13, 0x13, by decide⟩ [sizeErrorExecution] (fun p hp => ?_) _ rfl⟩
  obtain rfl := List.mem_singleton.1 hp
  exact fun _ _ _ => rfl

end IScanU.RV64GC
