import IScanU.Verify.MemCage
import IScanU.Verify.VleFindings

/-! # The completion report of a variable-length scan

Whatever signals the workers handle and whatever the analysis makes of them, a worker stops only
when every parcel of its range that is not blacklisted has been analysed. So the manager reports the
end of the run truthfully for this target, too (`vle_finished_covered`). -/

namespace IScanU.RV64GC

/-- Where a worker may be in its range. -/
structure Placed (r : WorkRange) (data : Scanner) : Prop where
  final : data.finalInstruction = r.final
  mode : data.currentInstructionSize = 2 ∨ data.currentInstructionSize = 4
  parcel : low data.currentInstruction ∈ r
  short : data.currentInstructionSize = 2 → low data.currentInstruction = data.currentInstruction

/-- The worker has analysed the parcels that it has passed, and the one it completes. -/
structure Walking (search : InstrT → Bool) (r : WorkRange) (data : Scanner) : Prop
    extends Placed r data where
  passed : ∀ p ∈ r, search p = false → p < low data.currentInstruction → p ∈ data.analysed
  begun : data.currentInstructionSize = 4 → search (low data.currentInstruction) = false →
    low data.currentInstruction ∈ data.analysed

/-- All parcels of the range have been analysed. -/
def AllAnalysed (search : InstrT → Bool) (r : WorkRange) (data : Scanner) : Prop :=
  ∀ p ∈ r, search p = false → p ∈ data.analysed

section
variable {search : InstrT → Bool} {r : WorkRange} {data d : Scanner}

theorem Placed.congr (h : Placed r data) (hfinal : d.finalInstruction = data.finalInstruction)
    (hsize : d.currentInstructionSize = data.currentInstructionSize)
    (hcur : d.currentInstruction = data.currentInstruction) : Placed r d :=
  ⟨hfinal.trans h.final, hsize ▸ h.mode, hcur ▸ h.parcel, by rw [hsize, hcur]; exact h.short⟩

theorem Walking.congr (h : Walking search r data)
    (hfinal : d.finalInstruction = data.finalInstruction)
    (hsize : d.currentInstructionSize = data.currentInstructionSize)
    (hcur : d.currentInstruction = data.currentInstruction)
    (hanalysed : d.analysed = data.analysed) : Walking search r d := by
  refine ⟨h.toPlaced.congr hfinal hsize hcur, ?_, ?_⟩
  · rw [hcur, hanalysed]
    exact h.passed
  · rw [hsize, hcur, hanalysed]
    exact h.begun

/-! ## The fetch stage -/

theorem untouched_isStopped : Untouched Scanner.isStopped :=
  ⟨fun _ _ => rfl, fun _ _ => rfl, fun _ _ => rfl, fun _ _ => rfl⟩

theorem untouched_analysed : Untouched Scanner.analysed :=
  ⟨fun _ _ => rfl, fun _ _ => rfl, fun _ _ => rfl, fun _ _ => rfl⟩

theorem untouched_finalInstruction : Untouched Scanner.finalInstruction :=
  ⟨fun _ _ => rfl, fun _ _ => rfl, fun _ _ => rfl, fun _ _ => rfl⟩

/-- Where the fetch stage goes on: to a completion of the same parcel, or to the next parcel. -/
inductive Onward (search : InstrT → Bool) (r : WorkRange) (d : Scanner) :
    Option InstrT × Scanner → Prop
  | long : d'.currentInstructionSize = 4 → low w = low d.currentInstruction →
      Onward search r d (some w, d')
  | short : d'.currentInstructionSize = 2 → low w = w → w ∈ r → search w = false →
      (∀ p ∈ r, search p = false → p < w → p ≤ low d.currentInstruction) →
      Onward search r d (some w, d')
  | finished : (∀ p ∈ r, search p = false → p ≤ low d.currentInstruction) →
      Onward search r d (none, d')

/-- Going on with the parcels. -/
theorem onward_pending (hr : r.final.toNat < 2 ^ 16) {c : InstrT} (hc : c ∈ r)
    (hlow : low d.currentInstruction = c) (hsize : d'.currentInstructionSize = 2) :
    Onward search r d ((pending search c r.final).head?, d') := by
  cases hq : (pending search c r.final).head? with
  | none =>
    refine .finished fun p hp hclean => ?_
    rw [hlow, ← BitVec.not_lt]
    intro hgt
    have := search_of_head?_pending hc.2 hq p hgt hp.2
    rw [hclean] at this
    cases this
  | some q =>
    obtain ⟨⟨hlt, hle, hclean⟩, hmin⟩ := le_of_head?_pending hc.2 hq
    refine .short hsize (low_of_lt (Nat.lt_of_le_of_lt hle hr))
      ⟨BitVec.le_trans hc.1 (BitVec.le_of_lt hlt), hle⟩ hclean fun p hp hp' hpq => ?_
    rw [hlow, ← BitVec.not_lt]
    intro hgt
    have hqp := hmin p hgt hp.2 hp'
    rw [BitVec.le_def] at hqp
    rw [BitVec.lt_def] at hpq
    omega

theorem Placed.onward (hr : r.final.toNat < 2 ^ 16) (h : Placed r d) :
    Onward search r d (vleExhaustive search d) := by
  have hparcel := h.parcel
  have hfinal := h.final
  cases hs : d.sizeError with
  | true =>
    rw [vleExhaustive_sizeError search hs]
    exact .long rfl rfl
  | false =>
    rcases h.mode with hshort | hlong
    · rw [h.short hshort] at hparcel
      obtain ⟨n, hn⟩ := vleExhaustive_short search hs hshort (hfinal ▸ hr)
        (by rw [hfinal]; exact hparcel.2)
      rw [hn, hfinal]
      exact onward_pending hr hparcel (h.short hshort) hshort
    · by_cases hcur : d.currentInstruction = d.finalInstruction
      · rw [vleExhaustive_final search hs hlong hcur]
        refine .finished fun p hp _ => ?_
        rw [hcur, hfinal, low_of_lt hr]
        exact hp.2
      · obtain ⟨n, hn⟩ := vleExhaustive_long search hs hlong (hfinal ▸ hr)
          (by rw [hfinal]; exact hparcel.2) hcur
        rw [hn, hfinal]
        cases hh : (highs search (low d.currentInstruction) (high d.currentInstruction)).head? with
        | some q =>
          obtain ⟨⟨-, hlt, -⟩, -⟩ := le_of_head?_highs (high_lt d.currentInstruction) hh
          exact .long hlong (low_construct (low_lt d.currentInstruction) hlt)
        | none => exact onward_pending hr hparcel rfl rfl

/-- When everything up to the current parcel is analysed, the stage leaves a worker that is further
on, or has nothing left to do. -/
theorem Placed.fetch (hr : r.final.toNat < 2 ^ 16) (h : Placed r d)
    (hdone : ∀ p ∈ r, search p = false → p ≤ low d.currentInstruction → p ∈ d.analysed) :
    match vleExhaustive search d with
    | (some w, d') => Walking search r (d'.setCurrent w)
    | (none, d') => AllAnalysed search r d' := by
  have honward : Onward search r d (vleExhaustive search d) := h.onward hr
  have hfinal : (vleExhaustive search d).2.finalInstruction = d.finalInstruction :=
    untouched_finalInstruction.vleExhaustive d
  have hanalysed : (vleExhaustive search d).2.analysed = d.analysed :=
    untouched_analysed.vleExhaustive d
  generalize vleExhaustive search d = fetched at honward hfinal hanalysed ⊢
  cases honward with
  | long hsize hlow =>
    refine ⟨⟨hfinal.trans h.final, .inr hsize, hlow ▸ h.parcel, fun hshort => ?_⟩, ?_, ?_⟩
    · rw [Scanner.setCurrent_currentInstructionSize, hsize] at hshort
      omega
    · intro p hp hclean hlt
      rw [Scanner.setCurrent_currentInstruction, hlow] at hlt
      exact hanalysed ▸ hdone p hp hclean (BitVec.le_of_lt hlt)
    · intro _ hclean
      rw [Scanner.setCurrent_currentInstruction, hlow] at hclean ⊢
      exact hanalysed ▸ hdone _ h.parcel hclean (BitVec.le_refl _)
  | short hsize hlow hmem hclean hmin =>
    refine ⟨⟨hfinal.trans h.final, .inl hsize, hlow.symm ▸ hmem, fun _ => hlow⟩, ?_,
      fun hlong => ?_⟩
    · intro p hp hp' hlt
      rw [Scanner.setCurrent_currentInstruction, hlow] at hlt
      exact hanalysed ▸ hdone p hp hp' (hmin p hp hp' hlt)
    · rw [Scanner.setCurrent_currentInstructionSize, hsize] at hlong
      omega
  | finished hall => exact fun p hp hclean => hanalysed ▸ hdone p hp hclean (hall p hp hclean)

end

/-! ## The handlers -/

/-- The scanner for instructions of both lengths, with any analysis stage. -/
@[simps] def vleConfig (search : InstrT → Bool) (analyse : AnalysisStage) : Config where
  arch := .rv64gc
  search := search
  analyse := analyse
  fetchInstruction := vleExhaustive search

/-- A worker is on its way, or has nothing left to do. -/
def Progress (search : InstrT → Bool) (r : WorkRange) (data : Scanner) : Prop :=
  AllAnalysed search r data ∨ data.isStopped = false ∧ Walking search r data

section
variable {search : InstrT → Bool} {r : WorkRange} {data : Scanner} (analyse : AnalysisStage)

theorem Walking.done_of_analysed (h : Walking search r data) {p : InstrT} (hp : p ∈ r)
    (hclean : search p = false) (hle : p ≤ low data.currentInstruction) :
    p ∈ data.analysed ++ [data.currentInstruction] := by
  by_cases heq : p = low data.currentInstruction
  · rcases h.mode with hshort | hlong
    · rw [heq, h.short hshort]
      exact List.mem_append_right _ (List.mem_singleton_self _)
    · exact List.mem_append_left _ (heq ▸ h.begun hlong (heq ▸ hclean))
  · exact List.mem_append_left _ (h.passed p hp hclean (Cyclic.lt_of_le_of_ne hle heq))

/-- What a handler leaves when the stage has been called for `d`. -/
theorem Walking.handled (hr : r.final.toNat < 2 ^ 16) (h : Walking search r data)
    (hrun : data.isStopped = false) {d : Scanner} (hd : Placed r d)
    (hcur : d.currentInstruction = data.currentInstruction)
    (hanalysed : d.analysed = data.analysed ++ [data.currentInstruction])
    (hstop : d.isStopped = data.isStopped) :
    match vleExhaustive search d with
    | (some w, d') => d'.isStopped = false ∧ Walking search r (d'.setCurrent w)
    | (none, d') => AllAnalysed search r d' := by
  have hfetch := @Placed.fetch search r d hr hd fun p hp hclean hle =>
    hanalysed ▸ h.done_of_analysed hp hclean (hcur ▸ hle)
  have hkeep : (vleExhaustive search d).2.isStopped = d.isStopped :=
    untouched_isStopped.vleExhaustive d
  generalize vleExhaustive search d = fetched at hfetch hkeep ⊢
  obtain ⟨_ | w, d'⟩ := fetched
  · exact hfetch
  · exact ⟨hkeep.trans (hstop.trans hrun), hfetch⟩

theorem workerStep_walking (hr : r.final.toNat < 2 ^ 16) (h : Walking search r data)
    (hrun : data.isStopped = false) (o : Outcome) :
    Progress search r (workerStep (vleConfig search analyse) o data).state := by
  cases o with
  | fault sig =>
    have hleft := h.handled hr hrun (d := analyse.call (recordSignal data sig))
      (h.toPlaced.congr rfl rfl rfl) rfl rfl rfl
    simp only [workerStep, faultHandler, vleConfig_analyse, vleConfig_fetchInstruction]
    rcases hf : vleExhaustive search (analyse.call (recordSignal data sig)) with ⟨_ | w, d⟩
    all_goals
      rw [hf] at hleft
    · exact .inl hleft
    · exact .inr ⟨hleft.1, hleft.2.congr rfl rfl rfl rfl⟩
  | hang sig =>
    simp only [workerStep, hangHandler, vleConfig_analyse, vleConfig_fetchInstruction,
      vleConfig_arch]
    generalize hcalled :
      analyse.call (recordSignal (writeHang data) { sig with signo := SIGSEGV }) = called
    have hleft := h.handled hr hrun (d := writeStdPage .rv64gc called called.instructionPage)
      (by subst hcalled; exact h.toPlaced.congr rfl rfl rfl) (by subst hcalled; rfl)
      (by subst hcalled; rfl) (by subst hcalled; rfl)
    rcases hf : vleExhaustive search (writeStdPage .rv64gc called called.instructionPage) with
      ⟨_ | w, d⟩
    all_goals
      rw [hf] at hleft
    · exact .inl hleft
    · exact .inr ⟨hleft.1, hleft.2.congr rfl rfl rfl rfl⟩

theorem entryHandler_walking (hr : r.final.toNat < 2 ^ 16) (h : Walking search r data)
    (hrun : data.isStopped = false) :
    Progress search r (entryHandler (vleConfig search analyse) data).state := by
  have hwritten : Walking search r (writeOutput data [.timestamp, .startOfRun]) :=
    h.congr rfl rfl rfl rfl
  simp only [entryHandler, vleConfig_search, vleConfig_fetchInstruction,
    writeOutput_currentInstruction]
  split
  · rename_i hblack
    -- The current instruction is blacklisted, so a parcel up to it is passed or completed.
    have hfetch := @Placed.fetch search r _ hr hwritten.toPlaced fun p hp hclean hle => by
      by_cases heq : p = low data.currentInstruction
      · rcases h.mode with hshort | hlong
        · rw [heq, h.short hshort, hblack] at hclean
          cases hclean
        · exact heq ▸ h.begun hlong (heq ▸ hclean)
      · exact h.passed p hp hclean (Cyclic.lt_of_le_of_ne hle heq)
    have hkeep : (vleExhaustive search (writeOutput data [.timestamp, .startOfRun])).2.isStopped =
        data.isStopped := untouched_isStopped.vleExhaustive _
    rcases hf : vleExhaustive search (writeOutput data [.timestamp, .startOfRun]) with ⟨_ | w, d⟩
    all_goals
      rw [hf] at hfetch hkeep
    · exact .inl hfetch
    · exact .inr ⟨hkeep.trans hrun, hfetch.congr rfl rfl rfl rfl⟩
  · exact .inr ⟨hrun, hwritten.congr rfl rfl rfl rfl⟩

/-- Nothing that has been analysed is forgotten. -/
theorem mem_analysed_workerStep {p : InstrT} (h : p ∈ data.analysed) (o : Outcome) :
    p ∈ (workerStep (vleConfig search analyse) o data).state.analysed := by
  have hkeep : ∀ d, (vleExhaustive search d).2.analysed = d.analysed :=
    untouched_analysed.vleExhaustive
  have hmem : p ∈ data.analysed ++ [data.currentInstruction] := List.mem_append_left _ h
  cases o with
  | fault sig =>
    have hd := hkeep (analyse.call (recordSignal data sig))
    simp only [workerStep, faultHandler, vleConfig_analyse, vleConfig_fetchInstruction]
    rcases hf : vleExhaustive search (analyse.call (recordSignal data sig)) with ⟨_ | w, d⟩
    all_goals
      rw [hf] at hd
      have hleft : d.analysed = data.analysed ++ [data.currentInstruction] := hd
      exact (hleft ▸ hmem : p ∈ d.analysed)
  | hang sig =>
    simp only [workerStep, hangHandler, vleConfig_analyse, vleConfig_fetchInstruction,
      vleConfig_arch]
    generalize hcalled :
      analyse.call (recordSignal (writeHang data) { sig with signo := SIGSEGV }) = called
    have hd := hkeep (writeStdPage .rv64gc called called.instructionPage)
    rcases hf : vleExhaustive search (writeStdPage .rv64gc called called.instructionPage) with
      ⟨_ | w, d⟩
    all_goals
      rw [hf] at hd
      subst hcalled
      have hleft : d.analysed = data.analysed ++ [data.currentInstruction] := hd
      exact (hleft ▸ hmem : p ∈ d.analysed)

theorem mem_analysed_entryHandler {p : InstrT} (h : p ∈ data.analysed) :
    p ∈ (entryHandler (vleConfig search analyse) data).state.analysed := by
  have hd : (vleExhaustive search (writeOutput data [.timestamp, .startOfRun])).2.analysed =
      data.analysed := untouched_analysed.vleExhaustive _
  simp only [entryHandler, vleConfig_fetchInstruction]
  split
  · rcases hf : vleExhaustive search (writeOutput data [.timestamp, .startOfRun]) with ⟨_ | w, d⟩
    all_goals
      rw [hf] at hd
      exact (hd ▸ h : p ∈ d.analysed)
  · exact h

end

/-! ## The system -/

section
variable {search : InstrT → Bool} {analyse : AnalysisStage} {c c' : Cell}

/-- Every event runs a handler of the worker. -/
theorem step_data {e : CellEvent} (h : c.step (vleConfig search analyse) e = some c') :
    c'.data = (entryHandler (vleConfig search analyse) c.data).state ∨
      ∃ o, c'.data = (workerStep (vleConfig search analyse) o c.data).state := by
  cases e <;> simp only [Cell.step, Option.ite_none_left_eq_some, Option.ite_none_right_eq_some,
    Option.some.injEq] at h
  case start => exact .inl (h.2 ▸ rfl)
  case fault sig => exact .inr ⟨.fault sig, h.2 ▸ rfl⟩
  case deliver sig => exact .inr ⟨.hang sig, h.2 ▸ rfl⟩
  case spurious sig => exact .inr ⟨.hang sig, h ▸ rfl⟩

theorem AllAnalysed.step {e : CellEvent} (h : AllAnalysed search c.range c.data)
    (hstep : c.step (vleConfig search analyse) e = some c') :
    AllAnalysed search c'.range c'.data := by
  intro p hp hclean
  rw [Cell.step_range hstep] at hp
  have hmem := h p hp hclean
  rcases step_data hstep with hdata | ⟨o, hdata⟩
  · exact hdata ▸ mem_analysed_entryHandler analyse hmem
  · exact hdata ▸ mem_analysed_workerStep analyse hmem o

theorem Progress.step {e : CellEvent} (hr : c.range.final.toNat < 2 ^ 16)
    (h : Progress search c.range c.data)
    (hstep : c.step (vleConfig search analyse) e = some c') :
    Progress search c'.range c'.data := by
  rcases h with hall | ⟨hrun, hwalk⟩
  · exact .inl (hall.step hstep)
  · rw [Cell.step_range hstep]
    rcases step_data hstep with hdata | ⟨o, hdata⟩
    · exact hdata ▸ entryHandler_walking analyse hr hwalk hrun
    · exact hdata ▸ workerStep_walking analyse hr hwalk hrun o

theorem Progress.visit {r : WorkRange} {data : Scanner} (h : Progress search r data) (m : Manager) :
    Progress search r (m.visit data) := by
  obtain ⟨n, hn⟩ := m.visit_eq data
  rw [hn]
  rcases h with hall | ⟨hrun, hwalk⟩
  · exact .inl hall
  · exact .inr ⟨hrun, hwalk.congr rfl rfl rfl rfl⟩

theorem Progress.init (page : Nat) (r : WorkRange) (hr : r.final.toNat < 2 ^ 16) :
    Progress search r (workerMC .rv64gc page r.start r.final) := by
  have hlow : low r.start = r.start := low_of_lt (Nat.lt_of_le_of_lt r.ordered hr)
  refine .inr ⟨rfl, ⟨⟨rfl, .inl rfl, ?_, fun _ => hlow⟩, fun p hp _ hlt => ?_, fun h => ?_⟩⟩
  · change low r.start ∈ r
    rw [hlow]
    exact ⟨BitVec.le_refl _, r.ordered⟩
  · change p < low r.start at hlt
    rw [hlow] at hlt
    exact absurd hlt (BitVec.not_lt.2 hp.1)
  · cases h

/-- The invariant of the system. -/
structure VleTruthful (search : InstrT → Bool) (ranges : List WorkRange) (s : System) : Prop where
  ranges : s.cells.map Cell.range = ranges
  progress : ∀ c ∈ s.cells, Progress search c.range c.data
  finished : s.finished = true → ∀ c ∈ s.cells, AllAnalysed search c.range c.data

theorem VleTruthful.step {ranges : List WorkRange} (hr : ∀ r ∈ ranges, r.final.toNat < 2 ^ 16)
    {e : Event} {s t : System} (h : VleTruthful search ranges s)
    (hstep : s.step (vleConfig search analyse) e = some t) : VleTruthful search ranges t := by
  have hcell : ∀ c ∈ s.cells, c.range.final.toNat < 2 ^ 16 := fun c hc =>
    hr _ (h.ranges ▸ List.mem_map_of_mem hc)
  refine ⟨(System.step_ranges hstep).trans h.ranges, ?_,
    System.step_finished hstep h.finished (fun c hc hstopped => ?_) fun _ _ hall _ _ hc' =>
      hall.step hc'⟩
  · refine System.step_forall hstep h.progress (fun _ c hc => (h.progress c hc).visit _) ?_
    intro i e' c c' _ hc hc'
    have hmem := List.mem_of_getElem? hc
    exact (h.progress c hmem).step (hcell c hmem) hc'
  · -- A worker that is stopped is not walking any more.
    refine ((h.progress c hc).visit s.manager).resolve_right fun ⟨hrun, _⟩ => ?_
    obtain ⟨n, hn⟩ := s.manager.visit_eq c.data
    rw [hn] at hrun
    exact absurd (hstopped.symm.trans hrun) Bool.noConfusion

end

/-- **The completion report.** Whenever the manager has reported the end of the run, every worker
has analysed every parcel of its range that is not blacklisted, whichever signals came between the
handlers, each of which runs to completion, and whichever size errors were seen. -/
theorem vle_finished_covered (search : InstrT → Bool) (analyse : AnalysisStage)
    (workers : List (Nat × WorkRange)) (hr : ∀ w ∈ workers, w.2.final.toNat < 2 ^ 16) {s : System}
    (h : Transition.Reach (System.step (vleConfig search analyse)) (fun _ _ => True)
      (.init .rv64gc workers) s) (hfin : s.finished = true) :
    s.cells.map Cell.range = workers.map (·.2) ∧
      ∀ c ∈ s.cells, ∀ p ∈ c.range, search p = false → p ∈ c.data.analysed := by
  have hinit : VleTruthful search (workers.map (·.2)) (.init .rv64gc workers) := by
    refine ⟨?_, ?_, fun h => by cases h⟩
    · simp [System.init, Cell.init, Function.comp_def]
    · intro c hc
      obtain ⟨w, hw, rfl⟩ := List.mem_map.1 hc
      exact .init w.1 w.2 (hr w hw)
  have hinv := h.invariant (fun _ _ _ _ hs hstep => VleTruthful.step
    (fun r hr' => by obtain ⟨w, hw, rfl⟩ := List.mem_map.1 hr'; exact hr w hw) hs hstep) hinit
  exact ⟨hinv.ranges, hinv.finished hfin⟩

/-- One worker for the parcel 3, which begins a longer instruction. A SIGUSR2 comes while that is
executed, and another one after the end. -/
def longerRun : List Event :=
  [.worker 0 .start, .worker 0 (.fault ⟨11, ⟨1, 8192⟩, ⟨8190⟩⟩),
    .worker 0 (.spurious ⟨12, ⟨0, 0⟩, ⟨0⟩⟩), .worker 0 (.spurious ⟨12, ⟨0, 0⟩, ⟨0⟩⟩), .tick]

theorem vle_finished_covered_longer : ∃ s : System, s.finished = true ∧
    s.cells.map (·.data.analysed) = [[3, 3, 3]] ∧
      ∀ c ∈ s.cells, ∀ p ∈ c.range, false = false → p ∈ c.data.analysed := by
  have hrun : (Transition.replay (System.step (vleConfig (fun _ => false)
      (basicAnalysisAndSizeCheckRiscv (fun _ => true) disasmInst))) (fun _ _ => True) longerRun
      (.init .rv64gc [(4096, ⟨3, 3, by decide⟩)])).map
      (fun s => (s.finished, s.cells.map (·.data.analysed))) = some (true, [[3, 3, 3]]) := by
    decide +kernel
  obtain ⟨s, hs, hs'⟩ := Option.map_eq_some_iff.1 hrun
  obtain ⟨hfin, hanalysed⟩ := Prod.mk.inj hs'
  exact ⟨s, hfin, hanalysed, (vle_finished_covered _ _ [(4096, ⟨3, 3, by decide⟩)] (by decide)
    (Transition.reach_of_replay hs) hfin).2⟩

end IScanU.RV64GC
