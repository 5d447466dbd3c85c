import IScanU.Verify.CompleteScan

/-! # What `numInstrExec` counts

Under `exhaustive` a step raises the counter by the distance to the next instruction, unless the
instruction it comes from hung; then one is missing. Also missing are a blacklisted first
instruction, which the entry handler passes over, and a blacklisted last one, which `exhaustive`
stops at (`run_accounted`). -/

namespace IScanU

/-- The blacklisted instructions that `exhaustive` passes over and counts. -/
def passedOver (search : InstrT → Bool) (data : Scanner) : Nat :=
  (((pending search data.currentInstruction data.finalInstruction).head?.getD
    data.finalInstruction) - data.currentInstruction).toNat - 1

section
variable (arch : ArchProperties) (search : InstrT → Bool) (analyse : AnalysisStage)

theorem faultHandler_count (sig : Signal) (data : Scanner) :
    (faultHandler (.exhaustive arch search analyse) sig data).state.numInstrExec =
      data.numInstrExec + passedOver search data + 1 := by
  simp only [faultHandler, Config.exhaustive_fetchInstruction, Config.exhaustive_analyse,
    exhaustive_eq, AnalysisStage.call_currentInstruction, AnalysisStage.call_finalInstruction,
    recordSignal_currentInstruction, recordSignal_finalInstruction, passedOver]
  cases (pending search data.currentInstruction data.finalInstruction).head? <;>
    simp [Nat.add_assoc]

theorem hangHandler_count (sig : Signal) (data : Scanner) :
    (hangHandler (.exhaustive arch search analyse) sig data).state.numInstrExec =
      data.numInstrExec + passedOver search data := by
  simp only [hangHandler, Config.exhaustive_fetchInstruction, Config.exhaustive_analyse,
    exhaustive_eq, writeStdPage_currentInstruction, writeStdPage_finalInstruction,
    AnalysisStage.call_currentInstruction, AnalysisStage.call_finalInstruction,
    recordSignal_currentInstruction, recordSignal_finalInstruction,
    writeHang_currentInstruction, writeHang_finalInstruction, passedOver]
  cases (pending search data.currentInstruction data.finalInstruction).head? <;> simp

theorem ptraceStep_count (sig : Signal) (data : Scanner) :
    (ptraceStep (.exhaustive arch search analyse) sig data).state.numInstrExec =
      data.numInstrExec + passedOver search data + 1 := by
  simp only [ptraceStep, Config.exhaustive_fetchInstruction, Config.exhaustive_analyse,
    exhaustive_eq, Scanner.count_currentInstruction, Scanner.count_finalInstruction,
    AnalysisStage.call_currentInstruction, AnalysisStage.call_finalInstruction,
    recordSignal_currentInstruction, recordSignal_finalInstruction,
    writeInstructionPtrace_currentInstruction, writeInstructionPtrace_finalInstruction, passedOver]
  cases (pending search data.currentInstruction data.finalInstruction).head? <;>
    simp [Nat.add_comm, Nat.add_left_comm]

theorem ptraceEntry_count (data : Scanner) :
    (ptraceEntry (.exhaustive arch search analyse) data).state.numInstrExec =
      data.numInstrExec +
        if search data.currentInstruction then passedOver search data else 0 := by
  simp only [ptraceEntry, Config.exhaustive_fetchInstruction, Config.exhaustive_search,
    exhaustive_eq, writeOutput_currentInstruction, writeOutput_finalInstruction, passedOver]
  cases search data.currentInstruction with
  | false => simp
  | true =>
    cases (pending search data.currentInstruction data.finalInstruction).head? <;> simp

theorem entryHandler_count (data : Scanner) :
    (entryHandler (.exhaustive arch search analyse) data).state.numInstrExec =
      data.numInstrExec +
        if search data.currentInstruction then passedOver search data else 0 := by
  rw [← ptraceEntry_count arch search analyse, entryHandler_eq]
  cases ptraceEntry (.exhaustive arch search analyse) data <;> rfl

end

/-! ## A whole run -/

section
variable {search : InstrT → Bool}

/-- What the counters of a worker add up to when it is about to execute an instruction: what was
counted, what hung and what is still ahead. -/
structure Accounted (search : InstrT → Bool) (final : InstrT) (total : Nat) (data : Scanner) :
    Prop where
  final_eq : data.finalInstruction = final
  search_current : search data.currentInstruction = false
  total_eq : data.numInstrExec + data.hangOutputFD.length +
    (final - data.currentInstruction).toNat = total

theorem Handled.length_hangs {hung : Bool} (h : Handled hung data data') :
    data'.hangOutputFD.length = data.hangOutputFD.length + if hung then 1 else 0 := by
  rw [h.hangs, List.length_append]
  cases hung <;> rfl

/-- A step to another instruction moves what it passes from ahead to counted, or to hung. -/
theorem Accounted.move {hung : Bool} {data data' : Scanner} (h : Accounted search final total data)
    (hp : pending search data.currentInstruction data.finalInstruction =
      data'.currentInstruction :: ws)
    (hh : Handled hung data data')
    (hcount : data'.numInstrExec + (if hung then 1 else 0) =
      data.numInstrExec + passedOver search data + 1) :
    Accounted search final total data' := by
  refine ⟨hh.final.trans h.final_eq, (pending_tail hp).1, ?_⟩
  have hmem : data'.currentInstruction ∈ Cyclic.ioc data.currentInstruction final := by
    have : data'.currentInstruction ∈
        pending search data.currentInstruction data.finalInstruction := by simp [hp]
    rw [h.final_eq] at this
    exact (List.mem_filter.1 this).1
  have hdist := Cyclic.toNat_sub_add_of_mem hmem
  have hpos := (Cyclic.mem_ioc.1 hmem).1
  rw [BitVec.lt_def, BitVec.toNat_zero] at hpos
  have hpassed : passedOver search data =
      (data'.currentInstruction - data.currentInstruction).toNat - 1 := by
    rw [passedOver, hp]
    rfl
  have htotal := h.total_eq
  rw [hh.length_hangs]
  omega

/-- At the end everything is counted or hung, except for a blacklisted last instruction. -/
theorem Accounted.last {hung : Bool} {data data' : Scanner} (h : Accounted search final total data)
    (hp : pending search data.currentInstruction data.finalInstruction = [])
    (hh : Handled hung data data')
    (hcount : data'.numInstrExec + (if hung then 1 else 0) =
      data.numInstrExec + passedOver search data + 1) :
    data'.numInstrExec + data'.hangOutputFD.length + (if search final then 1 else 0) =
      total + 1 := by
  have htotal := h.total_eq
  have hpassed : passedOver search data = (final - data.currentInstruction).toNat - 1 := by
    rw [passedOver, hp, h.final_eq]
    rfl
  have hlength := hh.length_hangs
  by_cases hcur : data.currentInstruction = final
  · rw [hcur, BitVec.sub_self, BitVec.toNat_zero] at htotal hpassed
    rw [← hcur, h.search_current, if_neg Bool.false_ne_true]
    omega
  · have hlast : search final = true := by
      rw [h.final_eq, pending, List.filter_eq_nil_iff] at hp
      simpa using hp final (Cyclic.last_mem_ioc hcur)
    have := Cyclic.toNat_sub_succ hcur
    rw [hlast, if_pos rfl]
    omega

/-- The run that starts with an instruction to execute. -/
theorem run_accounted {hung : InstrT → Bool} {next : Scanner → Control Scanner}
    (hstep : ∀ data, HandlerStep search (hung data.currentInstruction) data (next data))
    (hcount : ∀ data, (next data).state.numInstrExec +
      (if hung data.currentInstruction then 1 else 0) =
        data.numInstrExec + passedOver search data + 1)
    (h : Accounted search final total data) :
    let todo := data.currentInstruction ::
      pending search data.currentInstruction data.finalInstruction
    ∃ data', .run next todo.length (.resume data) = Control.halt data' ∧
      data'.numInstrExec + data'.hangOutputFD.length + (if search final then 1 else 0) =
        total + 1 := by
  obtain ⟨data', hrun, htotal, -⟩ :=
    Control.run_queue (J := Accounted search final total)
      (Q := fun d => d.numInstrExec + d.hangOutputFD.length + (if search final then 1 else 0) =
        total + 1)
      (q := fun d => pending search d.currentInstruction d.finalInstruction)
      (i := Scanner.currentInstruction) (o := fun _ => ()) (f := fun _ _ => ())
      (fun d hd hq => by
        obtain ⟨d', hc, _, hh, _⟩ := (hstep d).of_nil hq
        have := hcount d
        rw [hc] at this
        exact ⟨d', hc, hd.last hq hh this, rfl⟩)
      (fun d w ws hd hq => by
        obtain ⟨d', hc, hw, hws, hh, _⟩ := (hstep d).of_cons hq
        have := hcount d
        rw [hc] at this
        exact ⟨d', hc, hd.move (hw ▸ hq) hh this, hw, hws, rfl⟩) h
  exact ⟨data', hrun, htotal⟩

/-- Where the first instruction of the list stands: at the start of the range, unless that is
blacklisted. -/
theorem worklist_distance {start final w : InstrT} (h : worklist search start final = w :: ws) :
    search w = false ∧
      (if search start then (w - start).toNat - 1 else 0) + (if search start then 1 else 0) +
        (final - w).toNat = (final - start).toNat := by
  rw [worklist_eq] at h
  cases hs : search start with
  | false =>
    rw [hs, if_neg Bool.false_ne_true] at h
    obtain ⟨rfl, _⟩ := List.cons.inj h
    exact ⟨hs, by simp⟩
  | true =>
    rw [hs, if_pos rfl] at h
    have hmem : w ∈ Cyclic.ioc start final := by
      have : w ∈ pending search start final := by simp [h]
      exact (List.mem_filter.1 this).1
    have hdist := Cyclic.toNat_sub_add_of_mem hmem
    have hpos := (Cyclic.mem_ioc.1 hmem).1
    rw [BitVec.lt_def, BitVec.toNat_zero] at hpos
    refine ⟨(pending_tail h).1, ?_⟩
    rw [if_pos rfl, if_pos rfl]
    omega

/-- The whole run: what is counted, what hung, a blacklisted first instruction and a blacklisted
last one make up the range. -/
theorem run_counts (r : WorkRange) (hung : InstrT → Bool) (next : Scanner → Control Scanner)
    {data : Scanner} {c : Control Scanner}
    (hentry : EntryStep search data c)
    (hcount₀ : c.state.numInstrExec = data.numInstrExec +
      if search data.currentInstruction then passedOver search data else 0)
    (hstep : ∀ data, HandlerStep search (hung data.currentInstruction) data (next data))
    (hcount : ∀ data, (next data).state.numInstrExec +
      (if hung data.currentInstruction then 1 else 0) =
        data.numInstrExec + passedOver search data + 1)
    (hstart : data.currentInstruction = r.start) (hfinal : data.finalInstruction = r.final)
    (hfresh : data.numInstrExec = 0 ∧ data.hangOutputFD = []) :
    ∃ n data', .run next n c = Control.halt data' ∧
      data'.numInstrExec + ((worklist search r.start r.final).filter hung).length +
          (if search r.start then 1 else 0) +
          (if search r.final ∧ r.start ≠ r.final then 1 else 0) =
        (r.final - r.start).toNat + 1 := by
  cases hentry with
  | last hw _ he =>
    rw [hstart, hfinal] at hw
    -- Nothing is executed, so everything is blacklisted.
    have hall : ∀ w ∈ Cyclic.icc r.start r.final, search w = true := by
      simpa [worklist, List.filter_eq_nil_iff] using hw
    rw [Cyclic.icc_eq_cons, List.forall_mem_cons] at hall
    have hpassed : passedOver search data = (r.final - r.start).toNat - 1 := by
      rw [worklist_eq, hall.1, if_pos rfl] at hw
      rw [passedOver, hstart, hfinal, hw]
      rfl
    refine ⟨0, _, rfl, ?_⟩
    rw [Control.state_halt, hstart, hall.1, if_pos rfl, hfresh.1, hpassed] at hcount₀
    rw [hcount₀, hw, hall.1]
    by_cases heq : r.start = r.final
    · simp [heq]
    · rw [if_pos rfl, if_pos ⟨hall.2 _ (Cyclic.last_mem_ioc heq), heq⟩]
      have := Cyclic.toNat_sub_succ heq
      simp only [List.filter_nil, List.length_nil]
      omega
  | @next first ws hw he =>
    rw [hstart, hfinal] at hw
    rw [Control.state_resume, hstart, hfresh.1, Nat.zero_add] at hcount₀
    obtain ⟨hsearch, hentered⟩ := worklist_distance hw
    have hcounted : first.numInstrExec + (if search r.start then 1 else 0) +
        (r.final - first.currentInstruction).toNat = (r.final - r.start).toNat := by
      rw [hcount₀, ← hentered]
      cases hs : search r.start with
      | false => rfl
      | true =>
        rw [worklist_eq, hs, if_pos rfl] at hw
        have hpassed : passedOver search data = (first.currentInstruction - r.start).toNat - 1 := by
          rw [passedOver, hstart, hfinal, hw]
          rfl
        simp only [if_true, hpassed]
    have hacc : Accounted search r.final
        (first.numInstrExec + (r.final - first.currentInstruction).toNat) first := by
      refine ⟨he.final.trans hfinal, hsearch, ?_⟩
      rw [he.hangs, hfresh.2, List.length_nil, Nat.add_zero]
    obtain ⟨data', hrun, htotal⟩ := run_accounted hstep hcount hacc
    have htrivial : (fun _ : Scanner => True) first := trivial
    obtain ⟨data'', hrun', -, hhangs, -⟩ := run_pending (J := fun _ => True) (fun data _ => hstep data)
      (fun _ _ _ _ => trivial) htrivial
    cases hrun.symm.trans hrun'
    refine ⟨_, data', hrun, ?_⟩
    rw [he.final, hfinal, worklist_tail hw, ← hw, he.hangs, hfresh.2, List.nil_append] at hhangs
    rw [hhangs] at htotal
    have hsame : (search r.final = true ∧ r.start ≠ r.final) ↔ search r.final = true := by
      refine and_iff_left_of_imp fun hf heq => ?_
      rw [heq, worklist_eq, hf, if_pos rfl, pending, Cyclic.ioc_self] at hw
      cases hw
    simp only [hsame]
    omega

/-- When the count is the size of the range. -/
theorem count_eq_iff {hung : InstrT → Bool} {r : WorkRange} {count : Nat}
    (h : count + ((worklist search r.start r.final).filter hung).length +
      (if search r.start then 1 else 0) + (if search r.final ∧ r.start ≠ r.final then 1 else 0) =
        (r.final - r.start).toNat + 1) :
    count = r.final.toNat - r.start.toNat + 1 ↔
      search r.start = false ∧ search r.final = false ∧
        ∀ w ∈ r, search w = false → hung w = false := by
  have hnone : ((worklist search r.start r.final).filter hung).length = 0 ↔
      ∀ w ∈ r, search w = false → hung w = false := by
    simp only [List.length_eq_zero_iff, List.filter_eq_nil_iff, mem_worklist r.ordered,
      WorkRange.mem_iff, Bool.not_eq_true, and_imp]
  rw [BitVec.toNat_sub_of_le r.ordered] at h
  rw [← hnone]
  cases hs : search r.start with
  | true =>
    rw [hs, if_pos rfl] at h
    refine iff_of_false (by omega) fun h' => ?_
    cases h'.1
  | false =>
    rw [hs, if_neg Bool.false_ne_true] at h
    cases hf : search r.final with
    | true =>
      have hne : r.start ≠ r.final := by
        intro heq
        rw [heq, hf] at hs
        cases hs
      rw [if_pos ⟨hf, hne⟩] at h
      refine iff_of_false (by omega) fun h' => ?_
      cases h'.2.1
    | false =>
      rw [hf, if_neg (fun h' => Bool.false_ne_true h'.1)] at h
      simp only [true_and]
      omega

end

section
variable (arch : ArchProperties) (search : InstrT → Bool) (analyse : AnalysisStage)

theorem workerStep_count (oracle : InstrT → Outcome) (data : Scanner) :
    (workerStep (.exhaustive arch search analyse)
          (oracle data.currentInstruction) data).state.numInstrExec +
        (if (oracle data.currentInstruction).isHang then 1 else 0) =
      data.numInstrExec + passedOver search data + 1 := by
  cases oracle data.currentInstruction with
  | fault sig => exact faultHandler_count arch search analyse sig data
  | hang sig => exact congrArg (· + 1) (hangHandler_count arch search analyse sig data)

theorem workerLoop_counts (page : Nat) (r : WorkRange) (oracle : InstrT → Outcome) : ∃ n data,
    workerLoop (.exhaustive arch search analyse) oracle n (workerMC arch page r.start r.final) =
        .halt data ∧
      data.numInstrExec +
          ((worklist search r.start r.final).filter fun w => (oracle w).isHang).length +
          (if search r.start then 1 else 0) +
          (if search r.final ∧ r.start ≠ r.final then 1 else 0) =
        (r.final - r.start).toNat + 1 :=
  run_counts r _ _ (entryHandler_step arch search analyse (workerMC arch page r.start r.final))
    (entryHandler_count arch search analyse _) (workerStep_step arch search analyse oracle)
    (workerStep_count arch search analyse oracle) rfl rfl ⟨rfl, rfl⟩

theorem ptraceLoop_counts (page : Nat) (r : WorkRange) (oracle : InstrT → Signal) : ∃ n data,
    ptraceLoop (.exhaustive arch search analyse) oracle n (workerPtrace page r.start r.final) =
        .halt data ∧
      data.numInstrExec +
          ((worklist search r.start r.final).filter fun _ => false).length +
          (if search r.start then 1 else 0) +
          (if search r.final ∧ r.start ≠ r.final then 1 else 0) =
        (r.final - r.start).toNat + 1 :=
  run_counts r (fun _ => false) (fun data =>
      ptraceStep (.exhaustive arch search analyse) (oracle data.currentInstruction) data)
    (ptraceEntry_step arch search analyse (workerPtrace page r.start r.final))
    (ptraceEntry_count arch search analyse _)
    (fun data => ptraceStep_step arch search analyse _ data)
    (fun data => ptraceStep_count arch search analyse _ data) rfl rfl ⟨rfl, rfl⟩

/-- A worker ends having counted its whole range exactly when the first and the last instruction of
it are not blacklisted and, in the memory cage, no instruction that it executes hangs. -/
theorem worker_counts_range_iff (page : Nat) (r : WorkRange) :
    (∀ oracle : InstrT → Outcome, ∃ n data,
      workerLoop (.exhaustive arch search analyse) oracle n (workerMC arch page r.start r.final) =
          .halt data ∧
        (data.numInstrExec = r.final.toNat - r.start.toNat + 1 ↔
          search r.start = false ∧ search r.final = false ∧
            ∀ w ∈ r, search w = false → (oracle w).isHang = false)) ∧
    (∀ oracle : InstrT → Signal, ∃ n data,
      ptraceLoop (.exhaustive arch search analyse) oracle n (workerPtrace page r.start r.final) =
          .halt data ∧
        (data.numInstrExec = r.final.toNat - r.start.toNat + 1 ↔
          search r.start = false ∧ search r.final = false)) := by
  constructor
  · intro oracle
    obtain ⟨n, data, hrun, hcount⟩ := workerLoop_counts arch search analyse page r oracle
    exact ⟨n, data, hrun, count_eq_iff hcount⟩
  · intro oracle
    obtain ⟨n, data, hrun, hcount⟩ := ptraceLoop_counts arch search analyse page r oracle
    refine ⟨n, data, hrun, (count_eq_iff hcount).trans ?_⟩
    simp

end

/-- The only instruction of the range hangs: nothing is counted. -/
theorem worker_counts_nothing : ∃ n data,
    workerLoop .plain (fun _ => .hang default) n (workerMC .aarch64 0x1000 0 0) = .halt data ∧
      data.numInstrExec ≠ (0 : InstrT).toNat - (0 : InstrT).toNat + 1 := by
  obtain ⟨n, data, hrun, hcount⟩ := workerLoop_counts .aarch64 (fun _ => false)
    (basicAnalysis fun _ => true) 0x1000 (.upTo 0) fun _ => .hang default
  refine ⟨n, data, hrun, fun h => ?_⟩
  have := ((count_eq_iff hcount).1 h).2.2 0 ⟨BitVec.le_refl _, BitVec.le_refl _⟩ rfl
  cases this

end IScanU
