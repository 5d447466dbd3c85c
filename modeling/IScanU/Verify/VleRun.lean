import IScanU.Verify.VleScan

/-! # Runs of the variable-length scan

A run is the list of the steps taken, each with the outcome of what was executed. Whatever the
outcomes, as long as size errors are raised by short instructions only, the run is sound and ends.
Whether it is complete depends on the last parcel alone: a long instruction that equals
`finalInstruction` ends the run, so the last parcel is completed with the high half 0 only. -/

namespace IScanU.RV64GC

section
variable (csDisasmIter : List Byte → Bool) (disasmInst search : InstrT → Bool) (page : Nat)
  (r : WorkRange) (outcomes : List Outcome)

/-- The steps of a worker for the range, from `entryHandler` on. -/
def scanSteps : List (Outcome × Scanner) :=
  Control.steps (workerStep (config csDisasmIter disasmInst search))
    (entryHandler (config csDisasmIter disasmInst search) (workerMC .rv64gc page r.start r.final))
    outcomes

/-- Where these steps lead. -/
def scanRun : Control Scanner :=
  Control.exec (workerStep (config csDisasmIter disasmInst search))
    (entryHandler (config csDisasmIter disasmInst search) (workerMC .rv64gc page r.start r.final))
    outcomes

/-- What is executed is in the range and not blacklisted, short instructions fit into a parcel,
long ones complete a parcel that raised a size error, and nothing is executed twice. -/
structure Sound (steps : List (Outcome × Scanner)) : Prop where
  enumerated : ∀ p ∈ steps, Enumerated search r (executed p.2)
  begun : ∀ pre p post, steps = pre ++ p :: post → p.2.currentInstructionSize = 4 →
    ∃ q ∈ pre, executed q.2 = (2, low p.2.currentInstruction) ∧ raises q.1 q.2 = true
  increasing : (steps.map fun p => executed p.2).Pairwise Before

/-- Every parcel of the range that is not blacklisted is executed, and where it raises a size error
also each of its completions that is not blacklisted. -/
structure Complete (sizeErr : InstrT → Bool) (steps : List (Outcome × Scanner)) : Prop where
  short : ∀ p ∈ r, search p = false → ∃ q ∈ steps, executed q.2 = (2, p)
  long : ∀ p ∈ r, search p = false → sizeErr p = true → ∀ h : InstrT, h.toNat < 2 ^ 16 →
    search (construct p h) = false → ∃ q ∈ steps, executed q.2 = (4, construct p h)

end

section
variable {csDisasmIter : List Byte → Bool} {disasmInst search : InstrT → Bool} {page : Nat}
  {r : WorkRange} {outcomes : List Outcome}

/-- The invariant of the run: the worker scans the range and has not reported its end. -/
structure Scanning (search : InstrT → Bool) (r : WorkRange) (data : Scanner) : Prop
    extends Steady r data where
  enumerated : Enumerated search r (executed data)
  unreported : endsOfRun data = 0

/-- The outcome raises a size error for a short instruction only. -/
def ShortError (o : Outcome) (data : Scanner) : Prop :=
  raises o data = true → data.currentInstructionSize = 2

theorem entry_scan (hr : r.final.toNat < 2 ^ 16) :
    ScanEntry search r (workerMC .rv64gc page r.start r.final)
      (entryHandler (config csDisasmIter disasmInst search)
        (workerMC .rv64gc page r.start r.final)) :=
  entryHandler_scan _ _ hr ⟨rfl, rfl, rfl, rfl⟩ rfl rfl

theorem entry_scanning (hr : r.final.toNat < 2 ^ 16) {s : Scanner}
    (h : entryHandler (config csDisasmIter disasmInst search)
      (workerMC .rv64gc page r.start r.final) = .resume s) :
    Scanning search r s ∧ s.currentInstructionSize = 2 ∧
      ∀ w ∈ r, search w = false → s.currentInstruction ≤ w := by
  have hentry := @entry_scan csDisasmIter disasmInst search page r hr
  rw [h] at hentry
  cases hentry with
  | next hx hsize hmin hs hends => exact ⟨⟨hs, hx, hends⟩, hsize, hmin⟩

/-- One step of the run, from a state to the next. -/
theorem Scanning.next (hr : r.final.toNat < 2 ^ 16) {o : Outcome} {s s' : Scanner}
    (h : Scanning search r s) (hok : ShortError o s)
    (hstep : workerStep (config csDisasmIter disasmInst search) o s = .resume s') :
    Scanning search r s' ∧ rank (executed s) < rank (executed s') ∧
      advance search r.final (raises o s) (executed s) = some (executed s') := by
  have hscan := workerStep_scan csDisasmIter disasmInst hr h.enumerated h.toSteady o
  rw [hstep] at hscan
  cases hscan with
  | next hadv hs hends =>
    obtain ⟨hx, hlt, -⟩ := advance_spec hr h.enumerated hok hadv
    exact ⟨⟨hs, hx, hends.trans h.unreported⟩, hlt, hadv⟩

theorem Scanning.halt (hr : r.final.toNat < 2 ^ 16) {o : Outcome} {s t : Scanner}
    (h : Scanning search r s)
    (hstep : workerStep (config csDisasmIter disasmInst search) o s = .halt t) :
    (t.isStopped = true ∧ endsOfRun t = 1) ∧
      advance search r.final (raises o s) (executed s) = none := by
  have hscan := workerStep_scan csDisasmIter disasmInst hr h.enumerated h.toSteady o
  rw [hstep] at hscan
  cases hscan with
  | last hadv hstop hends => exact ⟨⟨hstop, by rw [hends, h.unreported]⟩, hadv⟩

/-- The rank of what is executed is below the end of the last parcel. -/
theorem Scanning.rank_lt {s : Scanner} (h : Scanning search r s) :
    rank (executed s) < (r.final.toNat + 1) * 2 ^ 17 := by
  have hle := h.enumerated.parcel.2
  have := high_lt s.currentInstruction
  have := h.enumerated.mode
  rw [BitVec.le_def] at hle
  simp only [rank, executed_snd, executed_fst] at *
  omega

/-! ## Soundness -/

section
variable (hr : r.final.toNat < 2 ^ 16)
  (hok : ∀ p ∈ scanSteps csDisasmIter disasmInst search page r outcomes, ShortError p.1 p.2)
include hr hok

theorem scanSteps_scanning :
    ∀ p ∈ scanSteps csDisasmIter disasmInst search page r outcomes, Scanning search r p.2 :=
  Control.steps_invariant (fun _ _ _ ho hs h => (hs.next hr ho h).1) hok
    fun _ hs => (entry_scanning hr hs).1

/-- With enough outcomes the run ends. -/
theorem scanRun_halts (hlen : (r.final.toNat + 1) * 2 ^ 17 ≤ outcomes.length) :
    ∃ t, scanRun csDisasmIter disasmInst search page r outcomes = .halt t := by
  refine Control.exec_halts (I := Scanning search r)
    (m := fun s => (r.final.toNat + 1) * 2 ^ 17 - 1 - rank (executed s))
    (fun _ _ _ ho hs h => (hs.next hr ho h).1) (fun o s s' ho hs h => ?_) hok fun s hs => ?_
  · obtain ⟨hs', hlt, -⟩ := hs.next hr ho h
    have := hs'.rank_lt
    omega
  · have hs' := (entry_scanning hr hs).1
    have := hs'.rank_lt
    exact ⟨hs', by omega⟩

/-- A run that ends has reported its end, once. -/
theorem scanRun_post {t : Scanner}
    (ht : scanRun csDisasmIter disasmInst search page r outcomes = .halt t) :
    t.isStopped = true ∧ endsOfRun t = 1 := by
  have hentry := @entry_scan csDisasmIter disasmInst search page r hr
  refine Control.exec_post (I := Scanning search r) (fun _ _ _ ho hs h => (hs.next hr ho h).1)
    (fun _ _ _ _ hs h => (hs.halt hr h).1) hok (fun s hs => (entry_scanning hr hs).1)
    (fun t ht => ?_) ht
  rw [ht] at hentry
  cases hentry with
  | last _ hstop hends => exact ⟨hstop, hends⟩

/-- A long instruction is reached from a short one with a size error, or from a long one with the
same parcel. -/
theorem scanSteps_begun : ∀ pre p post,
    scanSteps csDisasmIter disasmInst search page r outcomes = pre ++ p :: post →
    p.2.currentInstructionSize = 4 →
    ∃ q ∈ pre, executed q.2 = (2, low p.2.currentInstruction) ∧ raises q.1 q.2 = true := by
  let begun (pre : List (Outcome × Scanner)) (s : Scanner) : Prop :=
    Scanning search r s ∧ (s.currentInstructionSize = 4 → ∃ q ∈ pre,
      executed q.2 = (2, low s.currentInstruction) ∧ raises q.1 q.2 = true)
  have hbegun : ∀ pre o s s', ShortError o s → begun pre s →
      workerStep (config csDisasmIter disasmInst search) o s = .resume s' →
      begun (pre ++ [(o, s)]) s' := by
    rintro pre o s s' ho ⟨hs, hpre⟩ hstep
    obtain ⟨hs', -, hadv⟩ := hs.next hr ho hstep
    refine ⟨hs', fun hlong => ?_⟩
    obtain ⟨hlow, hfrom⟩ := (advance_spec hr hs.enumerated ho hadv).2.2 hlong
    simp only [executed_snd, executed_fst] at hlow hfrom
    rw [hlow]
    rcases hs.enumerated.mode with hshort | hlong'
    · simp only [executed_fst] at hshort
      have hparcel := (hs.enumerated.low_of_short hshort).1
      simp only [executed_snd] at hparcel
      exact ⟨(o, s), by simp, by rw [executed, hshort, hparcel], hfrom.resolve_left (by omega)⟩
    · obtain ⟨q, hq, hq'⟩ := hpre hlong'
      exact ⟨q, List.mem_append_left _ hq, hq'⟩
  have hbegin : ∀ s, entryHandler (config csDisasmIter disasmInst search)
      (workerMC .rv64gc page r.start r.final) = .resume s → begun [] s := fun s hs => by
    obtain ⟨hs, hsize, -⟩ := entry_scanning hr hs
    exact ⟨hs, fun h => by omega⟩
  intro pre p post hsteps hlong
  exact (Control.steps_history hbegun hok [] hbegin pre p post hsteps).2 hlong

theorem scanSteps_increasing :
    ((scanSteps csDisasmIter disasmInst search page r outcomes).map fun p =>
      executed p.2).Pairwise Before := by
  have hscanning := scanSteps_scanning hr hok
  have hsorted := Control.steps_increasing (k := fun s => rank (executed s))
    (fun _ _ _ ho hs h => (hs.next hr ho h).1) (fun _ _ _ ho hs h => (hs.next hr ho h).2.1) hok
    fun s hs => (entry_scanning hr hs).1
  rw [List.pairwise_map] at hsorted ⊢
  exact hsorted.imp_of_mem fun hp hq hlt =>
    (hscanning _ hp).enumerated.before (hscanning _ hq).enumerated hlt

end

/-- The variable-length scan is sound and ends, with one report, when size errors are raised by
short instructions only. -/
theorem vle_scan_sound (csDisasmIter : List Byte → Bool) (disasmInst search : InstrT → Bool)
    (page : Nat) (r : WorkRange) (hr : r.final.toNat < 2 ^ 16) (outcomes : List Outcome)
    (hok : ∀ p ∈ scanSteps csDisasmIter disasmInst search page r outcomes,
      raises p.1 p.2 = true → p.2.currentInstructionSize = 2) :
    Sound search r (scanSteps csDisasmIter disasmInst search page r outcomes) ∧
      ((r.final.toNat + 1) * 2 ^ 17 ≤ outcomes.length → ∃ t,
        scanRun csDisasmIter disasmInst search page r outcomes = .halt t ∧
          t.isStopped = true ∧ endsOfRun t = 1) := by
  refine ⟨⟨fun p hp => (scanSteps_scanning hr hok p hp).enumerated, scanSteps_begun hr hok,
    scanSteps_increasing hr hok⟩, fun hlen => ?_⟩
  obtain ⟨t, ht⟩ := scanRun_halts hr hok hlen
  exact ⟨t, ht, scanRun_post hr hok ht⟩

/-- The signal does not report an address in the instruction page. -/
def FaultsOutside (o : Outcome) (s : Scanner) : Prop :=
  ¬(s.instructionPage ≤ (recordedSignal o).info.siAddr ∧
    (recordedSignal o).info.siAddr < s.instructionPage + ArchProperties.rv64gc.pageSize)

theorem Scanning.shortError {o : Outcome} {s : Scanner} (h : Scanning search r s)
    (hout : FaultsOutside o s) : ShortError o s := by
  intro hraise
  refine h.enumerated.mode.resolve_right fun hlong => hout ?_
  have hptr := h.pointer
  simp only [executed_fst] at hlong
  simp only [raises, fetchFaulted, Bool.and_eq_true, beq_iff_eq, recordSignal_lastInfo,
    recordSignal_instructionPointer] at hraise
  rw [hraise.2, hptr, hlong]
  simp only [ArchProperties.rv64gc_pageSize, ArchProperties.rv64gc_instructionSize]
  omega

/-- Where every fault is outside the instruction page, size errors are raised by short instructions
only. -/
theorem shortError_of_outside (hr : r.final.toNat < 2 ^ 16)
    (hout : ∀ p ∈ scanSteps csDisasmIter disasmInst search page r outcomes,
      FaultsOutside p.1 p.2) :
    ∀ p ∈ scanSteps csDisasmIter disasmInst search page r outcomes, ShortError p.1 p.2 := by
  intro p hp
  have hscanning := Control.steps_invariant
    (fun o s s' ho hs h => (Scanning.next hr hs (hs.shortError ho) h).1) hout
    (fun s hs => (entry_scanning hr hs).1) p hp
  exact hscanning.shortError (hout p hp)

/-- Parcels that begin a longer instruction fault at the end of the page, and the rest traps. -/
def trap (sizeErr : InstrT → Bool) (data : Scanner) : Outcome :=
  if data.currentInstructionSize = 2 ∧ sizeErr data.currentInstruction = true then
    .fault ⟨SIGSEGV, ⟨1, data.instructionPointer + 2⟩, ⟨data.instructionPointer⟩⟩
  else .fault ⟨5, ⟨1, 0⟩, ⟨0⟩⟩

theorem raises_trap (sizeErr : InstrT → Bool) (data : Scanner) :
    raises (trap sizeErr data) data = true ↔
      data.currentInstructionSize = 2 ∧ sizeErr data.currentInstruction = true := by
  rw [trap]
  split <;> rename_i h
  · simp [raises, fetchFaulted, recordedSignal, h]
  · simp [raises, fetchFaulted, recordedSignal, h, SIGSEGV]

/-- Two faults: the first, in 2 byte mode, at the end of the page, the second a trap. -/
def sizeErrorThenTrap : List Outcome :=
  [.fault ⟨SIGSEGV, ⟨1, 8192⟩, ⟨8190⟩⟩, .fault ⟨5, ⟨1, 0⟩, ⟨8192⟩⟩]

/-- The range of the one parcel `0x13`. -/
def parcelRange : WorkRange := ⟨0x13, 0x13, by decide⟩

/-- The range of the parcels `0x13` and `0x14`, of which the first begins longer instructions. -/
def longerRange : WorkRange := ⟨0x13, 0x14, by decide⟩

/-- Outcomes for a whole run over this range. -/
def longerOutcomes : List Outcome :=
  Control.follow (workerStep (config (fun _ => true) (fun _ => true) blacklist.search))
    (trap (· == 0x13)) ((longerRange.final.toNat + 1) * 2 ^ 17)
    (entryHandler (config (fun _ => true) (fun _ => true) blacklist.search)
      (workerMC .rv64gc 4096 longerRange.start longerRange.final))

theorem raises_longerOutcomes : ∀ p ∈ scanSteps (fun _ => true) (fun _ => true) blacklist.search
    4096 longerRange longerOutcomes, raises p.1 p.2 = true ↔
      p.2.currentInstructionSize = 2 ∧ (p.2.currentInstruction == 0x13) = true := fun p hp => by
  rw [Control.steps_follow _ _ _ p hp]
  exact raises_trap _ _

/-- The run over one parcel that ends too early, and a whole one with a size error before the last
parcel. -/
theorem vle_scan_sound_parcel :
    (let steps := scanSteps (fun _ => true) (fun _ => true) blacklist.search 4096 parcelRange
      sizeErrorThenTrap
    Sound blacklist.search parcelRange steps ∧
      ((parcelRange.final.toNat + 1) * 2 ^ 17 ≤ sizeErrorThenTrap.length → ∃ t,
        scanRun (fun _ => true) (fun _ => true) blacklist.search 4096 parcelRange
          sizeErrorThenTrap = .halt t ∧ t.isStopped = true ∧ endsOfRun t = 1)) ∧
    let steps := scanSteps (fun _ => true) (fun _ => true) blacklist.search 4096 longerRange
      longerOutcomes
    Sound blacklist.search longerRange steps ∧
      (∃ t, scanRun (fun _ => true) (fun _ => true) blacklist.search 4096 longerRange
        longerOutcomes = .halt t ∧ t.isStopped = true ∧ endsOfRun t = 1) ∧
      ∃ p ∈ steps, executed p.2 = (2, 0x13) ∧ raises p.1 p.2 = true := by
  refine ⟨vle_scan_sound _ _ _ _ _ (by decide) _ (by decide +kernel), ?_⟩
  have hok := raises_longerOutcomes
  have hshort := fun p hp hraise => ((hok p hp).1 hraise).1
  obtain ⟨hsound, hhalts⟩ := vle_scan_sound (fun _ => true) (fun _ => true) blacklist.search 4096
    longerRange (by decide) longerOutcomes hshort
  obtain ⟨t, ht, hstop, hends⟩ := hhalts (Nat.le_of_eq (Control.length_follow ..).symm)
  exact ⟨hsound, ⟨t, ht, hstop, hends⟩, _, List.mem_cons_self, by decide +kernel, by decide +kernel⟩

/-! ## Completeness -/

/-- The last parcel is completed with the high half 0 at most. -/
theorem advance_last {x y : Nat × InstrT} (hx : Enumerated search r x)
    (hraised : raised = true → x.1 = 2) (hr : r.final.toNat < 2 ^ 16)
    (hlast : x.1 = 4 → low x.2 = r.final → x.2 = r.final)
    (hy : advance search r.final raised x = some y) :
    y.1 = 4 → low y.2 = r.final → y.2 = r.final := by
  intro hlong hlow
  have hsame := (advance_spec hr hx hraised hy).2.2 hlong
  rw [hsame.1] at hlow
  rcases hx.mode with hshort | hlong'
  · have hraise := hsame.2.resolve_left (by omega)
    simp only [advance, hraise, if_true] at hy
    cases hy
    exact (hx.low_of_short hshort).1.symm.trans hlow
  · have hfinal := hlast hlong' hlow
    have hraise : raised = false := Bool.eq_false_iff.mpr fun h => by have := hraised h; omega
    simp [advance, hraise, hlong', hfinal] at hy

/-- The outcomes raise size errors as the oracle says. -/
def Agrees (sizeErr : InstrT → Bool) (o : Outcome) (data : Scanner) : Prop :=
  raises o data = true ↔ data.currentInstructionSize = 2 ∧ sizeErr data.currentInstruction = true

theorem Agrees.shortError {sizeErr : InstrT → Bool} {o : Outcome} {data : Scanner}
    (h : Agrees sizeErr o data) : ShortError o data := fun hraise => (h.mp hraise).1

/-- A long instruction of the run completes a parcel that is not blacklisted and raises a size
error. -/
structure Completing (search sizeErr : InstrT → Bool) (r : WorkRange) (s : Scanner) : Prop
    extends Scanning search r s where
  head : s.currentInstructionSize = 4 → search (low s.currentInstruction) = false ∧
    sizeErr (low s.currentInstruction) = true

section
variable {sizeErr : InstrT → Bool} (hr : r.final.toNat < 2 ^ 16)
include hr

theorem Completing.next {o : Outcome} {s s' : Scanner} (h : Completing search sizeErr r s)
    (hok : Agrees sizeErr o s)
    (hstep : workerStep (config csDisasmIter disasmInst search) o s = .resume s') :
    Completing search sizeErr r s' := by
  obtain ⟨hs', -, hadv⟩ := h.toScanning.next hr hok.shortError hstep
  refine ⟨hs', fun hlong => ?_⟩
  obtain ⟨hlow, hfrom⟩ := (advance_spec hr h.enumerated hok.shortError hadv).2.2 hlong
  simp only [executed_snd, executed_fst] at hlow hfrom
  rw [hlow]
  rcases hfrom with hlong' | hraise
  · exact h.head hlong'
  · obtain ⟨hshort, herr⟩ := hok.mp hraise
    have hparcel := (h.enumerated.low_of_short hshort).1
    simp only [executed_snd] at hparcel
    rw [hparcel]
    exact ⟨h.enumerated.clean, herr⟩

/-- If the last parcel is not to be completed, a step skips nothing that is required. -/
theorem Completing.least (hcond : search r.final = true ∨ sizeErr r.final = false)
    {o : Outcome} {s : Scanner} (h : Completing search sizeErr r s) (hok : Agrees sizeErr o s)
    {z : Nat × InstrT} (hz : Required search sizeErr r z) (hle : rank (executed s) ≤ rank z) :
    z = executed s ∨ ∃ y, advance search r.final (raises o s) (executed s) = some y ∧
      rank y ≤ rank z := by
  rcases hle.eq_or_lt with heq | hlt
  · exact .inl (h.enumerated.eq_of_rank_eq hz.toEnumerated heq).symm
  · refine .inr (advance_least hr h.enumerated hok (fun hlong hcur => ?_) hz hlt)
    obtain ⟨hclean, herr⟩ := h.head hlong
    simp only [executed_snd] at hcur
    rw [hcur, low_of_lt hr] at hclean herr
    simp [hclean, herr] at hcond

/-- Everything that is required of the range is executed, if the last parcel is not to be
completed. -/
theorem required_executed (hcond : search r.final = true ∨ sizeErr r.final = false)
    (hok : ∀ p ∈ scanSteps csDisasmIter disasmInst search page r outcomes, Agrees sizeErr p.1 p.2)
    {t : Scanner} (ht : scanRun csDisasmIter disasmInst search page r outcomes = .halt t)
    {z : Nat × InstrT} (hz : Required search sizeErr r z) :
    ∃ q ∈ scanSteps csDisasmIter disasmInst search page r outcomes, executed q.2 = z := by
  have hentry := @entry_scan csDisasmIter disasmInst search page r hr
  cases hc : entryHandler (config csDisasmIter disasmInst search)
      (workerMC .rv64gc page r.start r.final) with
  | halt s =>
    rw [hc] at hentry
    cases hentry with
    | last hnone =>
      have := hnone _ hz.parcel
      rw [hz.head] at this
      cases this
  | resume s =>
    obtain ⟨hs, hsize, hmin⟩ := entry_scanning hr hc
    have hdone := Control.steps_complete (I := Completing search sizeErr r) (e := executed)
      (T := fun s => { z | Required search sizeErr r z ∧ rank (executed s) ≤ rank z })
      (fun o s s' ho hs h => hs.next hr ho h)
      (fun o s s' ho hs h z hz => ?_) (fun o s t ho hs h z hz => ?_) hok
      (fun s hs => ?_) ht s hc z ⟨hz, ?_⟩
    · obtain ⟨q, hq, rfl⟩ := List.mem_map.mp hdone
      exact ⟨q, hq, rfl⟩
    · obtain ⟨-, -, hadv⟩ := hs.toScanning.next hr ho.shortError h
      rcases hs.least hr hcond ho hz.1 hz.2 with heq | ⟨y, hy, hle⟩
      · exact .inl heq
      · rw [hadv] at hy
        cases hy
        exact .inr ⟨hz.1, hle⟩
    · have hadv := (hs.toScanning.halt hr h).2
      refine (hs.least hr hcond ho hz.1 hz.2).resolve_right ?_
      rintro ⟨y, hy, -⟩
      rw [hadv] at hy
      cases hy
    · obtain ⟨hs, hsize, -⟩ := entry_scanning hr hs
      exact ⟨hs, fun h => by omega⟩
    · have hle := hmin _ hz.parcel hz.head
      have hshort : s.currentInstruction.toNat < 2 ^ 16 := hs.enumerated.short hsize
      rw [BitVec.le_def] at hle
      rw [executed, hsize, rank_short hshort, rank]
      omega

end

/-- A mask of at most 16 low bits does not see the high half. -/
theorem construct_and {p h m : InstrT} {k : Nat} (hk : k ≤ 16) (hm : m.toNat = 2 ^ k - 1) :
    construct p h &&& m = p &&& m := by
  have hhigh : (h <<< 16) &&& m = 0#32 := by
    apply BitVec.eq_of_toNat_eq
    rw [BitVec.toNat_and, hm, Nat.and_two_pow_sub_one_eq_mod, BitVec.toNat_shiftLeft,
      Nat.shiftLeft_eq, Nat.mod_mod_of_dvd _ (Nat.pow_dvd_pow 2 (by omega : k ≤ 32))]
    exact Nat.mod_eq_zero_of_dvd (Dvd.dvd.mul_left (Nat.pow_dvd_pow 2 hk) _)
  rw [construct, BitVec.and_comm, BitVec.and_or_distrib_left, BitVec.and_comm m (h <<< 16), hhigh,
    BitVec.or_zero, BitVec.and_comm]

/-- The blacklist looks at the low half only. -/
theorem blacklist_construct (p h : InstrT) :
    blacklist.search (construct p h) = blacklist.search p := by
  have h12 := @construct_and p h (~~~0b11111111111111111111000000000000) 12 (by decide) (by decide)
  have h7 := @construct_and p h (~~~0b11111111111111111111111110000000) 7 (by decide) (by decide)
  simp only [blacklist, LowMemoryBlacklist.ofList, List.foldl_cons, List.foldl_nil,
    LowMemoryBlacklist.search_addMask, h12, h7]
  rfl

/-- The last parcel is completed with no other high half than 0. -/
theorem last_parcel_once (hr : r.final.toNat < 2 ^ 16)
    (hok : ∀ p ∈ scanSteps csDisasmIter disasmInst search page r outcomes, ShortError p.1 p.2) :
    ∀ p ∈ scanSteps csDisasmIter disasmInst search page r outcomes,
      p.2.currentInstructionSize = 4 → low p.2.currentInstruction = r.final →
        p.2.currentInstruction = r.final := by
  intro p hp
  refine (Control.steps_invariant (I := fun s => Scanning search r s ∧
    (s.currentInstructionSize = 4 → low s.currentInstruction = r.final →
      s.currentInstruction = r.final)) (fun o s s' ho hs h => ?_) hok (fun s hs => ?_) p hp).2
  · obtain ⟨hs', -, hadv⟩ := hs.1.next hr ho h
    exact ⟨hs', advance_last hs.1.enumerated ho hr hs.2 hadv⟩
  · obtain ⟨hs, hsize, -⟩ := entry_scanning hr hs
    exact ⟨hs, fun h => by omega⟩

/-- The variable-length scan is complete exactly if its last parcel is blacklisted or raises no
size error. -/
theorem vle_scan_complete_iff (csDisasmIter : List Byte → Bool) (disasmInst : InstrT → Bool)
    (page : Nat) (r : WorkRange) (hr : r.final.toNat < 2 ^ 16) (sizeErr : InstrT → Bool)
    (outcomes : List Outcome)
    (hok : ∀ p ∈ scanSteps csDisasmIter disasmInst blacklist.search page r outcomes,
      raises p.1 p.2 = true ↔
        p.2.currentInstructionSize = 2 ∧ sizeErr p.2.currentInstruction = true) :
    let steps := scanSteps csDisasmIter disasmInst blacklist.search page r outcomes
    let run := scanRun csDisasmIter disasmInst blacklist.search page r outcomes
    ((r.final.toNat + 1) * 2 ^ 17 ≤ outcomes.length → ∃ t, run = .halt t) ∧
      ∀ t, run = .halt t → (∀ p ∈ steps, endsOfRun p.2 = 0) ∧ endsOfRun t = 1 ∧
        (Complete blacklist.search r sizeErr steps ↔
          blacklist.search r.final = true ∨ sizeErr r.final = false) := by
  have hshort : ∀ p ∈ scanSteps csDisasmIter disasmInst blacklist.search page r outcomes,
      ShortError p.1 p.2 := fun p hp hraise => ((hok p hp).mp hraise).1
  refine ⟨scanRun_halts hr hshort, fun t ht => ⟨fun p hp =>
    (scanSteps_scanning hr hshort p hp).unreported, (scanRun_post hr hshort ht).2, ?_, ?_⟩⟩
  · intro hcomplete
    by_contra hcond
    simp only [not_or, Bool.not_eq_true, Bool.not_eq_false] at hcond
    obtain ⟨hclean, herr⟩ := hcond
    have hlast : r.final ∈ r := ⟨r.ordered, BitVec.le_refl _⟩
    obtain ⟨q, hq, hexec⟩ := hcomplete.long _ hlast hclean herr 1#32 (by decide)
      (by rw [blacklist_construct, hclean])
    obtain ⟨hsize, hcur⟩ := Prod.mk.inj hexec
    have hlow := low_construct hr (by decide : (1#32).toNat < 2 ^ 16)
    have hval := toNat_construct hr (by decide : (1#32).toNat < 2 ^ 16)
    have := last_parcel_once hr hshort q hq hsize (by rw [hcur, hlow])
    rw [← hcur, this] at hval
    simp at hval
  · intro hcond
    have hparcel : ∀ p ∈ r, p.toNat < 2 ^ 16 := fun p hp => Nat.lt_of_le_of_lt hp.2 hr
    refine ⟨fun p hp hclean => ?_, fun p hp hclean herr h hh hclean' => ?_⟩
    · have hlow := low_of_lt (hparcel p hp)
      refine required_executed hr hcond hok ht ⟨⟨.inl rfl, ?_, fun _ => hparcel p hp, hclean⟩, ?_, ?_⟩
      · rwa [hlow]
      · rwa [hlow]
      · simp
    · have hlow := low_construct (hparcel p hp) hh
      refine required_executed hr hcond hok ht ⟨⟨.inr rfl, ?_, by simp, hclean'⟩, ?_, fun _ => ?_⟩
      · rwa [hlow]
      · rwa [hlow]
      · rwa [hlow]

/-- The run over one parcel that ends too early, and a complete one: `0x13` raises a size error and
is completed with every high half, `0x14` raises none. -/
theorem vle_scan_complete_iff_parcel :
    (let steps := scanSteps (fun _ => true) (fun _ => true) blacklist.search 4096 parcelRange
      sizeErrorThenTrap
    let run := scanRun (fun _ => true) (fun _ => true) blacklist.search 4096 parcelRange
      sizeErrorThenTrap
    ((parcelRange.final.toNat + 1) * 2 ^ 17 ≤ sizeErrorThenTrap.length → ∃ t, run = .halt t) ∧
      ∀ t, run = .halt t → (∀ p ∈ steps, endsOfRun p.2 = 0) ∧ endsOfRun t = 1 ∧
        (Complete blacklist.search parcelRange (fun _ => true) steps ↔
          blacklist.search parcelRange.final = true ∨ true = false)) ∧
    let steps := scanSteps (fun _ => true) (fun _ => true) blacklist.search 4096 longerRange
      longerOutcomes
    (∃ t, scanRun (fun _ => true) (fun _ => true) blacklist.search 4096 longerRange
        longerOutcomes = .halt t ∧ (∀ p ∈ steps, endsOfRun p.2 = 0) ∧ endsOfRun t = 1) ∧
      Complete blacklist.search longerRange (· == 0x13) steps := by
  refine ⟨vle_scan_complete_iff (fun _ => true) (fun _ => true) 4096 parcelRange (by decide)
    (fun _ => true) sizeErrorThenTrap (by decide +kernel), ?_⟩
  obtain ⟨hhalts, hcomplete⟩ := vle_scan_complete_iff (fun _ => true) (fun _ => true) 4096
    longerRange (by decide) (· == 0x13) longerOutcomes raises_longerOutcomes
  obtain ⟨t, ht⟩ := hhalts (Nat.le_of_eq (Control.length_follow ..).symm)
  obtain ⟨hnone, hends, hiff⟩ := hcomplete t ht
  exact ⟨⟨t, ht, hnone, hends⟩, hiff.2 (.inr (by decide))⟩

/-- The range of the parcel `0x13`, which raises a size error: the run ends without executing
`0x10013`. -/
theorem vle_scan_incomplete_parcel :
    let steps := scanSteps (fun _ => true) (fun _ => true) blacklist.search 4096 parcelRange
      sizeErrorThenTrap
    let run := scanRun (fun _ => true) (fun _ => true) blacklist.search 4096 parcelRange
      sizeErrorThenTrap
    (∀ p ∈ steps, raises p.1 p.2 = true ↔ p.2.currentInstructionSize = 2 ∧ true = true) ∧
      endsOfRun run.state = 1 ∧ steps.map (fun p => executed p.2) = [(2, 0x13), (4, 0x13)] ∧
      blacklist.search 0x10013 = false ∧
      ¬Complete blacklist.search parcelRange (fun _ => true) steps := by
  have hsteps : (scanSteps (fun _ => true) (fun _ => true) blacklist.search 4096 parcelRange
      sizeErrorThenTrap).map (fun p => executed p.2) = [(2, 0x13), (4, 0x13)] := by decide +kernel
  refine ⟨by decide +kernel, by decide +kernel, hsteps, by decide, fun h => ?_⟩
  obtain ⟨q, hq, hexec⟩ := h.long 0x13 ⟨by decide, by decide⟩ (by decide) rfl 1 (by decide) (by decide)
  have hmem := List.mem_map_of_mem (f := fun p : Outcome × Scanner => executed p.2) hq
  rw [hsteps, hexec] at hmem
  revert hmem
  decide

end

end IScanU.RV64GC
