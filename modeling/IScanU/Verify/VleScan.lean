import IScanU.Verify.VleFetch
import IScanU.ScannerManager

/-! # The variable-length scan

What is executed is a pair of a size and a word. `advance` says what comes after such a pair, as a
function of the blacklist, the end of the range and whether a size error was raised; the handlers
under `vleExhaustive` follow it step by step (`workerStep_advance`). Along a run the pairs increase
by parcel, size and high half, so the run ends and repeats nothing. It skips nothing either, except
the long instructions that begin with the last parcel of the range. -/

namespace IScanU.RV64GC

/-- The size and the word that are executed. -/
@[simps] def executed (data : Scanner) : Nat × InstrT :=
  (data.currentInstructionSize, data.currentInstruction)

/-- What is executed after `x`. -/
def advance (search : InstrT → Bool) (final : InstrT) (raised : Bool) (x : Nat × InstrT) :
    Option (Nat × InstrT) :=
  if raised then some (4, x.2)
  else if x.1 = 4 ∧ x.2 = final then none
  else match if x.1 = 4 then (highs search (low x.2) (high x.2)).head? else none with
    | some h => some (4, construct (low x.2) h)
    | none => (pending search (low x.2) final).head?.map (2, ·)

/-! ## The order of execution -/

/-- By parcel, then size, then high half. -/
def Before (x y : Nat × InstrT) : Prop :=
  low x.2 < low y.2 ∨ low x.2 = low y.2 ∧ (x.1 < y.1 ∨ x.1 = y.1 ∧ high x.2 < high y.2)

/-- The order as a number. -/
def rank (x : Nat × InstrT) : Nat :=
  (low x.2).toNat * 2 ^ 17 + x.1 / 4 * 2 ^ 16 + (high x.2).toNat

/-- A pair that a scan of the range may execute. -/
structure Enumerated (search : InstrT → Bool) (r : WorkRange) (x : Nat × InstrT) : Prop where
  mode : x.1 = 2 ∨ x.1 = 4
  parcel : low x.2 ∈ r
  short : x.1 = 2 → x.2.toNat < 2 ^ 16
  clean : search x.2 = false

section
variable {search : InstrT → Bool} {r : WorkRange} {x y z : Nat × InstrT}

theorem Enumerated.low_of_short (h : Enumerated search r x) (hx : x.1 = 2) :
    low x.2 = x.2 ∧ (high x.2).toNat = 0 :=
  ⟨low_of_lt (h.short hx), by rw [toNat_high, Nat.div_eq_of_lt (h.short hx)]⟩

theorem high_lt (w : InstrT) : (high w).toNat < 2 ^ 16 := by
  have := w.isLt
  rw [toNat_high]
  omega

theorem low_lt (w : InstrT) : (low w).toNat < 2 ^ 16 := by
  rw [toNat_low]
  omega

theorem Enumerated.before (hx : Enumerated search r x) (hy : Enumerated search r y)
    (h : rank x < rank y) : Before x y := by
  have hx' := high_lt x.2
  have hy' := high_lt y.2
  have hmx := hx.mode
  have hmy := hy.mode
  simp only [Before, BitVec.lt_def, ← BitVec.toNat_inj]
  unfold rank at h
  omega

/-- The rank says everything about a pair. -/
theorem Enumerated.eq_of_rank_eq (hx : Enumerated search r x) (hy : Enumerated search r y)
    (h : rank x = rank y) : x = y := by
  have hx' := high_lt x.2
  have hy' := high_lt y.2
  have hmx := hx.mode
  have hmy := hy.mode
  unfold rank at h
  have hlow : (low x.2).toNat = (low y.2).toNat := by omega
  have hhigh : (high x.2).toNat = (high y.2).toNat := by omega
  refine Prod.ext (by omega) ?_
  rw [← construct_low_high x.2, ← construct_low_high y.2, BitVec.eq_of_toNat_eq hlow,
    BitVec.eq_of_toNat_eq hhigh]

theorem rank_short {p : InstrT} (hp : p.toNat < 2 ^ 16) : rank (2, p) = p.toNat * 2 ^ 17 := by
  simp only [rank, low_of_lt hp, toNat_high]
  omega

theorem rank_long {p h : InstrT} (hp : p.toNat < 2 ^ 16) (hh : h.toNat < 2 ^ 16) :
    rank (4, construct p h) = p.toNat * 2 ^ 17 + 2 ^ 16 + h.toNat := by
  have hhigh : (high (construct p h)).toNat = h.toNat := by
    rw [toNat_high, toNat_construct hp hh]
    omega
  rw [rank, low_construct hp hh, hhigh]
  omega

/-! ## The first hits -/

theorem le_partMask (w : InstrT) : w ≤ partMask.1 ↔ w.toNat < 2 ^ 16 := by
  have hmask : partMask.1.toNat = 2 ^ 16 - 1 := by decide
  rw [BitVec.le_def]
  omega

theorem le_of_head?_highs {p h q : InstrT} (hh : h.toNat < 2 ^ 16)
    (hq : (highs search p h).head? = some q) :
    (h < q ∧ q.toNat < 2 ^ 16 ∧ search (construct p q) = false) ∧
      ∀ w, h < w → w.toNat < 2 ^ 16 → search (construct p w) = false → q ≤ w := by
  unfold highs at hq
  have hle := (le_partMask h).mpr hh
  simpa [le_partMask] using Cyclic.le_of_head?_filter_ioc hle hq

theorem search_of_head?_highs {p h : InstrT} (hh : h.toNat < 2 ^ 16)
    (hq : (highs search p h).head? = none) :
    ∀ w, h < w → w.toNat < 2 ^ 16 → search (construct p w) = true := by
  unfold highs at hq
  have hle := (le_partMask h).mpr hh
  simpa [le_partMask] using Cyclic.eq_false_of_head?_filter_ioc hle hq

/-! ## One step -/

theorem Enumerated.of_pending (hr : r.final.toNat < 2 ^ 16) {p q : InstrT} (hp : p ∈ r)
    (hq : (pending search p r.final).head? = some q) :
    Enumerated search r (2, q) ∧ p < q := by
  obtain ⟨⟨hlt, hle, hs⟩, -⟩ := le_of_head?_pending hp.2 hq
  have hqlt := Nat.lt_of_le_of_lt hle hr
  refine ⟨⟨.inl rfl, ?_, fun _ => hqlt, hs⟩, hlt⟩
  rw [low_of_lt hqlt]
  exact ⟨BitVec.le_trans hp.1 (BitVec.le_of_lt hlt), hle⟩

/-- A step goes to a pair that the scan may execute, and forwards. -/
theorem advance_spec (hr : r.final.toNat < 2 ^ 16) (hx : Enumerated search r x)
    (hraised : raised = true → x.1 = 2) (hy : advance search r.final raised x = some y) :
    Enumerated search r y ∧ rank x < rank y ∧
      (y.1 = 4 → low y.2 = low x.2 ∧ (x.1 = 4 ∨ raised = true)) := by
  have hlow := low_lt x.2
  have hhigh := high_lt x.2
  unfold advance at hy
  split at hy
  · rename_i hraise
    cases hy
    have hshort := hraised hraise
    refine ⟨⟨.inr rfl, hx.parcel, by simp, hx.clean⟩, ?_, fun _ => ⟨rfl, .inr hraise⟩⟩
    simp only [rank, hshort]
    omega
  · split at hy
    · cases hy
    · split at hy
      · rename_i h hh
        cases hy
        split at hh
        · rename_i hlong
          obtain ⟨⟨hgt, hhlt, hs⟩, -⟩ := le_of_head?_highs hhigh hh
          refine ⟨⟨.inr rfl, ?_, by simp, hs⟩, ?_, fun _ => ⟨?_, .inl hlong⟩⟩
          · rw [low_construct hlow hhlt]
            exact hx.parcel
          · rw [rank_long hlow hhlt, rank, hlong]
            rw [BitVec.lt_def] at hgt
            omega
          · rw [low_construct hlow hhlt]
        · cases hh
      · obtain ⟨q, hq, rfl⟩ := Option.map_eq_some_iff.mp hy
        obtain ⟨henum, hlt⟩ := Enumerated.of_pending hr hx.parcel hq
        refine ⟨henum, ?_, by simp⟩
        have hqlt : q.toNat < 2 ^ 16 := henum.short rfl
        have hmode := hx.mode
        rw [BitVec.lt_def] at hlt
        rw [rank_short hqlt, rank]
        omega

/-- A pair that a complete scan executes: a parcel, or a completion of one that is the beginning
of a longer instruction. -/
structure Required (search sizeErr : InstrT → Bool) (r : WorkRange) (z : Nat × InstrT) : Prop
    extends Enumerated search r z where
  head : search (low z.2) = false
  long : z.1 = 4 → sizeErr (low z.2) = true

theorem rank_lt_of_low_lt (hx : x.1 ≤ 4) (h : low x.2 < low y.2) : rank x < rank y := by
  have := high_lt x.2
  rw [BitVec.lt_def] at h
  unfold rank
  omega

theorem rank_le_of_high_le (hx : x.1 = 4) (hy : y.1 = 4) (hlow : low x.2 = low y.2)
    (h : high x.2 ≤ high y.2) : rank x ≤ rank y := by
  rw [BitVec.le_def] at h
  rw [rank, rank, hx, hy, hlow]
  omega

/-- The next parcel is not past the parcel of what is required later. -/
theorem Required.le_pending (hr : r.final.toNat < 2 ^ 16) (hz : Required search sizeErr r z)
    {p : InstrT} (hp : p ∈ r) (hlt : p < low z.2) :
    ∃ y, (pending search p r.final).head?.map (2, ·) = some y ∧ rank y ≤ rank z := by
  cases hq : (pending search p r.final).head? with
  | none =>
    have := search_of_head?_pending hp.2 hq _ hlt hz.parcel.2
    rw [hz.head] at this
    cases this
  | some q =>
    obtain ⟨⟨-, hqle, -⟩, hmin⟩ := le_of_head?_pending hp.2 hq
    have hqz := hmin _ hlt hz.parcel.2 hz.head
    rw [BitVec.le_def] at hqz hqle
    refine ⟨(2, q), rfl, ?_⟩
    rw [rank_short (by omega), rank]
    omega

/-- A step skips nothing that is required, unless it ends the run at the last parcel. -/
theorem advance_least (hr : r.final.toNat < 2 ^ 16) (hx : Enumerated search r x)
    (hraised : raised = true ↔ x.1 = 2 ∧ sizeErr x.2 = true)
    (hfinal : x.1 = 4 → x.2 ≠ r.final) (hz : Required search sizeErr r z)
    (hlt : rank x < rank z) :
    ∃ y, advance search r.final raised x = some y ∧ rank y ≤ rank z := by
  unfold advance
  rw [if_neg (fun h => hfinal h.1 h.2 : ¬(x.1 = 4 ∧ x.2 = r.final))]
  rcases hx.before hz.toEnumerated hlt with hlater | ⟨hsame, hmode⟩
  · -- `z` has a later parcel: whatever comes next in this one is before it
    split
    · exact ⟨_, rfl, (rank_lt_of_low_lt (x := (4, x.2)) (by simp) hlater).le⟩
    · split
      · rename_i h hh
        refine ⟨_, rfl, (rank_lt_of_low_lt (by simp) ?_).le⟩
        split at hh
        · obtain ⟨⟨-, hhlt, -⟩, -⟩ := le_of_head?_highs (high_lt x.2) hh
          rwa [low_construct (low_lt x.2) hhlt]
        · cases hh
      · exact hz.le_pending hr hx.parcel hlater
  · -- `z` is a completion of this parcel
    have hz4 : z.1 = 4 := by
      refine hz.mode.resolve_left fun h => ?_
      have := (hz.low_of_short h).2
      have := hx.mode
      rw [BitVec.lt_def] at hmode
      omega
    rcases hx.mode with hshort | hlong
    · have hlow := (hx.low_of_short hshort).1
      have hraise := hraised.mpr ⟨hshort, by rw [← hlow, hsame]; exact hz.long hz4⟩
      rw [if_pos hraise]
      refine ⟨_, rfl, rank_le_of_high_le rfl hz4 hsame ?_⟩
      rw [BitVec.le_def, (hx.low_of_short hshort).2]
      exact Nat.zero_le _
    · have hhigh : high x.2 < high z.2 := by
        rcases hmode with h | h
        · omega
        · exact h.2
      have hclean : search (construct (low x.2) (high z.2)) = false := by
        rw [hsame, construct_low_high]
        exact hz.clean
      rw [if_neg fun h => by rw [hraised, hlong] at h; omega, if_pos hlong]
      cases hh : (highs search (low x.2) (high x.2)).head? with
      | none =>
        have := search_of_head?_highs (high_lt x.2) hh _ hhigh (high_lt z.2)
        rw [hclean] at this
        cases this
      | some h =>
        obtain ⟨⟨-, hhlt, -⟩, hmin⟩ := le_of_head?_highs (high_lt x.2) hh
        refine ⟨_, rfl, ?_⟩
        have hle := hmin _ hhigh (high_lt z.2) hclean
        rw [BitVec.le_def] at hle
        rw [rank_long (low_lt x.2) hhlt, rank, hz4, hsame]
        omega

end

/-! ## The handlers follow `advance` -/

/-- The signal that the handler of an outcome records. -/
def recordedSignal : Outcome → Signal
  | .fault sig => sig
  | .hang sig => { sig with signo := SIGSEGV }

/-- Does the analysis of the outcome raise a size error? -/
def raises (outcome : Outcome) (data : Scanner) : Bool :=
  fetchFaulted (recordSignal data (recordedSignal outcome))

/-- The state around what is executed, in the middle of the scan of a range. -/
structure Steady (r : WorkRange) (data : Scanner) : Prop where
  final : data.finalInstruction = r.final
  sizeError : data.sizeError = false
  running : data.isStopped = false
  pointer : data.instructionPointer =
    data.instructionPage + ArchProperties.rv64gc.pageSize - data.currentInstructionSize

/-- What the fetch stage leaves when `y` comes next. -/
structure Fetched (d d' : Scanner) (y : Option (Nat × InstrT)) : Prop where
  final : d'.finalInstruction = d.finalInstruction
  running : d'.isStopped = d.isStopped
  output : d'.outputFD = d.outputFD
  next : ∀ x, y = some x → d'.currentInstructionSize = x.1 ∧ d'.sizeError = false ∧
    d'.instructionPointer =
      d'.instructionPage + ArchProperties.rv64gc.pageSize - d'.currentInstructionSize

section
variable {search : InstrT → Bool} {r : WorkRange} (csDisasmIter : List Byte → Bool)
  (disasmInst : InstrT → Bool)

theorem vleExhaustive_advance (hr : r.final.toNat < 2 ^ 16) {d : Scanner}
    (h : Enumerated search r (executed d)) (hfinal : d.finalInstruction = r.final)
    (hptr : d.instructionPointer =
      d.instructionPage + ArchProperties.rv64gc.pageSize - d.currentInstructionSize) :
    let y := advance search r.final d.sizeError (executed d)
    ∃ d', vleExhaustive search d = (y.map (·.2), d') ∧ Fetched d d' y := by
  unfold advance
  cases hs : d.sizeError with
  | true =>
    refine ⟨_, vleExhaustive_sizeError search hs, rfl, rfl, rfl, ?_⟩
    rintro _ ⟨⟩
    simp
  | false =>
    rw [if_neg Bool.false_ne_true]
    rcases h.mode with hshort | hlong
    · have hcur := (h.low_of_short hshort).1
      have hle : d.currentInstruction ≤ d.finalInstruction := by
        have := h.parcel.2
        rwa [hcur, ← hfinal] at this
      obtain ⟨n, hn⟩ := vleExhaustive_short search hs hshort (hfinal ▸ hr) hle
      rw [if_neg (by omega), if_neg (by omega), hcur, ← hfinal]
      refine ⟨d.count n, by simp [hn, Function.comp_def], rfl, rfl, rfl, ?_⟩
      rintro x hx
      obtain ⟨q, -, rfl⟩ := Option.map_eq_some_iff.mp hx
      exact ⟨hshort, hs, hptr⟩
    · by_cases hcur : d.currentInstruction = d.finalInstruction
      · rw [if_pos ⟨hlong, hcur.trans hfinal⟩]
        exact ⟨_, vleExhaustive_final search hs hlong hcur, rfl, rfl, rfl, fun _ h => nomatch h⟩
      · obtain ⟨n, hn⟩ := vleExhaustive_long search hs hlong (hfinal ▸ hr)
          (hfinal ▸ h.parcel.2) hcur
        rw [if_neg fun h => hcur (h.2.trans hfinal.symm), if_pos hlong]
        rw [hfinal] at hn
        simp only [executed]
        cases hh : (highs search (low d.currentInstruction) (high d.currentInstruction)).head? with
        | some h' =>
          rw [hh] at hn
          refine ⟨_, hn, rfl, rfl, rfl, ?_⟩
          rintro _ ⟨⟩
          exact ⟨hlong, hs, hptr⟩
        | none =>
          rw [hh] at hn
          refine ⟨(setSize (writeStdPage .rv64gc d d.instructionPage) 2).count n,
            by simp [hn, Function.comp_def], rfl, rfl, rfl, ?_⟩
          rintro x hx
          obtain ⟨q, -, rfl⟩ := Option.map_eq_some_iff.mp hx
          exact ⟨rfl, hs, rfl⟩

/-- Everything a handler can do in the middle of a scan. -/
inductive ScanStep (search : InstrT → Bool) (r : WorkRange) (o : Outcome) (data : Scanner) :
    Control Scanner → Prop
  | next : advance search r.final (raises o data) (executed data) = some (executed s) →
      Steady r s → endsOfRun s = endsOfRun data → ScanStep search r o data (.resume s)
  | last : advance search r.final (raises o data) (executed data) = none →
      s.isStopped = true → endsOfRun s = endsOfRun data + 1 → ScanStep search r o data (.halt s)

/-- A handler that hands `d` to the fetch stage, and then stops or writes the instruction it got,
makes a step of the scan. -/
theorem ScanStep.of_fetch (hr : r.final.toNat < 2 ^ 16) {data d : Scanner} {o : Outcome}
    (hx : Enumerated search r (executed data)) (hs : Steady r data)
    (hd : executed d = executed data) (hfinal : d.finalInstruction = data.finalInstruction)
    (hpage : d.instructionPage = data.instructionPage)
    (hptr : d.instructionPointer = data.instructionPointer) (hrun : d.isStopped = data.isStopped)
    (hends : endsOfRun d = endsOfRun data) (hraise : d.sizeError = raises o data) :
    ∃ w d', vleExhaustive search d = (w, d') ∧
      match w with
      | none => ∀ n, ScanStep search r o data (.halt (stopWorker (d'.count n)))
      | some w => ∀ n m, ScanStep search r o data
          (.resume { d' with currentInstruction := w, numInstrExec := n, mem := m }) := by
  have hsize : d.currentInstructionSize = data.currentInstructionSize := congrArg Prod.fst hd
  obtain ⟨d', hvle, hf⟩ := vleExhaustive_advance hr (hd ▸ hx) (hfinal.trans hs.final)
    (by rw [hptr, hpage, hsize, hs.pointer])
  rw [hraise, hd] at hvle hf
  refine ⟨_, d', hvle, ?_⟩
  have hout : endsOfRun d' = endsOfRun data := by
    rw [← hends, endsOfRun, endsOfRun, hf.output]
  cases hy : advance search r.final (raises o data) (executed data) with
  | none =>
    intro n
    refine .last hy rfl ?_
    rw [← hout]
    simp [endsOfRun]
  | some y =>
    intro n m
    obtain ⟨hsize', herr, hptr'⟩ := hf.next y hy
    refine .next (hy.trans ?_) ⟨?_, herr, hf.running.trans (hrun.trans hs.running), hptr'⟩ hout
    · simp [executed, hsize']
    · exact hf.final.trans (hfinal.trans hs.final)

theorem workerStep_scan (hr : r.final.toNat < 2 ^ 16) {data : Scanner}
    (hx : Enumerated search r (executed data)) (hs : Steady r data) (o : Outcome) :
    ScanStep search r o data (workerStep (config csDisasmIter disasmInst search) o data) := by
  cases o with
  | fault sig =>
    obtain ⟨w, d', hvle, hstep⟩ := ScanStep.of_fetch hr (o := .fault sig) hx hs
      (d := (basicAnalysisAndSizeCheckRiscv csDisasmIter disasmInst).call (recordSignal data sig))
      rfl rfl rfl rfl rfl (by simp [endsOfRun]) (by simp [raises, recordedSignal, hs.sizeError])
    simp only [workerStep, faultHandler, config_analyse, config_fetchInstruction, hvle]
    cases w with
    | none => exact hstep 1
    | some w => exact hstep _ _
  | hang sig =>
    obtain ⟨w, d', hvle, hstep⟩ := ScanStep.of_fetch hr (o := .hang sig) hx hs
      (d := writeStdPage .rv64gc ((basicAnalysisAndSizeCheckRiscv csDisasmIter disasmInst).call
        (recordSignal (writeHang data) { sig with signo := SIGSEGV })) data.instructionPage)
      (by simp [executed]) (by simp) (by simp) (by simp) (by simp) (by simp [endsOfRun])
      (by simp [raises, recordedSignal, hs.sizeError, fetchFaulted, beq_eq_decide])
    simp only [workerStep, hangHandler, config_analyse, config_fetchInstruction, config_arch]
    have hpage : ((basicAnalysisAndSizeCheckRiscv csDisasmIter disasmInst).call
        (recordSignal (writeHang data) { sig with signo := SIGSEGV })).instructionPage =
        data.instructionPage := rfl
    rw [hpage, hvle]
    cases w with
    | none => exact hstep 0
    | some w => exact hstep _ _

/-- The way into the scan: to the first parcel that is not blacklisted, if there is one. -/
inductive ScanEntry (search : InstrT → Bool) (r : WorkRange) (data : Scanner) :
    Control Scanner → Prop
  | next : Enumerated search r (executed s) → s.currentInstructionSize = 2 →
      (∀ w ∈ r, search w = false → s.currentInstruction ≤ w) → Steady r s →
      endsOfRun s = endsOfRun data → ScanEntry search r data (.resume s)
  | last : (∀ w ∈ r, search w = true) → s.isStopped = true → endsOfRun s = endsOfRun data + 1 →
      ScanEntry search r data (.halt s)

theorem entryHandler_scan (hr : r.final.toNat < 2 ^ 16) {data : Scanner} (hs : Steady r data)
    (hsize : data.currentInstructionSize = 2) (hcur : data.currentInstruction = r.start) :
    ScanEntry search r data (entryHandler (config csDisasmIter disasmInst search) data) := by
  have hlow : ∀ w ∈ r, low w = w := fun w hw => low_of_lt (Nat.lt_of_le_of_lt hw.2 hr)
  have hstart : r.start ∈ r := ⟨BitVec.le_refl _, r.ordered⟩
  obtain ⟨n, hn⟩ := @vleExhaustive_short search (writeOutput data [.timestamp, .startOfRun])
    hs.sizeError hsize
    (by rw [writeOutput_finalInstruction, hs.final]; exact hr)
    (by rw [writeOutput_finalInstruction, writeOutput_currentInstruction, hs.final, hcur]
        exact r.ordered)
  rw [writeOutput_finalInstruction, writeOutput_currentInstruction, hs.final, hcur] at hn
  have henum : ∀ q ∈ r, search q = false → Enumerated search r (2, q) := fun q hq hclean =>
    ⟨.inl rfl, (hlow q hq).symm ▸ hq, fun _ => Nat.lt_of_le_of_lt hq.2 hr, hclean⟩
  simp only [entryHandler, config_search, config_fetchInstruction, writeOutput_currentInstruction, hcur]
  cases hclean : search r.start with
  | false =>
    rw [if_neg Bool.false_ne_true]
    refine .next ?_ hsize (fun w hw _ => ?_) ⟨hs.final, hs.sizeError, hs.running, hs.pointer⟩
      (by simp [endsOfRun])
    · simpa [executed, hsize, hcur] using henum _ hstart hclean
    · rw [enterInstruction_currentInstruction, writeOutput_currentInstruction, hcur]
      exact hw.1
  | true =>
    rw [if_pos rfl, hn]
    have hafter : ∀ w ∈ r, search w = false → r.start < w := fun w hw hw' =>
      Cyclic.lt_of_le_of_ne hw.1 fun h => by rw [← h, hclean] at hw'; cases hw'
    cases hq : (pending search r.start r.final).head? with
    | none =>
      refine .last (fun w hw => ?_) rfl (by simp [endsOfRun])
      by_contra hw'
      rw [Bool.not_eq_true] at hw'
      exact absurd (search_of_head?_pending r.ordered hq w (hafter w hw hw') hw.2) (by simp [hw'])
    | some q =>
      obtain ⟨⟨hlt, hle, hq'⟩, hmin⟩ := le_of_head?_pending r.ordered hq
      refine .next ?_ hsize (fun w hw hw' => hmin w (hafter w hw hw') hw.2 hw')
        ⟨hs.final, hs.sizeError, hs.running, hs.pointer⟩ (by simp [endsOfRun])
      simpa [executed, hsize] using henum q ⟨BitVec.le_of_lt hlt, hle⟩ hq'

end

end IScanU.RV64GC
