import IScanU.Verify.CompleteScan
import IScanU.Verify.RiscvcFetch

/-! # The scan for compressed instructions

A worker under `riscvcOnlyFetch` executes the first word of its range unless it is blacklisted, and
then what is pending up to `lastExamined`. The first word is not looked at for its low bits, and the
last may be one too far: the scan is right exactly if neither happens (`parcelScan_exact_iff`). -/

namespace IScanU.RV64GC

/-- The scanner for compressed instructions alone; `n` bounds the loop of its fetch stage. -/
@[simps] def parcelConfig (search : InstrT → Bool) (analyse : AnalysisStage) (n : Nat) : Config where
  arch := .rv64gc
  search := search
  analyse := analyse
  fetchInstruction data := (riscvcOnlyFetch search n data).getD (none, data)

/-- What is still to be executed after `current`. -/
def pendingParcels (search : InstrT → Bool) (current final : InstrT) : List InstrT :=
  if final ≤ current then [] else pending (skipped search) current (lastExamined final)

/-- What is executed for a range. -/
def parcelList (search : InstrT → Bool) (start final : InstrT) : List InstrT :=
  if search start then pendingParcels search start final
  else start :: pendingParcels search start final

section
variable {search : InstrT → Bool}

theorem pendingParcels_tail {current final w : InstrT} {ws : List InstrT}
    (hfinal : final.toNat < 2 ^ 16) (h : pendingParcels search current final = w :: ws) :
    pendingParcels search w final = ws := by
  unfold pendingParcels at h
  split at h
  · cases h
  · rename_i hlt
    obtain ⟨hs, htail⟩ := pending_tail h
    rw [pendingParcels]
    split
    · rename_i hge
      have hcur : current ≤ lastExamined final := by
        have := (le_lastExamined hfinal).1
        rw [BitVec.not_le, BitVec.lt_def] at hlt
        rw [BitVec.le_def]
        omega
      have hhead : (pending (skipped search) current (lastExamined final)).head? = some w := by
        rw [h, List.head?_cons]
      obtain ⟨⟨-, hle, -⟩, -⟩ := le_of_head?_pending hcur hhead
      rw [eq_lastExamined hfinal (skipped_eq_false.1 hs).2 hle hge, pending, Cyclic.ioc_self] at htail
      exact htail
    · exact htail

variable (search) in
theorem parcelConfig_fetches (analyse : AnalysisStage) {n : Nat} (hn : 2 ^ 16 < n) (data : Scanner)
    (hfinal : data.finalInstruction.toNat < 2 ^ 16) :
    Fetches (parcelConfig search analyse n).fetchInstruction
      (pendingParcels search data.currentInstruction data.finalInstruction).head? data := by
  intro d hcur hfin
  rw [← hcur, ← hfin, pendingParcels, parcelConfig_fetchInstruction]
  rw [← hfin] at hfinal
  split
  · rename_i hge
    exact ⟨0, by rw [riscvcOnlyFetch, if_pos hge]; rfl⟩
  · rename_i hlt
    obtain ⟨k, hk⟩ := riscvcOnlyFetch_eq search d (BitVec.not_le.1 hlt) hfinal
    exact ⟨k, by rw [hk n hn]; rfl⟩

variable {analyse : AnalysisStage} {n : Nat} (hn : 2 ^ 16 < n)
include hn

theorem workerStep_parcel {data : Scanner} (hfinal : data.finalInstruction.toNat < 2 ^ 16)
    (o : Outcome) :
    MoveStep (pendingParcels search data.currentInstruction data.finalInstruction).head? o.isHang data
      (workerStep (parcelConfig search analyse n) o data) := by
  have hfetch := parcelConfig_fetches search analyse hn data hfinal
  cases o with
  | fault sig => exact hfetch.fault sig
  | hang sig => exact hfetch.hang sig

/-- A run from the middle of the scan on. -/
theorem parcelRun_resume (oracle : InstrT → Outcome) {data : Scanner}
    (hfinal : data.finalInstruction.toNat < 2 ^ 16) :
    let todo := data.currentInstruction ::
      pendingParcels search data.currentInstruction data.finalInstruction
    ∃ data', .run (fun d => workerStep (parcelConfig search analyse n)
        (oracle d.currentInstruction) d) todo.length (.resume data) = Control.halt data' ∧
      (data'.isStopped = true ∧ endsOfRun data' = endsOfRun data + 1) ∧
      data'.analysed = data.analysed ++ todo := by
  let J (d : Scanner) : Prop :=
    d.finalInstruction.toNat < 2 ^ 16 ∧ endsOfRun d = endsOfRun data
  have hmove : ∀ d, J d →
      MoveStep (pendingParcels search d.currentInstruction d.finalInstruction).head?
        (oracle d.currentInstruction).isHang d
        (workerStep (parcelConfig search analyse n) (oracle d.currentInstruction) d) :=
    fun d hd => workerStep_parcel hn hd.1 _
  have hlast : ∀ d, J d → pendingParcels search d.currentInstruction d.finalInstruction = [] →
      ∃ t, workerStep (parcelConfig search analyse n) (oracle d.currentInstruction) d = .halt t ∧
        (t.isStopped = true ∧ endsOfRun t = endsOfRun data + 1) ∧
        t.analysed = d.analysed ++ [d.currentInstruction] := fun d hd hq => by
    have hstep := hmove d hd
    rw [hq] at hstep
    generalize workerStep _ _ d = c at hstep ⊢
    cases hstep with
    | last _ _ hh hstop hends => exact ⟨_, rfl, ⟨hstop, hd.2 ▸ hends⟩, hh.analysed⟩
    | next h => cases h
  have hnext : ∀ d w ws, J d →
      pendingParcels search d.currentInstruction d.finalInstruction = w :: ws →
      ∃ t, workerStep (parcelConfig search analyse n) (oracle d.currentInstruction) d = .resume t ∧
        J t ∧ t.currentInstruction = w ∧
        pendingParcels search t.currentInstruction t.finalInstruction = ws ∧
        t.analysed = d.analysed ++ [d.currentInstruction] := fun d w ws hd hq => by
    have hstep := hmove d hd
    rw [hq] at hstep
    generalize workerStep _ _ d = c at hstep ⊢
    cases hstep with
    | last h => cases h
    | next hcur hh _ hends =>
      obtain rfl := Option.some.inj hcur
      refine ⟨_, rfl, ⟨hh.final ▸ hd.1, hends.trans hd.2⟩, rfl, ?_, hh.analysed⟩
      rw [hh.final]
      exact pendingParcels_tail hd.1 hq
  obtain ⟨data', hrun, hstop, hlog⟩ := Control.run_queue (f := fun l w => l ++ [w]) hlast hnext
    ⟨hfinal, rfl⟩
  refine ⟨data', hrun, hstop, hlog.trans ?_⟩
  rw [List.foldl_append_eq_append, ← List.flatMap_def, List.flatMap_singleton']

variable (search analyse) in
/-- The way into the scan. -/
theorem parcelEntry {data : Scanner} (hfinal : data.finalInstruction.toNat < 2 ^ 16) :
    match entryHandler (parcelConfig search analyse n) data with
    | .resume s => parcelList search data.currentInstruction data.finalInstruction =
        s.currentInstruction :: pendingParcels search s.currentInstruction s.finalInstruction ∧
      s.finalInstruction = data.finalInstruction ∧ endsOfRun s = endsOfRun data ∧
      s.analysed = data.analysed
    | .halt t => parcelList search data.currentInstruction data.finalInstruction = [] ∧
      (t.isStopped = true ∧ endsOfRun t = endsOfRun data + 1) ∧ t.analysed = data.analysed := by
  obtain ⟨k, hk⟩ := parcelConfig_fetches search analyse hn data hfinal
    (writeOutput data [.timestamp, .startOfRun]) rfl rfl
  simp only [entryHandler, parcelConfig_search, writeOutput_currentInstruction, parcelList, hk]
  cases hs : search data.currentInstruction with
  | false => exact ⟨rfl, rfl, by simp [endsOfRun], rfl⟩
  | true =>
    simp only [if_true]
    cases hp : pendingParcels search data.currentInstruction data.finalInstruction with
    | nil => exact ⟨rfl, ⟨rfl, by simp [endsOfRun]⟩, rfl⟩
    | cons w ws =>
      exact ⟨congrArg (w :: ·) (pendingParcels_tail hfinal hp).symm, rfl, by simp [endsOfRun], rfl⟩

end

/-! ## Exactness -/

/-- The bound of the scan is right or one too far. -/
theorem pendingParcels_eq (search : InstrT → Bool) {start final : InstrT} (h : start ≤ final)
    (hfinal : final.toNat < 2 ^ 16) :
    ∃ extra, pendingParcels search start final = pending (skipped search) start final ++ extra ∧
      (extra = [] ↔ start = final ∨ final &&& 0b11 ≠ 0b11 ∨ search (final + 1) = true) := by
  rw [pendingParcels]
  by_cases heq : start = final
  · rw [if_pos (heq ▸ BitVec.le_refl _), heq, pending, Cyclic.ioc_self]
    exact ⟨[], rfl, by simp⟩
  · have hlt := Cyclic.lt_of_le_of_ne h heq
    rw [if_neg (BitVec.not_le.2 hlt), lastExamined]
    split
    · rename_i hlow
      have hne : final + 1#32 ≠ start := fun hwrap => by
        rw [BitVec.lt_def, ← hwrap, BitVec.toNat_add, BitVec.toNat_one (by decide)] at hlt
        omega
      have hsucc : ¬(final + 1#32) &&& 0b11 = 0b11 := by
        have := lastExamined_low final
        rwa [lastExamined, if_pos hlow] at this
      refine ⟨[final + 1#32].filter (!skipped search ·), ?_, ?_⟩
      · rw [pending, pending, Cyclic.ioc_succ hne, List.filter_append]
      · rw [List.filter_eq_nil_iff, List.forall_mem_singleton, skipped_of_not_low hsucc,
          Bool.not_eq_true', Bool.not_eq_false]
        exact ⟨fun hs => .inr (.inr hs),
          fun hs => hs.elim (absurd · heq) fun hs => hs.elim (absurd hlow ·) id⟩
    · rename_i hlow
      exact ⟨[], (List.append_nil _).symm, iff_of_true rfl (.inr (.inl hlow))⟩

theorem parcelList_eq_iff (search : InstrT → Bool) {start final : InstrT} (h : start ≤ final)
    (hfinal : final.toNat < 2 ^ 16) :
    parcelList search start final = worklist (skipped search) start final ↔
      (start &&& 0b11 ≠ 0b11 ∨ search start = true) ∧
        (start = final ∨ final &&& 0b11 ≠ 0b11 ∨ search (final + 1) = true) := by
  obtain ⟨extra, hextra, hnil⟩ := pendingParcels_eq search h hfinal
  rw [parcelList, worklist_eq, hextra, ← hnil]
  by_cases hlow : start &&& 0b11 = 0b11
  · rw [skipped_of_low hlow, if_pos rfl]
    cases hs : search start with
    | true => simp
    | false =>
      -- The first word is executed although it is skipped elsewhere.
      refine iff_of_false (fun heq => ?_) fun hcond => ?_
      · have := congrArg List.length heq
        simp at this
        omega
      · rcases hcond.1 with h | h
        · exact h hlow
        · cases h
  · rw [skipped_of_not_low hlow, and_iff_right (.inl hlow)]
    cases search start <;> simp

/-- **The scan for compressed instructions.** Whatever the instructions do, it ends, and it executes
the parcels of the range that are neither blacklisted nor the beginning of a full-size instruction
exactly if the first word is no such beginning and the last has nothing to pass over behind it. -/
theorem parcelScan_exact_iff (search : InstrT → Bool) (analyse : AnalysisStage)
    (oracle : InstrT → Outcome) (page : Nat) (r : WorkRange) (hr : r.final.toNat < 2 ^ 16) {n : Nat}
    (hn : 2 ^ 16 < n) :
    ∃ m data, workerLoop (parcelConfig search analyse n) oracle m
        (workerMC .rv64gc page r.start r.final) = .halt data ∧
      data.isStopped = true ∧ endsOfRun data = 1 ∧
      data.analysed = parcelList search r.start r.final ∧
      (data.analysed = worklist (skipped search) r.start r.final ↔
        (r.start &&& 0b11 ≠ 0b11 ∨ search r.start = true) ∧
          (r.start = r.final ∨ r.final &&& 0b11 ≠ 0b11 ∨ search (r.final + 1) = true)) := by
  have hentry := @parcelEntry search analyse n hn (workerMC .rv64gc page r.start r.final) hr
  have hrun : ∃ m data, workerLoop (parcelConfig search analyse n) oracle m
      (workerMC .rv64gc page r.start r.final) = .halt data ∧
      (data.isStopped = true ∧ endsOfRun data = 1) ∧
      data.analysed = parcelList search r.start r.final := by
    unfold workerLoop
    generalize entryHandler (parcelConfig search analyse n) (workerMC .rv64gc page r.start r.final) =
      c at hentry ⊢
    cases c with
    | halt t => exact ⟨0, t, rfl, hentry.2.1, hentry.2.2.trans hentry.1.symm⟩
    | resume s =>
      obtain ⟨hlist, hfin, hends, hnone⟩ := hentry
      obtain ⟨data, hdata, hpost, hlog⟩ :=
        @parcelRun_resume search analyse n hn oracle s (by rw [hfin]; exact hr)
      refine ⟨_, data, hdata, ⟨hpost.1, hpost.2.trans (by rw [hends]; rfl)⟩, ?_⟩
      rw [hlog, hnone]
      exact hlist.symm
  obtain ⟨m, data, hdata, ⟨hstop, hends⟩, hlist⟩ := hrun
  refine ⟨m, data, hdata, hstop, hends, hlist, ?_⟩
  rw [hlist]
  exact parcelList_eq_iff search r.ordered hr

/-- The default range ends with the beginning of a full-size instruction, and the word behind it is
not blacklisted. -/
theorem parcelScan_exact_iff_default :
    ∃ m data, workerLoop (parcelConfig blacklist.search ⟨fun _ => [], Scanner.sizeError⟩ 65537)
        (fun _ => .fault default) m (workerMC .rv64gc 4096 0 0xFFFF) = .halt data ∧
      data.analysed = parcelList blacklist.search 0 0xFFFF ∧
      data.analysed ≠ worklist (skipped blacklist.search) 0 0xFFFF := by
  obtain ⟨m, data, hrun, -, -, hlist, hiff⟩ := parcelScan_exact_iff blacklist.search
    ⟨fun _ => [], Scanner.sizeError⟩ (fun _ => .fault default) 4096 ⟨0, 0xFFFF, by decide⟩
    (by decide) (by decide : 2 ^ 16 < 65537)
  exact ⟨m, data, hrun, hlist, fun heq => absurd (hiff.1 heq).2 (by decide)⟩

end IScanU.RV64GC
