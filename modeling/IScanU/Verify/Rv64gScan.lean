import IScanU.RV64G
import IScanU.Verify.CompleteScan
import IScanU.Verify.Partition

/-! # The scan for full-size instructions

`riscvgOnlyFetch` walks in steps of 4 and stops on equality with the final instruction. When both
ends of the range have the low bits of a full-size instruction the stage is a queue like
`exhaustive`, for the blacklist together with all words that have other low bits
(`nextWord_eq_pending`). Otherwise the walk starts on a word that it should not visit, or never
meets the final instruction. -/

namespace IScanU.RV64G

/-- The low bits of a full-size instruction. -/
def fullSize (w : InstrT) : Bool := w &&& 0b11 == 0b11

theorem fullSize_iff {w : InstrT} : fullSize w = true ↔ w.toNat % 4 = 3 := by
  have hand : (w &&& 0b11).toNat = w.toNat % 4 := by
    rw [BitVec.toNat_and]
    exact Nat.and_two_pow_sub_one_eq_mod w.toNat 2
  rw [fullSize, beq_iff_eq, ← BitVec.toNat_inj, hand]
  exact Iff.rfl

/-- What a scan for full-size instructions passes over. -/
def skipped (w : InstrT) : Bool := blacklist.search w || !fullSize w

theorem skipped_eq_false {w : InstrT} :
    skipped w = false ↔ blacklist.search w = false ∧ fullSize w = true := by
  rw [skipped, Bool.or_eq_false_iff, Bool.not_eq_false']

theorem fullSize_of_search {w : InstrT} (h : blacklist.search w = true) : fullSize w = true := by
  have := toNat_of_search h
  rw [fullSize_iff]
  omega

/-- The loop passes over one blacklisted word at most. -/
theorem riscvgOnlyLoop_eq (search : InstrT → Bool)
    (hsearch : ∀ k, search k = true → search (k + 4#32) = false) (t : InstrT) (data : Scanner) :
    riscvgOnlyLoop search hsearch t data =
      if search t = true then
        if t = data.finalInstruction then (none, data) else (some (t + 4#32), data.count 1)
      else (some t, data) := by
  rw [riscvgOnlyLoop]
  cases h : search t with
  | false => rfl
  | true =>
    rw [riscvgOnlyLoop, hsearch t h]
    rfl

/-- What `riscvgOnlyFetch` yields. -/
def nextWord (current final : InstrT) : Option InstrT :=
  if current = final then none
  else if blacklist.search (current + 4#32) then
    if current + 4#32 = final then none else some (current + 4#32 + 4#32)
  else some (current + 4#32)

theorem riscvgOnlyFetch_fetches (data : Scanner) :
    Fetches riscvgOnlyFetch (nextWord data.currentInstruction data.finalInstruction) data := by
  intro d hcur hfinal
  rw [← hcur, ← hfinal, riscvgOnlyFetch, riscvgOnlyLoop_eq, nextWord]
  split
  · exact ⟨0, rfl⟩
  · split
    · split
      · exact ⟨0, rfl⟩
      · exact ⟨1, rfl⟩
    · exact ⟨0, rfl⟩

/-! ## An aligned range -/

/-- Both the current and the final instruction have the low bits of a full-size one. -/
structure Aligned (data : Scanner) : Prop where
  current : fullSize data.currentInstruction = true
  final : fullSize data.finalInstruction = true
  ordered : data.currentInstruction ≤ data.finalInstruction

section
variable {c final : InstrT}

theorem fullSize_iff_sub {x : InstrT} (hc : fullSize c = true) :
    fullSize x = true ↔ (x - c).toNat % 4 = 0 := by
  rw [fullSize_iff] at hc ⊢
  have hx := x.isLt
  rw [BitVec.toNat_sub]
  omega

theorem not_skipped_iff {x : InstrT} (hc : fullSize c = true) :
    (!skipped x) = false ↔ ((x - c).toNat % 4 = 0 → blacklist.search x = true) := by
  rw [Bool.not_eq_false', skipped, Bool.or_eq_true, Bool.not_eq_true', ← fullSize_iff_sub hc]
  cases fullSize x <;> simp

theorem toNat_step {k : InstrT} : (c + k - c).toNat = k.toNat := by
  rw [BitVec.add_comm, BitVec.add_sub_cancel]

/-- In distances from the current instruction, only every fourth word counts. -/
theorem head?_pending_eq_some {k : InstrT} (hc : fullSize c = true) (hk : k.toNat % 4 = 0)
    (hpos : 0 < k.toNat) (hle : k.toNat ≤ (final - c).toNat)
    (hs : blacklist.search (c + k) = false)
    (hbefore : ∀ x, 0 < (x - c).toNat → (x - c).toNat < k.toNat → (x - c).toNat % 4 = 0 →
      blacklist.search x = true) :
    (pending skipped c final).head? = some (c + k) := by
  rw [pending, Cyclic.head?_filter_ioc_eq_some]
  refine ⟨⟨?_, ?_, ?_⟩, fun x hx hlt => ?_⟩
  · rw [BitVec.lt_def, toNat_step]
    exact hpos
  · rw [BitVec.le_def, toNat_step]
    exact hle
  · rw [Bool.not_eq_true', skipped_eq_false, fullSize_iff_sub hc, toNat_step]
    exact ⟨hs, hk⟩
  · rw [BitVec.lt_def, toNat_step] at hlt
    exact (not_skipped_iff hc).2 (hbefore x hx hlt)

theorem head?_pending_eq_none (hc : fullSize c = true)
    (hall : ∀ x, 0 < (x - c).toNat → (x - c).toNat ≤ (final - c).toNat → (x - c).toNat % 4 = 0 →
      blacklist.search x = true) : (pending skipped c final).head? = none := by
  rw [pending, Cyclic.head?_filter_ioc_eq_none]
  exact fun x hx hle => (not_skipped_iff hc).2 (hall x hx hle)

theorem eq_add_of_toNat_sub {x k : InstrT} (h : (x - c).toNat = k.toNat) : x = c + k := by
  rw [← BitVec.eq_of_toNat_eq h, BitVec.add_comm, BitVec.sub_add_cancel]

end

/-- The next word in the walk, if it is not blacklisted, or else the one after it, is what comes
first among the words that are not skipped. -/
theorem nextWord_eq_pending {c final : InstrT} (hc : fullSize c = true)
    (hf : fullSize final = true) : nextWord c final = (pending skipped c final).head? := by
  have h4 : (4#32).toNat = 4 := rfl
  have h8 : (8#32).toNat = 8 := rfl
  rw [nextWord]
  by_cases heq : c = final
  · rw [if_pos heq, heq, pending, Cyclic.ioc_self]
    rfl
  have hdist : (final - c).toNat % 4 = 0 := (fullSize_iff_sub hc).1 hf
  have hpos := Cyclic.toNat_sub_succ heq
  rw [if_neg heq]
  cases hs : blacklist.search (c + 4#32) with
  | false =>
    rw [if_neg Bool.false_ne_true, head?_pending_eq_some hc rfl (by omega) (by omega) hs]
    intro x hx hlt
    omega
  | true =>
    -- The only word before the second next one that counts is the next one.
    have hnext : ∀ x, 0 < (x - c).toNat → (x - c).toNat < 8 → (x - c).toNat % 4 = 0 →
        blacklist.search x = true := by
      intro x hx hlt hmod
      rwa [eq_add_of_toNat_sub (k := 4#32) (by omega : (x - c).toNat = (4#32).toNat)]
    rw [if_pos rfl]
    by_cases hfinal : c + 4#32 = final
    · have hd : (final - c).toNat = 4 := by
        rw [← hfinal, toNat_step]
        exact h4
      rw [if_pos hfinal, head?_pending_eq_none hc]
      exact fun x hx hle => hnext x hx (by omega)
    · have hd : (final - c).toNat ≠ 4 :=
        fun e => hfinal (eq_add_of_toNat_sub (k := 4#32) e).symm
      have hsum : c + 4#32 + 4#32 = c + 8#32 := BitVec.add_assoc ..
      have hs' : blacklist.search (c + 8#32) = false := hsum ▸ not_search_add_four hs
      rw [if_neg hfinal, hsum,
        head?_pending_eq_some hc rfl (by omega) (by omega) hs' fun x hx hlt => hnext x hx hlt]

section
variable {analyse : AnalysisStage} {oracle : InstrT → Outcome}

theorem workerStep_move (analyse : AnalysisStage) (data : Scanner) (o : Outcome) :
    MoveStep (nextWord data.currentInstruction data.finalInstruction) o.isHang data
      (workerStep (config analyse) o data) := by
  have hfetch : Fetches (config analyse).fetchInstruction _ data := riscvgOnlyFetch_fetches data
  cases o with
  | fault sig => exact hfetch.fault sig
  | hang sig => exact hfetch.hang sig

theorem Aligned.fetches {data : Scanner} (h : Aligned data) :
    Fetches (config analyse).fetchInstruction
      (pending skipped data.currentInstruction data.finalInstruction).head? data := by
  rw [← nextWord_eq_pending h.current h.final]
  exact riscvgOnlyFetch_fetches data

theorem Aligned.step {data : Scanner} (h : Aligned data) (analyse : AnalysisStage) (o : Outcome) :
    HandlerStep skipped o.isHang data (workerStep (config analyse) o data) := by
  have hmove := workerStep_move analyse data o
  rw [nextWord_eq_pending h.current h.final] at hmove
  exact hmove.handlerStep

/-- What is handed out is aligned again. -/
theorem Aligned.of_mem {data data' : Scanner} (h : Aligned data)
    (hmem : data'.currentInstruction ∈
      worklist skipped data.currentInstruction data.finalInstruction)
    (hfinal : data'.finalInstruction = data.finalInstruction) : Aligned data' := by
  obtain ⟨⟨_, hle⟩, hs⟩ := (mem_worklist h.ordered).1 hmem
  exact ⟨(skipped_eq_false.1 hs).2, hfinal ▸ h.final, hfinal ▸ hle⟩

theorem Aligned.next {data data' : Scanner} {o : Outcome} (h : Aligned data)
    (hstep : workerStep (config analyse) o data = .resume data') : Aligned data' := by
  have hdone := h.step analyse o
  rw [hstep] at hdone
  cases hdone with
  | next hp hh =>
    refine h.of_mem ?_ hh.final
    have hmem : data'.currentInstruction ∈
        pending skipped data.currentInstruction data.finalInstruction := by simp [hp]
    rw [worklist_eq]
    split
    · exact hmem
    · exact List.mem_cons_of_mem _ hmem

/-- The run of a worker visits exactly the full-size instructions of its range. -/
def VisitsRange (analyse : AnalysisStage) (oracle : InstrT → Outcome) (page : Nat)
    (r : WorkRange) : Prop :=
  ∃ n data, workerLoop (config analyse) oracle n (workerMC .rv64g page r.start r.final) =
      .halt data ∧
    ∀ w, w ∈ data.analysed ↔ w ∈ r ∧ blacklist.search w = false ∧ w &&& 0b11 = 0b11

theorem fullSize_eq {w : InstrT} : fullSize w = true ↔ w &&& 0b11 = 0b11 := beq_iff_eq

theorem visitsRange_of_aligned {page : Nat} {r : WorkRange} (hstart : fullSize r.start = true)
    (hfinal : fullSize r.final = true) : VisitsRange analyse oracle page r := by
  have haligned : Aligned (workerMC .rv64g page r.start r.final) := ⟨hstart, hfinal, r.ordered⟩
  have hsearch : (config analyse).search r.start = skipped r.start := by
    rw [skipped, hstart, Bool.not_true, Bool.or_false]
    rfl
  have hentry : EntryStep skipped (workerMC .rv64g page r.start r.final)
      (entryHandler (config analyse) (workerMC .rv64g page r.start r.final)) :=
    entryHandler_entryStep haligned.fetches hsearch
  have hentered : ∀ data, entryHandler (config analyse) (workerMC .rv64g page r.start r.final) =
      .resume data → Aligned data := by
    intro data hresume
    rw [hresume] at hentry
    cases hentry with
    | next hw he => exact haligned.of_mem (hw ▸ List.mem_cons_self) he.final
  obtain ⟨data, hrun, hanalysed, -⟩ :=
    @run_worklist skipped (fun w => (oracle w).isHang)
      (fun data => workerStep (config analyse) (oracle data.currentInstruction) data) Aligned _ _
      hentry (fun data h => h.step analyse (oracle data.currentInstruction))
      (fun _ _ h hnext => h.next hnext) hentered
  refine ⟨_, data, hrun, fun w => ?_⟩
  have hworklist : data.analysed = worklist skipped r.start r.final := hanalysed
  rw [hworklist, mem_worklist r.ordered, skipped_eq_false, fullSize_eq]
  exact Iff.rfl

/-! ## Other ranges -/

theorem workerStep_analysed (o : Outcome) (data : Scanner) :
    (workerStep (config analyse) o data).state.analysed =
      data.analysed ++ [data.currentInstruction] :=
  (workerStep_move analyse data o).handled.analysed

theorem entryHandler_resume {data : Scanner}
    (h : blacklist.search data.currentInstruction = false) :
    entryHandler (config analyse) data =
      .resume (enterInstruction (writeOutput data [.timestamp, .startOfRun])) := by
  rw [entryHandler]
  exact if_neg (Bool.eq_false_iff.1 h)

/-- The walk is on words that the final instruction is not among. -/
structure Astray (data : Scanner) : Prop where
  current : fullSize data.currentInstruction = true
  final : ¬ fullSize data.finalInstruction = true

theorem nextWord_astray {c final : InstrT} (hc : fullSize c = true) (hf : ¬ fullSize final = true) :
    ∃ w, nextWord c final = some w ∧ fullSize w = true := by
  have hstep : ∀ {x : InstrT}, fullSize x = true → fullSize (x + 4#32) = true := by
    intro x hx
    rw [fullSize_iff_sub hx, toNat_step]
    rfl
  have hne : ∀ {x : InstrT}, fullSize x = true → x ≠ final := by
    rintro x hx rfl
    exact hf hx
  rw [nextWord, if_neg (hne hc)]
  split
  · rw [if_neg (hne (hstep hc))]
    exact ⟨_, rfl, hstep (hstep hc)⟩
  · exact ⟨_, rfl, hstep hc⟩

theorem workerStep_astray {data : Scanner} (h : Astray data) (o : Outcome) :
    ∃ data', workerStep (config analyse) o data = .resume data' ∧ Astray data' := by
  obtain ⟨w, hw, hfull⟩ := nextWord_astray h.current h.final
  have hmove := workerStep_move analyse data o
  rw [hw] at hmove
  generalize workerStep (config analyse) o data = c at hmove ⊢
  cases hmove with
  | next hcur hh => exact ⟨_, rfl, Option.some.inj hcur ▸ hfull, hh.final.symm ▸ h.final⟩
  | last hcur => cases hcur

theorem entryHandler_astray (analyse : AnalysisStage) {data : Scanner} (h : Astray data) :
    ∃ data', entryHandler (config analyse) data = .resume data' ∧ Astray data' := by
  obtain ⟨w, hw, hfull⟩ := nextWord_astray h.current h.final
  cases hs : blacklist.search data.currentInstruction with
  | false => exact ⟨_, entryHandler_resume hs, h.current, h.final⟩
  | true =>
    obtain ⟨k, hk⟩ := riscvgOnlyFetch_fetches data (writeOutput data [.timestamp, .startOfRun])
      rfl rfl
    rw [hw] at hk
    refine ⟨enterInstruction (((writeOutput data [.timestamp, .startOfRun]).count k).setCurrent w),
      ?_, hfull, h.final⟩
    simp only [entryHandler, config, writeOutput_currentInstruction, hs, hk, if_true]

/-- A range that starts elsewhere: its first word is executed all the same. -/
theorem not_visitsRange_of_start {page : Nat} {r : WorkRange} (hstart : ¬ fullSize r.start = true) :
    ¬ VisitsRange analyse oracle page r := by
  rintro ⟨n, data, hrun, hexact⟩
  have hsearch : blacklist.search r.start = false := by
    rw [Bool.eq_false_iff]
    exact fun h => hstart (fullSize_of_search h)
  rw [workerLoop, entryHandler_resume hsearch] at hrun
  have hmem := Control.mem_log_of_run Scanner.analysed Scanner.currentInstruction
    (fun data => workerStep_analysed (oracle data.currentInstruction) data) hrun
  exact hstart (fullSize_eq.2 ((hexact _).1 hmem).2.2)

/-- A range that ends elsewhere: the walk never meets its last word. -/
theorem not_visitsRange_of_final {page : Nat} {r : WorkRange} (hstart : fullSize r.start = true)
    (hfinal : ¬ fullSize r.final = true) : ¬ VisitsRange analyse oracle page r := by
  rintro ⟨n, data, hrun, hexact⟩
  have hastray : Astray (workerMC .rv64g page r.start r.final) := ⟨hstart, hfinal⟩
  obtain ⟨data', hentry, hinv⟩ := entryHandler_astray analyse hastray
  rw [workerLoop, hentry] at hrun
  obtain ⟨data'', hresume, -⟩ := Control.run_resumes (I := Astray)
    (fun data h => workerStep_astray h (oracle data.currentInstruction)) n hinv
  rw [hresume] at hrun
  cases hrun

end

/-- Whatever the instructions do, the scan of a range for full-size instructions is right exactly
when both ends of the range have their low bits. -/
theorem visitsRange_iff (analyse : AnalysisStage) (oracle : InstrT → Outcome) (page : Nat)
    (r : WorkRange) : VisitsRange analyse oracle page r ↔
      r.start &&& 0b11 = 0b11 ∧ r.final &&& 0b11 = 0b11 := by
  rw [← fullSize_eq, ← fullSize_eq]
  refine ⟨fun h => ?_, fun ⟨hstart, hfinal⟩ => visitsRange_of_aligned hstart hfinal⟩
  have hstart : fullSize r.start = true := by
    by_contra hstart
    exact not_visitsRange_of_start hstart h
  refine ⟨hstart, ?_⟩
  by_contra hfinal
  exact not_visitsRange_of_final hstart hfinal h

/-- The whole 32 bit range, from its first full-size instruction on. -/
theorem visitsRange_iff_full : VisitsRange ⟨fun _ => [], Scanner.sizeError⟩
    (fun _ => .fault default) 0x10000 ⟨0b11#32, BitVec.allOnes 32, by decide⟩ :=
  (visitsRange_iff _ _ _ _).2 ⟨by decide, by decide⟩

/-- A single thread is assigned whatever range the command line asks for. -/
theorem exists_assigned (r : WorkRange) :
    ∃ scanner, ScannerManagerMC.create .rv64g 1#32 (r.start.setWidth 64) (r.final.setWidth 64) =
        some [scanner] ∧
      scanner.currentInstruction = r.start ∧ scanner.finalInstruction = r.final := by
  have hwiden : ∀ w : InstrT, (w.setWidth 64).setWidth 32 = w := fun w =>
    BitVec.setWidth_setWidth_of_le w (by decide)
  have hle : r.start.setWidth 64 ≤ r.final.setWidth 64 := by
    rw [BitVec.le_def, BitVec.toNat_setWidth_of_le (by decide),
      BitVec.toNat_setWidth_of_le (by decide)]
    exact r.ordered
  obtain ⟨n, ipt, hn, -, hval, hcreate⟩ := ScannerManager.create_eq
    (ScannerManagerMC.localScannerInit .rv64g) hle (by decide : 0 < (1#32).toInt)
  obtain rfl : n = 1 := by
    have hone : (1#32).toNat = 1 := rfl
    rw [hone] at hval
    split at hval <;> omega
  exact ⟨_, hcreate, hwiden r.start, hwiden r.final⟩

/-- The default range starts at 0, which is not a full-size instruction. -/
theorem not_visitsRange_default : ¬ VisitsRange ⟨fun _ => [], Scanner.sizeError⟩
    (fun _ => .fault default) 0x10000 ⟨0#32, BitVec.allOnes 32, by decide⟩ :=
  not_visitsRange_of_start (by decide)

end IScanU.RV64G
