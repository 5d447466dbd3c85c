import IScanU.ScannerManager
import IScanU.Theory.Tiling

/-! # The work partition

The constructors walk the range with two running boundaries. As long as every thread has an
instruction to itself the intervals they hand out are laid end to end; a range of one instruction
is not clamped, and from the second thread on the intervals are then turned around. -/

namespace IScanU

/-- The range of one instruction after another is handed to exactly one worker, and nothing else. -/
structure Partition (first last : RegT) (workers : List Scanner) : Prop where
  nonempty : ∀ s ∈ workers, s.currentInstruction ≤ s.finalInstruction
  disjoint : workers.Pairwise fun s t => ∀ w : InstrT,
    ¬((s.currentInstruction ≤ w ∧ w ≤ s.finalInstruction) ∧
      (t.currentInstruction ≤ w ∧ w ≤ t.finalInstruction))
  covers : ∀ w : InstrT,
    (∃ s ∈ workers, s.currentInstruction ≤ w ∧ w ≤ s.finalInstruction) ↔
      first ≤ w.setWidth 64 ∧ w.setWidth 64 ≤ last

/-- The boundaries of a worker as numbers. -/
def interval (s : Scanner) : Nat × Nat := (s.currentInstruction.toNat, s.finalInstruction.toNat)

theorem Partition.of_tiles {workers : List Scanner}
    (h : Tiles first.toNat last.toNat (workers.map interval)) : Partition first last workers := by
  refine ⟨fun s hs => ?_, ?_, fun w => ?_⟩
  · exact h.nonempty (interval s) (List.mem_map_of_mem hs)
  · refine (List.pairwise_map.mp h.disjoint).imp fun {s t} hst w => ?_
    simp only [interval, BitVec.le_def] at *
    omega
  · have hcov := h.covers w.toNat
    simp only [List.mem_map, ↓existsAndEq, interval] at hcov
    have hw := w.isLt
    rw [BitVec.le_def, BitVec.le_def, BitVec.toNat_setWidth, Nat.mod_eq_of_lt (by omega), ← hcov]
    simp [BitVec.le_def]

/-! ## Machine numbers -/

/-- A positive `int` keeps its value when it is converted to `uint64_t`. -/
theorem toNat_signExtend_of_pos {x : BitVec 32} (h : 0 < x.toInt) :
    (x.signExtend 64).toNat = x.toNat := by
  have hmsb : x.msb = false := by
    rw [← Bool.not_eq_true, BitVec.msb_eq_toInt, decide_eq_true_iff]
    omega
  rw [BitVec.signExtend_eq_setWidth_of_msb_false hmsb, BitVec.toNat_setWidth]
  have := x.isLt
  omega

theorem toNat_eq_toInt_of_pos {x : BitVec 32} (h : 0 < x.toInt) :
    x.toInt = x.toNat ∧ 0 < x.toNat ∧ x.toNat < 2 ^ 31 := by
  have := x.isLt
  rw [BitVec.toInt_eq_toNat_cond] at h ⊢
  split at h <;> omega

namespace ScannerManager

/-! ## The loop over the threads -/

section
variable {localScannerInit : Scanner → Scanner}

/-- `localScannerInit` leaves the boundaries alone. -/
def KeepsRange (localScannerInit : Scanner → Scanner) : Prop :=
  ∀ data, (localScannerInit data).currentInstruction = data.currentInstruction ∧
    (localScannerInit data).finalInstruction = data.finalInstruction

/-- What the loop hands to the next thread. -/
theorem interval_createWorkers_succ (hinit : KeepsRange localScannerInit)
    (last ipt : RegT) (remaining i : Nat) (start final : RegT) :
    (createWorkers localScannerInit last ipt (remaining + 1) i start final).map interval =
      (start.toNat % 2 ^ 32, (if remaining = 0 then last else final).toNat % 2 ^ 32) ::
        (createWorkers localScannerInit last ipt remaining (i + 1) (final + 1#64)
          (final + ipt)).map interval := by
  rw [createWorkers, List.map_cons]
  congr 1
  split <;> simp [interval, newScanner, hinit _]

/-- The intervals of the remaining threads start at the running boundary and end at `last`. -/
theorem createWorkers_tiles (hinit : KeepsRange localScannerInit) {last ipt : RegT}
    (hlast : last.toNat < 2 ^ 32) {remaining : Nat} (i : Nat) {start final : RegT}
    (hle : start.toNat ≤ final.toNat) (hfinal : final.toNat + remaining * ipt.toNat ≤ last.toNat)
    (hipt : remaining = 0 ∨ 0 < ipt.toNat) :
    Tiles start.toNat last.toNat
      ((createWorkers localScannerInit last ipt (remaining + 1) i start final).map interval) := by
  induction remaining generalizing i start final with
  | zero =>
    rw [interval_createWorkers_succ hinit, if_pos rfl, createWorkers, List.map_nil,
      Nat.mod_eq_of_lt hlast, Nat.mod_eq_of_lt (by omega)]
    exact .last (by omega)
  | succ remaining ih =>
    rw [Nat.succ_mul] at hfinal
    have hstep : (final + 1#64).toNat = final.toNat + 1 := by
      rw [BitVec.toNat_add, BitVec.toNat_ofNat]
      omega
    have hnext : (final + ipt).toNat = final.toNat + ipt.toNat := by
      rw [BitVec.toNat_add]
      omega
    rw [interval_createWorkers_succ hinit, if_neg (Nat.succ_ne_zero _),
      Nat.mod_eq_of_lt (by omega), Nat.mod_eq_of_lt (by omega)]
    refine .cons hle (hstep ▸ ih (i + 1) ?_ ?_ ?_) <;> omega

/-! ## The constructor -/

section
variable {numThreads : BitVec 32} {first last : RegT}

/-- The clamp leaves at least one instruction for each thread, except for a range of one. -/
theorem clampThreads_spec (hle : first ≤ last)
    (hthreads : 0 < numThreads.toInt) :
    0 < (clampThreads numThreads first last).toInt ∧
      (clampThreads numThreads first last).toNat =
        if last.toNat - first.toNat = 0 then numThreads.toNat
        else min numThreads.toNat (last.toNat - first.toNat) := by
  obtain ⟨-, hpos, hsmall⟩ := toNat_eq_toInt_of_pos hthreads
  have hD := BitVec.toNat_sub_of_le hle
  unfold clampThreads
  simp only [BitVec.lt_def, gt_iff_lt, hD, toNat_signExtend_of_pos hthreads]
  split
  · rename_i hc
    have h32 : ((last - first).setWidth 32).toNat = last.toNat - first.toNat := by
      rw [BitVec.toNat_setWidth, hD, Nat.mod_eq_of_lt (by omega)]
    have hzero : (0 : RegT).toNat = 0 := rfl
    refine ⟨?_, ?_⟩
    · rw [BitVec.toInt_eq_toNat_cond, h32]
      split <;> omega
    · rw [h32, if_neg (by omega)]
      omega
  · rename_i hc
    have hzero : (0 : RegT).toNat = 0 := rfl
    exact ⟨hthreads, by split <;> omega⟩

/-- With a positive number of threads the constructor runs its loop. -/
theorem create_eq (localScannerInit : Scanner → Scanner) (hle : first ≤ last)
    (hthreads : 0 < numThreads.toInt) :
    ∃ n ipt, 0 < n ∧ ipt.toNat = (last.toNat - first.toNat) / n ∧
      (n = if last.toNat - first.toNat = 0 then numThreads.toNat
        else min numThreads.toNat (last.toNat - first.toNat)) ∧
      create localScannerInit numThreads first last =
        some (createWorkers localScannerInit last ipt n 0 first (first + ipt)) := by
  obtain ⟨hpos, hn⟩ := clampThreads_spec hle hthreads
  obtain ⟨hint, hnat, -⟩ := toNat_eq_toInt_of_pos hpos
  have hext := toNat_signExtend_of_pos hpos
  refine ⟨_, (last - first) / (clampThreads numThreads first last).signExtend 64, hnat, ?_, hn, ?_⟩
  · rw [BitVec.toNat_udiv, BitVec.toNat_sub_of_le hle, hext]
  · have hne : (clampThreads numThreads first last).signExtend 64 ≠ 0#64 := fun h => by
      rw [h] at hext
      simp at hext
      omega
    simp only [create, if_neg hne, hint, Int.toNat_natCast]

/-- A range of at least two instructions, or one thread: the workers' intervals tile the range. -/
theorem create_tiles (hinit : KeepsRange localScannerInit) (hle : first ≤ last)
    (hlast : last.toNat < 2 ^ 32) (hthreads : 0 < numThreads.toInt)
    (h : first < last ∨ numThreads = 1) :
    ∃ workers, create localScannerInit numThreads first last = some workers ∧
      Tiles first.toNat last.toNat (workers.map interval) := by
  obtain ⟨n, ipt, hn, hipt, hval, hcreate⟩ := create_eq localScannerInit hle hthreads
  refine ⟨_, hcreate, ?_⟩
  obtain ⟨m, rfl⟩ : ∃ m, n = m + 1 := ⟨n - 1, by omega⟩
  have hmul := Nat.div_mul_le_self (last.toNat - first.toNat) (m + 1)
  rw [← hipt, Nat.mul_succ, Nat.mul_comm] at hmul
  have hstart : (first + ipt).toNat = first.toNat + ipt.toNat := by
    rw [BitVec.toNat_add]
    rw [BitVec.le_def] at hle
    omega
  rw [BitVec.le_def] at hle
  refine createWorkers_tiles hinit hlast 0 (by omega) (by omega) ?_
  rcases h with h | rfl
  · rw [BitVec.lt_def] at h
    have : 0 < (last.toNat - first.toNat) / (m + 1) := Nat.div_pos (by split at hval <;> omega) hn
    omega
  · have : (1 : BitVec 32).toNat = 1 := rfl
    split at hval <;> omega

/-- A range of one instruction and several threads: the second worker starts past its final
instruction or, at the top of the range, at zero. -/
theorem create_not_partition (hinit : KeepsRange localScannerInit)
    (hthreads : 0 < numThreads.toInt) (hone : numThreads ≠ 1) {workers : List Scanner}
    (hcreate : create localScannerInit numThreads last last = some workers) :
    ¬Partition last last workers := by
  intro hp
  obtain ⟨n, ipt, hn, hipt, hval, hcreate'⟩ :=
    create_eq localScannerInit (BitVec.le_refl last) hthreads
  rw [Nat.sub_self, Nat.zero_div] at hipt
  obtain rfl : ipt = 0#64 := BitVec.eq_of_toNat_eq hipt
  rw [hcreate, Option.some_inj] at hcreate'
  obtain ⟨m, rfl⟩ : ∃ m, n = m + 2 := by
    have h1 : numThreads.toNat ≠ 1 := fun h => hone (BitVec.eq_of_toNat_eq h)
    rw [if_pos (Nat.sub_self _)] at hval
    exact ⟨n - 2, by omega⟩
  have hivs := congrArg (List.map interval) hcreate'
  rw [interval_createWorkers_succ hinit, interval_createWorkers_succ hinit] at hivs
  simp only [Nat.succ_ne_zero, ite_self, BitVec.add_zero] at hivs
  match workers, hivs with
  | s :: t :: rest, hivs =>
    simp only [List.map_cons, List.cons.injEq, interval, Prod.mk.injEq] at hivs
    obtain ⟨⟨hs, hs'⟩, ⟨ht, ht'⟩, -⟩ := hivs
    have hnonempty := hp.nonempty t (by simp)
    have hdisj := List.rel_of_pairwise_cons hp.disjoint (List.mem_cons_self (a := t)) s.currentInstruction
    simp only [BitVec.le_def] at *
    omega

end

end

end ScannerManager

theorem ScannerManagerMC.keepsRange (arch : ArchProperties) :
    ScannerManager.KeepsRange (localScannerInit arch) := fun _ => ⟨rfl, rfl⟩

theorem ScannerManagerPtrace.keepsRange : ScannerManager.KeepsRange localScannerInit :=
  fun _ => ⟨rfl, rfl⟩

section
variable {numThreads : BitVec 32} {first last : RegT}

theorem ScannerManager.partition_iff {localScannerInit : Scanner → Scanner}
    (hinit : KeepsRange localScannerInit) (hle : first ≤ last) (hlast : last.toNat < 2 ^ 32)
    (hthreads : 0 < numThreads.toInt) :
    (∃ workers, create localScannerInit numThreads first last = some workers ∧
      Partition first last workers) ↔ first < last ∨ numThreads = 1 := by
  constructor
  · rintro ⟨workers, hcreate, hp⟩
    by_contra hcond
    rw [not_or] at hcond
    obtain rfl : first = last := BitVec.le_antisymm hle (BitVec.not_lt.mp hcond.1)
    exact create_not_partition hinit hthreads hcond.2 hcreate hp
  · intro hcond
    obtain ⟨workers, hcreate, htiles⟩ := create_tiles hinit hle hlast hthreads hcond
    exact ⟨workers, hcreate, .of_tiles htiles⟩

/-- Either manager partitions the range among its workers exactly if the range has two
instructions or there is one thread. -/
theorem create_partition_iff (arch : ArchProperties) (hle : first ≤ last)
    (hlast : last.toNat < 2 ^ 32) (hthreads : 0 < numThreads.toInt) :
    ((∃ workers, ScannerManagerMC.create arch numThreads first last = some workers ∧
        Partition first last workers) ↔ first < last ∨ numThreads = 1) ∧
      ((∃ workers, ScannerManagerPtrace.create numThreads first last = some workers ∧
        Partition first last workers) ↔ first < last ∨ numThreads = 1) :=
  ⟨ScannerManager.partition_iff (ScannerManagerMC.keepsRange arch) hle hlast hthreads,
    ScannerManager.partition_iff ScannerManagerPtrace.keepsRange hle hlast hthreads⟩

/-- Ten instructions for three threads. -/
theorem create_partition_iff_ten :
    ((∃ workers, ScannerManagerMC.create .aarch64 3 0 9 = some workers ∧
        Partition 0 9 workers) ↔ (0 : RegT) < 9 ∨ (3 : BitVec 32) = 1) ∧
      ((∃ workers, ScannerManagerPtrace.create 3 0 9 = some workers ∧
        Partition 0 9 workers) ↔ (0 : RegT) < 9 ∨ (3 : BitVec 32) = 1) :=
  create_partition_iff .aarch64 (by decide) (by decide) (by decide)

/-- Two threads for the range `[5, 5]`: the second worker gets `[6, 5]`. -/
theorem create_partition_fails_two_threads :
    ∃ workers workers', ScannerManagerMC.create .aarch64 2 5 5 = some workers ∧
      ScannerManagerPtrace.create 2 5 5 = some workers' ∧
      workers.map interval = [(5, 5), (6, 5)] ∧ workers'.map interval = [(5, 5), (6, 5)] ∧
      ¬Partition 5 5 workers ∧ ¬Partition 5 5 workers' :=
  have htwo : 0 < (2 : BitVec 32).toInt := by decide
  ⟨_, _, rfl, rfl, by decide, by decide,
    ScannerManager.create_not_partition (ScannerManagerMC.keepsRange _) htwo (by decide) rfl,
    ScannerManager.create_not_partition ScannerManagerPtrace.keepsRange htwo (by decide) rfl⟩

end

end IScanU
