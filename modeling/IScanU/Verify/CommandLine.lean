import IScanU.Main
import IScanU.Verify.Partition

/-! # From the command line to the work set

What the options ask for is read off the list of options: the last `-j` and the last `-a` count,
and `-b` and `-e` narrow the range one after the other. The counts are narrowed to `int` after
they have been checked, and from there on a thread count can be zero or negative. -/

namespace IScanU

/-! ## What the options ask for -/

def Opt.jArg : Opt → Option RegT
  | .j arg => some arg
  | _ => none

def Opt.aArg : Opt → Option RegT
  | .a arg => some arg
  | _ => none

/-- The argument of the last option of one kind. -/
def lastArg (arg : Opt → Option RegT) (opts : List Opt) : Option RegT :=
  (opts.filterMap arg).getLast?

/-- The thread count, as the `int` that it is stored in. -/
def requestedThreads (opts : List Opt) : BitVec 32 :=
  match lastArg Opt.jArg opts with
  | none => 1
  | some arg => if arg = 0 then 1 else arg.setWidth 32

/-- `-b` moves the start to any number that is not above the end, also to one below the start. `-e`
moves the end to a number inside the range. -/
def narrow : Nat × Nat → Opt → Nat × Nat
  | (lo, hi), .b arg => if arg.toNat ≤ hi then (arg.toNat, hi) else (lo, hi)
  | (lo, hi), .e arg => if lo ≤ arg.toNat ∧ arg.toNat ≤ hi then (lo, arg.toNat) else (lo, hi)
  | r, _ => r

/-- The ends of the range that the options ask for, out of `[0, top]`. -/
def requestedRange (top : Nat) (opts : List Opt) : Nat × Nat := opts.foldl narrow (0, top)

@[simp] theorem lastArg_nil (arg : Opt → Option RegT) : lastArg arg [] = none := rfl

@[simp] theorem lastArg_snoc (arg : Opt → Option RegT) (opts : List Opt) (o : Opt) :
    lastArg arg (opts ++ [o]) = (arg o).or (lastArg arg opts) := by
  cases h : arg o <;> simp [lastArg, List.filterMap_append, h]

@[simp] theorem requestedRange_snoc (top : Nat) (opts : List Opt) (o : Opt) :
    requestedRange top (opts ++ [o]) = narrow (requestedRange top opts) o := by
  simp [requestedRange]

theorem narrow_ordered {r : Nat × Nat} (o : Opt) (h : r.1 ≤ r.2) :
    (narrow r o).1 ≤ (narrow r o).2 ∧ (narrow r o).2 ≤ r.2 := by
  unfold narrow
  split <;> (try split) <;> simp_all

/-- Whatever is asked for, the range stays ordered and inside `[0, top]`. -/
theorem requestedRange_ordered (top : Nat) (opts : List Opt) :
    (requestedRange top opts).1 ≤ (requestedRange top opts).2 ∧
      (requestedRange top opts).2 ≤ top := by
  induction opts using List.reverseRecOn with
  | nil => exact ⟨Nat.zero_le _, Nat.le_refl _⟩
  | append_singleton opts o ih =>
    rw [requestedRange_snoc]
    exact (narrow_ordered o ih.1).imp id (·.trans ih.2)

/-! ## What parsing leaves -/

/-- The settings hold what the options ask for. -/
structure Parsed (arch : ArchProperties) (opts : List Opt) (s : Settings) : Prop where
  threads : s.numThreads = requestedThreads opts
  range : (s.firstInstruction.toNat, s.lastInstruction.toNat) =
    requestedRange arch.lastInstruction.toNat opts
  setAffinity : s.setAffinity = (lastArg Opt.aArg opts).isSome
  cores : ∀ arg, lastArg Opt.aArg opts = some arg → s.numCores = arg.setWidth 32

theorem parsed_initial (arch : ArchProperties) : Parsed arch [] (.initial arch) :=
  ⟨rfl, rfl, rfl, fun _ h => nomatch h⟩

theorem Parsed.step {arch : ArchProperties} {opts : List Opt} {s : Settings} (h : Parsed arch opts s)
    (o : Opt) (hp : o = .p → arch.archSingleStepPtrace) :
    ∃ s', parseOption arch s o = some s' ∧ Parsed arch (opts ++ [o]) s' := by
  obtain ⟨hthreads, hrange, haff, hcores⟩ := h
  cases o with
  | j arg =>
    refine ⟨_, rfl, ?_, ?_, ?_, ?_⟩ <;> simp_all [requestedThreads, Opt.jArg, Opt.aArg, narrow]
  | b arg =>
    by_cases hc : arg ≤ s.lastInstruction
    · refine ⟨_, congrArg some (if_pos hc), ?_, ?_, ?_, ?_⟩ <;>
        simp_all [requestedThreads, Opt.jArg, Opt.aArg, narrow, ← hrange, BitVec.le_def]
    · refine ⟨_, congrArg some (if_neg hc), ?_, ?_, ?_, ?_⟩ <;>
        simp_all [requestedThreads, Opt.jArg, Opt.aArg, narrow, ← hrange, BitVec.le_def]
  | e arg =>
    by_cases hc : arg ≤ s.lastInstruction ∧ arg ≥ s.firstInstruction
    · refine ⟨_, congrArg some (if_pos hc), ?_, ?_, ?_, ?_⟩ <;>
        simp_all [requestedThreads, Opt.jArg, Opt.aArg, narrow, ← hrange, BitVec.le_def]
    · refine ⟨_, congrArg some (if_neg hc), ?_, ?_, ?_, ?_⟩ <;>
        simp_all [requestedThreads, Opt.jArg, Opt.aArg, narrow, ← hrange, BitVec.le_def]
      omega
  | a arg =>
    refine ⟨_, rfl, ?_, ?_, ?_, ?_⟩ <;> simp_all [requestedThreads, Opt.jArg, Opt.aArg, narrow]
  | p =>
    refine ⟨_, if_pos (hp rfl), ?_, ?_, ?_, ?_⟩ <;>
      simp_all [requestedThreads, Opt.jArg, Opt.aArg, narrow]
  | _ =>
    refine ⟨_, rfl, ?_, ?_, ?_, ?_⟩ <;> simp_all [requestedThreads, Opt.jArg, Opt.aArg, narrow]

/-- Parsing succeeds if `-p` is available or not asked for, and leaves what the options ask for. -/
theorem parseOptions_spec {arch : ArchProperties} {opts : List Opt}
    (hp : .p ∈ opts → arch.archSingleStepPtrace) :
    ∃ s, parseOptions arch opts = some s ∧ Parsed arch opts s := by
  induction opts using List.reverseRecOn with
  | nil => exact ⟨_, rfl, parsed_initial arch⟩
  | append_singleton opts o ih =>
    obtain ⟨s, hs, hparsed⟩ := ih fun h => hp (List.mem_append_left _ h)
    obtain ⟨s', hs', hparsed'⟩ := hparsed.step o fun h => hp (by simp [h])
    refine ⟨s', ?_, hparsed'⟩
    rw [parseOptions, List.foldlM_append, ← parseOptions, hs]
    simpa using hs'

/-! ## What the constructors make of any thread count -/

/-- Every instruction of the range is assigned to a worker. -/
def Assigned (first last : RegT) (workers : List Scanner) : Prop :=
  ∀ w : InstrT, first ≤ w.setWidth 64 → w.setWidth 64 ≤ last →
    ∃ s ∈ workers, s.currentInstruction ≤ w ∧ w ≤ s.finalInstruction

namespace ScannerManager

section
variable {localScannerInit : Scanner → Scanner} {numThreads : BitVec 32} {first last : RegT}

/-- With a positive number of threads the whole range is assigned, even where it is not
partitioned. -/
theorem create_assigned (hinit : KeepsRange localScannerInit) (hle : first ≤ last)
    (hlast : last.toNat < 2 ^ 32) (hthreads : 0 < numThreads.toInt) :
    ∃ workers, create localScannerInit numThreads first last = some workers ∧ workers ≠ [] ∧
      Assigned first last workers := by
  by_cases hcond : first < last ∨ numThreads = 1
  · obtain ⟨workers, hcreate, htiles⟩ := create_tiles hinit hle hlast hthreads hcond
    refine ⟨workers, hcreate, fun h => htiles.ne_nil (by simp [h]), fun w h1 h2 => ?_⟩
    exact ((Partition.of_tiles htiles).covers w).mpr ⟨h1, h2⟩
  · rw [not_or] at hcond
    obtain rfl : first = last := BitVec.le_antisymm hle (BitVec.not_lt.mp hcond.1)
    obtain ⟨n, ipt, hn, hipt, -, hcreate⟩ := create_eq localScannerInit hle hthreads
    rw [Nat.sub_self, Nat.zero_div] at hipt
    obtain rfl : ipt = 0#64 := BitVec.eq_of_toNat_eq hipt
    obtain ⟨m, rfl⟩ : ∃ m, n = m + 1 := ⟨n - 1, by omega⟩
    have hivs := interval_createWorkers_succ hinit first 0 m 0 first (first + 0#64)
    rw [BitVec.add_zero] at hcreate hivs
    refine ⟨_, hcreate, by simp [createWorkers], fun w h1 h2 => ?_⟩
    obtain ⟨s, hs, hint⟩ := List.mem_map.mp (hivs ▸ List.mem_cons_self)
    refine ⟨s, hs, ?_⟩
    simp only [interval, ite_self, Prod.mk.injEq] at hint
    have hw := w.isLt
    rw [BitVec.le_def, BitVec.toNat_setWidth, Nat.mod_eq_of_lt (by omega)] at h1 h2
    simp only [BitVec.le_def]
    omega

/-- A negative number of threads counts as more than enough, so it is clamped. -/
theorem clampThreads_of_neg (hle : first ≤ last) (hlast : last.toNat < 2 ^ 32)
    (hthreads : numThreads.toInt < 0) :
    clampThreads numThreads first last =
      if last - first = 0#64 then numThreads else (last - first).setWidth 32 := by
  have hD := BitVec.toNat_sub_of_le hle
  have hext : 2 ^ 32 ≤ (numThreads.signExtend 64).toNat := by
    have hmsb : numThreads.msb = true := by
      rw [BitVec.msb_eq_toInt, decide_eq_true_iff]
      exact hthreads
    rw [BitVec.toNat_signExtend, if_pos hmsb]
    omega
  have hlt : last - first < numThreads.signExtend 64 := by
    rw [BitVec.lt_def, hD]
    omega
  unfold clampThreads
  by_cases h0 : last - first = 0#64
  · rw [if_neg (fun h => by simp [h0] at h), if_pos h0]
  · have hpos : last - first > 0 := by
      rw [← BitVec.toNat_inj] at h0
      exact Nat.pos_of_ne_zero h0
    rw [if_pos ⟨hlt, hpos⟩, if_neg h0]

/-- The thread counts that give workers for a range with `d` instructions after its first: the
positive ones, and the negative ones that are clamped to a positive one. -/
def Usable (numThreads : BitVec 32) (d : Nat) : Prop :=
  0 < numThreads.toInt ∨ numThreads.toInt < 0 ∧ 0 < d ∧ d < 2 ^ 31

theorem create_usable (hinit : KeepsRange localScannerInit) (hle : first ≤ last)
    (hlast : last.toNat < 2 ^ 32) (h : Usable numThreads (last.toNat - first.toNat)) :
    ∃ workers, create localScannerInit numThreads first last = some workers ∧ workers ≠ [] ∧
      Assigned first last workers := by
  rcases h with hpos | ⟨hneg, hd, hsmall⟩
  · exact create_assigned hinit hle hlast hpos
  · have hD := BitVec.toNat_sub_of_le hle
    have h0 : last - first ≠ 0#64 := fun h => by simp [h] at hD; omega
    have hn : ((last - first).setWidth 32).toNat = last.toNat - first.toNat := by
      rw [BitVec.toNat_setWidth, hD, Nat.mod_eq_of_lt (by omega)]
    have hpos : 0 < ((last - first).setWidth 32).toInt := by
      rw [BitVec.toInt_eq_toNat_cond, hn, if_pos (by omega)]
      omega
    have hclamp : clampThreads numThreads first last =
        clampThreads ((last - first).setWidth 32) first last := by
      rw [clampThreads_of_neg hle hlast hneg, if_neg h0]
      exact (ite_self _).symm
    obtain ⟨workers, hcreate, hrest⟩ := create_assigned hinit hle hlast hpos
    exact ⟨workers, by rw [← hcreate, create, create, hclamp], hrest⟩

/-- Any other thread count gives no workers, or a division by zero. -/
theorem create_idle (hle : first ≤ last) (hlast : last.toNat < 2 ^ 32)
    (h : ¬Usable numThreads (last.toNat - first.toNat)) {workers : List Scanner}
    (hcreate : create localScannerInit numThreads first last = some workers) : workers = [] := by
  have hD := BitVec.toNat_sub_of_le hle
  simp only [Usable, not_or, not_and, not_lt] at h
  have hidle : (clampThreads numThreads first last).toInt ≤ 0 := by
    rcases lt_or_eq_of_le h.1 with hneg | hzero
    · rw [clampThreads_of_neg hle hlast hneg]
      split
      · exact h.1
      · rename_i h0
        have hbig := h.2 hneg (by rw [← BitVec.toNat_inj, hD] at h0; exact Nat.pos_of_ne_zero h0)
        rw [BitVec.toInt_eq_toNat_cond, BitVec.toNat_setWidth, hD, Nat.mod_eq_of_lt (by omega),
          if_neg (by omega)]
        omega
    · obtain rfl : numThreads = 0#32 := BitVec.eq_of_toInt_eq hzero
      rw [clampThreads, if_neg fun h => by simp [BitVec.lt_def] at h]
      exact hzero.le
  simp only [create] at hcreate
  split at hcreate
  · cases hcreate
  · rw [Int.toNat_of_nonpos hidle] at hcreate
    exact (Option.some.inj hcreate).symm

theorem setAffinityFrom_isSome {numCores : BitVec 32} (h : numCores ≠ 0#32) (i : Int)
    (threads : List Scanner) : (setAffinityFrom numCores i threads).isSome := by
  induction threads generalizing i with
  | nil => rfl
  | cons t threads ih => simpa [setAffinityFrom, h] using ih _

/-- With at least one thread, the remainder is taken and its divisor matters. -/
theorem setAffinity_isSome_iff {numCores : BitVec 32} {threads : List Scanner} (h : threads ≠ []) :
    (setAffinity numCores threads).isSome ↔ numCores ≠ 0#32 := by
  refine ⟨?_, fun hne => setAffinityFrom_isSome hne 0 threads⟩
  rintro hsome rfl
  match threads, h with
  | t :: threads, _ => simp [setAffinity, setAffinityFrom] at hsome

end

end ScannerManager

/-! ## The whole way -/

/-- The settings start a run that is sound: no number is divided by zero, and every instruction of
a range within the target's instructions is assigned to a worker. -/
structure Launches (arch : ArchProperties) (s : Settings) : Prop where
  ordered : s.firstInstruction ≤ s.lastInstruction
  bounded : s.lastInstruction ≤ arch.lastInstruction
  workers : ∃ workers, createManager arch s = some workers ∧ workers ≠ [] ∧
    Assigned s.firstInstruction s.lastInstruction workers ∧ (affinity s workers).isSome

/-- The options ask for a usable number of threads and cores. -/
def Acceptable (arch : ArchProperties) (opts : List Opt) : Prop :=
  let range := requestedRange arch.lastInstruction.toNat opts
  ScannerManager.Usable (requestedThreads opts) (range.2 - range.1) ∧
    ∀ arg, lastArg Opt.aArg opts = some arg → arg.setWidth 32 ≠ 0#32

theorem Arch.lastInstruction_lt (arch : Arch) : arch.properties.lastInstruction.toNat < 2 ^ 32 := by
  cases arch <;> decide

theorem Parsed.ordered {arch : ArchProperties} {opts : List Opt} {s : Settings}
    (h : Parsed arch opts s) :
    s.firstInstruction ≤ s.lastInstruction ∧ s.lastInstruction ≤ arch.lastInstruction := by
  have hord := requestedRange_ordered arch.lastInstruction.toNat opts
  rwa [← h.range] at hord

/-- `MAX_THREADS_MEMCAGE` does not turn a count usable, or unusable. -/
theorem Settings.usable_threads (s : Settings) (d : Nat) :
    ScannerManager.Usable s.threads d ↔ ScannerManager.Usable s.numThreads d := by
  unfold Settings.threads
  split
  · split
    · rename_i hmax
      have h96 : maxThreadsMemcage.toInt = 96 := by decide
      simp only [ScannerManager.Usable, h96] at *
      omega
    · rfl
  all_goals rfl

theorem createManager_eq (arch : ArchProperties) (s : Settings) :
    ∃ localScannerInit, ScannerManager.KeepsRange localScannerInit ∧
      createManager arch s = ScannerManager.create localScannerInit s.threads s.firstInstruction
        s.lastInstruction := by
  unfold createManager
  split
  · exact ⟨_, ScannerManagerMC.keepsRange arch, rfl⟩
  · exact ⟨_, ScannerManagerMC.keepsRange arch, rfl⟩
  · exact ⟨_, ScannerManagerPtrace.keepsRange, rfl⟩

theorem Parsed.launches_iff {arch : Arch} {opts : List Opt} {s : Settings}
    (h : Parsed arch.properties opts s) :
    Launches arch.properties s ↔ Acceptable arch.properties opts := by
  obtain ⟨hle, hbound⟩ := h.ordered
  have hlast : s.lastInstruction.toNat < 2 ^ 32 := Nat.lt_of_le_of_lt hbound arch.lastInstruction_lt
  have husable : ScannerManager.Usable s.threads
      (s.lastInstruction.toNat - s.firstInstruction.toNat) ↔
      ScannerManager.Usable (requestedThreads opts)
        ((requestedRange arch.properties.lastInstruction.toNat opts).2 -
          (requestedRange arch.properties.lastInstruction.toNat opts).1) := by
    rw [← h.range, ← h.threads]
    exact s.usable_threads _
  have haff : ∀ workers, workers ≠ [] → ((affinity s workers).isSome ↔
      ∀ arg, lastArg Opt.aArg opts = some arg → arg.setWidth 32 ≠ 0#32) := by
    intro workers hne
    unfold affinity
    cases harg : lastArg Opt.aArg opts with
    | none => simp [h.setAffinity, harg]
    | some arg => simp [h.setAffinity, harg, ScannerManager.setAffinity_isSome_iff hne, h.cores arg harg]
  obtain ⟨init, hinit, hcreate⟩ := createManager_eq arch.properties s
  unfold Acceptable
  constructor
  · rintro ⟨-, -, workers, hworkers, hne, -, hsome⟩
    refine ⟨?_, (haff workers hne).mp hsome⟩
    by_contra hunusable
    exact hne (ScannerManager.create_idle hle hlast (fun hu => hunusable (husable.mp hu))
      (hcreate ▸ hworkers))
  · rintro ⟨hu, harg⟩
    obtain ⟨workers, hworkers, hne, hassigned⟩ :=
      ScannerManager.create_usable hinit hle hlast (husable.mpr hu)
    exact ⟨hle, hbound, workers, hcreate.trans hworkers, hne, hassigned, (haff workers hne).mpr harg⟩

/-- Options that only ask for what is available are parsed, and start a sound run exactly if the
numbers of threads and cores survive their narrowing. -/
theorem commandLine_launches_iff (arch : Arch) (opts : List Opt)
    (hp : .p ∈ opts → arch.properties.archSingleStepPtrace) :
    ∃ s, parseOptions arch.properties opts = some s ∧
      (Launches arch.properties s ↔ Acceptable arch.properties opts) := by
  obtain ⟨s, hs, hparsed⟩ := parseOptions_spec hp
  exact ⟨s, hs, hparsed.launches_iff⟩

theorem commandLine_launches_iff_ptrace :
    ∃ s, parseOptions .aarch64 [.p, .j 4, .e 99] = some s ∧
      (Launches .aarch64 s ↔ Acceptable .aarch64 [.p, .j 4, .e 99]) :=
  commandLine_launches_iff .aarch64 _ (by decide)

/-- `-j 4294967296` passes the check for at least one thread and becomes zero. -/
theorem commandLine_fails_j :
    ∃ s, parseOptions .aarch64 [.j 4294967296] = some s ∧
      createManager .aarch64 s = none ∧ ¬Launches .aarch64 s := by
  refine ⟨_, rfl, by decide, ?_⟩
  rintro ⟨-, -, workers, hworkers, -⟩
  cases hworkers

end IScanU
