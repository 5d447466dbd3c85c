import IScanU.Verify.Alarms
import IScanU.Verify.Pipeline
import Mathlib.Algebra.BigOperators.Group.List.Basic
import Mathlib.Algebra.Order.BigOperators.Group.List
import Mathlib.Data.Int.ModEq

/-! # What the performance log adds up to

The manager logs what the running threads have executed since their last log. The totals in the file
add up to what each thread had executed when it was last logged, but for what it executed between
the two readings of its counter; that is in no total, and neither is what a thread executes between
its last log and its stop. -/

namespace IScanU

open Text (Numeral unlines isBlank secondField)

/-! ## The text of a log -/

/-- The number in the last line of a log. -/
def logTotal (threads : List Scanner) : Int :=
  (threads.filter (!·.isStopped)).foldl (fun insn thread => toInt32 (insn + executedSinceLog thread)) 0

/-- The line of a thread. -/
def threadLine (thread : Scanner) : String :=
  "thread " ++ toString thread.workerID ++ ": " ++ toString (executedSinceLog thread)

/-- The lines of a log. -/
def logLines (threads : List Scanner) : List (List Char) :=
  "===== start of performance log =====".toList ::
    ((threads.filter (!·.isStopped)).map fun thread => (threadLine thread).toList) ++
    ["Total:".toList ++ ' ' :: (toString (logTotal threads)).toList]

theorem toList_join_lines (texts : List String) :
    (String.join (texts.map (· ++ "\n"))).toList = unlines true (texts.map String.toList) := by
  induction texts with
  | nil => rfl
  | cons text texts ih =>
    rw [List.map_cons, String.join_cons, String.toList_append, ih, String.toList_append,
      List.map_cons, Text.unlines_true_cons, List.append_assoc]
    rfl

theorem toList_performanceLog (threads : List Scanner) :
    (performanceLog threads).toList = unlines true (logLines threads) := by
  have hjoin := toList_join_lines ((threads.filter (!·.isStopped)).map threadLine)
  rw [List.map_map, List.map_map] at hjoin
  have hlog : performanceLog threads = "===== start of performance log =====\n" ++
      String.join ((threads.filter (!·.isStopped)).map ((· ++ "\n") ∘ threadLine)) ++ "Total: " ++
        toString (logTotal threads) ++ "\n" := rfl
  have hstart : "===== start of performance log =====\n".toList =
      "===== start of performance log =====".toList ++ ['\n'] := by decide
  have htotal : "Total: ".toList = "Total:".toList ++ [' '] := by decide
  have hnewline : "\n".toList = ['\n'] := rfl
  rw [hlog, logLines, List.cons_append, Text.unlines_true_cons, Text.unlines_true_append]
  simp only [String.toList_append, hjoin, hstart, htotal, hnewline, unlines, if_true,
    List.append_assoc, List.singleton_append]
  rfl

/-- Only the last line has a `T`. -/
theorem T_not_mem_logLines {threads : List Scanner} {l : List Char}
    (h : l ∈ "===== start of performance log =====".toList ::
      ((threads.filter (!·.isStopped)).map fun thread => (threadLine thread).toList)) :
    'T' ∉ l ∧ '\n' ∉ l := by
  rw [List.mem_cons, List.mem_map] at h
  obtain rfl | ⟨thread, -, rfl⟩ := h
  · decide
  · have hid : ∀ c : Char, c.isDigit = false → c ≠ '-' → c ∉ "thread ".toList → c ∉ ": ".toList →
        c ∉ (threadLine thread).toList := fun c hd hminus hl hr => by
      simp only [threadLine, String.toList_append, List.mem_append, not_or]
      exact ⟨⟨⟨hl, not_mem_toString_int _ hd hminus⟩, hr⟩, not_mem_toString_int _ hd hminus⟩
    exact ⟨hid 'T' rfl (by decide) (by decide) (by decide),
      hid '\n' rfl (by decide) (by decide) (by decide)⟩

theorem newline_not_mem_logLines {threads : List Scanner} {l : List Char}
    (h : l ∈ logLines threads) : '\n' ∉ l := by
  obtain hl | hl := List.mem_append.1 h
  · exact (T_not_mem_logLines hl).2
  · obtain rfl := List.mem_singleton.1 hl
    rw [List.mem_append, List.mem_cons, not_or, not_or]
    exact ⟨by decide, by decide, not_mem_toString_int _ rfl (by decide)⟩

theorem not_infix_of_T_not_mem {l : List Char} (h : 'T' ∉ l) : ¬ "Total".toList <:+: l :=
  fun hl => h (hl.subset (by decide))

theorem toString_int_ne_nil (n : Int) : (toString n).toList ≠ [] := by
  cases n with
  | ofNat n =>
    have hdigits : (toString (Int.ofNat n)).toList = (Numeral.ofNat n).digits :=
      Numeral.toList_toString n
    exact hdigits ▸ Numeral.ne_nil _
  | negSucc n =>
    rw [Int.toString_eq_repr, Int.repr, String.toList_append]
    exact List.append_ne_nil_of_left_ne_nil (by decide) _

theorem secondField_total (n : Int) :
    secondField ("Total:".toList ++ ' ' :: (toString n).toList) = (toString n).toList := by
  have hblank : ∀ c ∈ (toString n).toList, isBlank c = false := fun c hc => by
    obtain hd | rfl := of_mem_toString_int hc
    · exact isBlank_of_isDigit hd
    · rfl
  have hfield : secondField ("Total:".toList ++ ' ' :: ((toString n).toList ++ [])) =
      (toString n).toList :=
    Text.secondField_eq (by decide) (by simp [isBlank]) (toString_int_ne_nil n) hblank (by simp)
  rwa [List.append_nil] at hfield

/-- The script finds the totals of the logs. -/
theorem totals_performance {snapshots : List (List Scanner)}
    (h : Performance (snapshots.map performanceLog) file) :
    totals file = snapshots.map fun threads => (toString (logTotal threads)).toList := by
  generalize hlogs : snapshots.map performanceLog = logs at h
  induction h generalizing snapshots with
  | nil =>
    rw [List.map_eq_nil_iff.1 hlogs]
    rfl
  | @cons logs file log now _ ih =>
    obtain ⟨threads, rest, rfl, rfl, hrest⟩ := List.map_eq_cons_iff.1 hlogs
    have hstamp : '\n' ∉ stampChars now := not_mem_stampChars rfl (by decide) (by decide)
    have hlines : Text.lines (performanceLog threads ++ OutputLine.timestamp.text now ++ file).toList =
        logLines threads ++ stampChars now :: Text.lines file.toList := by
      rw [String.toList_append, String.toList_append, toList_performanceLog, toList_timestamp,
        List.append_assoc, Text.lines_unlines_append fun _ => newline_not_mem_logLines,
        List.append_assoc, List.singleton_append, Text.lines_append hstamp]
    have hlog : (logLines threads).filter ("Total".toList <:+: ·) =
        ["Total:".toList ++ ' ' :: (toString (logTotal threads)).toList] := by
      rw [logLines, List.filter_append, List.filter_eq_nil_iff.2, List.nil_append,
        List.filter_cons_of_pos, List.filter_nil]
      · exact decide_eq_true ⟨[], ':' :: ' ' :: (toString (logTotal threads)).toList, rfl⟩
      · intro l hl
        rw [decide_eq_true_eq]
        exact not_infix_of_T_not_mem (T_not_mem_logLines hl).1
    have htime : ¬ "Total".toList <:+: stampChars now :=
      not_infix_of_T_not_mem (not_mem_stampChars rfl (by decide) (by decide))
    rw [totals, secondFields, hlines, List.filter_append, hlog, List.filter_cons_of_neg,
      List.map_append, List.map_singleton, secondField_total, List.map_cons, ← ih hrest]
    · rfl
    · simpa using htime

/-! ## The sums -/

/-- The sum of a counter over the threads. -/
def sumOf (f : Scanner → Nat) (threads : List Scanner) : Nat := (threads.map f).sum

/-- What a running thread has executed since its last log. -/
def unlogged (thread : Scanner) : Nat :=
  if thread.isStopped then 0 else thread.numInstrExec - thread.lastPerformanceExec

@[simp] theorem sumOf_cons : sumOf f (t :: threads) = f t + sumOf f threads := List.sum_cons

theorem sumOf_concat {f : Scanner → Nat} {threads : List Scanner} {t : Scanner} :
    sumOf f (threads ++ [t]) = sumOf f threads + f t := by
  rw [sumOf, List.map_append, List.sum_append, List.map_singleton, List.sum_singleton]
  rfl

theorem toInt32_modEq (n : Int) : toInt32 n ≡ n [ZMOD 2 ^ 32] := Int.bmod_emod

theorem toInt32_of_lt {n : Nat} (h : n < 2 ^ 31) : toInt32 n = n := by
  rw [toInt32, Int.bmod_eq_of_le] <;> omega

theorem unlogged_of_stopped {t : Scanner} (h : t.isStopped = true) : unlogged t = 0 := if_pos h

theorem unlogged_of_running {t : Scanner} (h : t.isStopped = false)
    (hle : t.lastPerformanceExec ≤ t.numInstrExec) :
    (t.numInstrExec - t.lastPerformanceExec : Int) = (unlogged t : Nat) := by
  rw [unlogged, if_neg (by simp [h]), Int.natCast_sub hle]

section
variable {threads : List Scanner}

/-- The loop over the threads of a log. -/
abbrev addUp (threads : List Scanner) (acc : Int) : Int :=
  (threads.filter (!·.isStopped)).foldl (fun insn t => toInt32 (insn + executedSinceLog t)) acc

theorem addUp_modEq (hle : ∀ t ∈ threads, t.lastPerformanceExec ≤ t.numInstrExec) (acc : Int) :
    addUp threads acc ≡ acc + sumOf unlogged threads [ZMOD 2 ^ 32] := by
  induction threads generalizing acc with
  | nil => simp [addUp, sumOf]
  | cons t threads ih =>
    rw [List.forall_mem_cons] at hle
    cases hs : t.isStopped with
    | true =>
      rw [addUp, List.filter_cons_of_neg (by simp [hs]), sumOf_cons, unlogged_of_stopped hs,
        Nat.zero_add]
      exact ih hle.2 acc
    | false =>
      rw [addUp, List.filter_cons_of_pos (by simp [hs]), List.foldl_cons, sumOf_cons,
        Int.natCast_add, ← Int.add_assoc]
      refine (ih hle.2 _).trans (Int.ModEq.add_right _ ?_)
      refine (toInt32_modEq _).trans (Int.ModEq.add_left _ ?_)
      rw [executedSinceLog, ← unlogged_of_running hs hle.1]
      exact toInt32_modEq _

/-- Without an overflow the sum is exact. -/
theorem addUp_eq (hle : ∀ t ∈ threads, t.lastPerformanceExec ≤ t.numInstrExec) {acc : Nat}
    (h : acc + sumOf unlogged threads < 2 ^ 31) :
    addUp threads acc = (acc + sumOf unlogged threads : Nat) := by
  induction threads generalizing acc with
  | nil => rfl
  | cons t threads ih =>
    rw [List.forall_mem_cons] at hle
    rw [sumOf_cons, ← Nat.add_assoc] at h ⊢
    cases hs : t.isStopped with
    | true =>
      rw [unlogged_of_stopped hs] at h ⊢
      rw [addUp, List.filter_cons_of_neg (by simp [hs])]
      exact ih hle.2 h
    | false =>
      have hexact : executedSinceLog t = (unlogged t : Nat) := by
        rw [executedSinceLog, unlogged_of_running hs hle.1, toInt32_of_lt (by omega)]
      rw [addUp, List.filter_cons_of_pos (by simp [hs]), List.foldl_cons, hexact,
        ← Int.natCast_add, toInt32_of_lt (by omega)]
      exact ih hle.2 h

end

theorem sumOf_set {f : Scanner → Nat} {threads : List Scanner} {t : Scanner}
    (h : threads[i]? = some t) (t' : Scanner) :
    sumOf f (threads.set i t') + f t = sumOf f threads + f t' := by
  induction threads generalizing i with
  | nil => cases h
  | cons a threads ih =>
    cases i with
    | zero =>
      cases h
      rw [List.set_cons_zero, sumOf_cons, sumOf_cons]
      omega
    | succ i =>
      have := ih h
      rw [List.set_cons_succ, sumOf_cons, sumOf_cons]
      omega

theorem sumOf_add {f g : Scanner → Nat} {threads : List Scanner} :
    sumOf (fun t => f t + g t) threads = sumOf f threads + sumOf g threads := by
  induction threads with
  | nil => rfl
  | cons t threads ih =>
    rw [sumOf_cons, sumOf_cons, sumOf_cons, ih]
    omega

/-! ## Runs -/

/-- What the manager has read for the log it is writing. -/
def AlarmPoint.seen : AlarmPoint → List Scanner
  | .testing seen | .reading seen | .storing seen _ => seen
  | _ => []

theorem AlarmPoint.seen_of_outside {p : AlarmPoint} (h : p.outside = true) : p.seen = [] := by
  cases p <;> first | rfl | cases h

section
variable {threads threads' : List Scanner} (h : Advances threads threads')
include h

theorem Advances.sumOf_last :
    sumOf (·.lastPerformanceExec) threads' = sumOf (·.lastPerformanceExec) threads :=
  congrArg List.sum h.last

theorem Advances.le (hle : ∀ t ∈ threads, t.lastPerformanceExec ≤ t.numInstrExec) :
    ∀ t ∈ threads', t.lastPerformanceExec ≤ t.numInstrExec := by
  intro t' ht'
  obtain ⟨i, hi⟩ := List.getElem?_of_mem ht'
  obtain ⟨t, ht, hlast, hcount, -⟩ := h.forward i t' hi
  have := hle t (List.mem_of_getElem? ht)
  omega

end

namespace Supervision

/-- The invariant of the log. -/
structure Accounted (s : Supervision) : Prop where
  threads : ∀ t ∈ s.system.threads, t.lastPerformanceExec ≤ t.numInstrExec
  seen : ∀ t ∈ s.point.seen, t.lastPerformanceExec ≤ t.numInstrExec
  /-- What has been read of a thread, before the second reading. -/
  storing : ∀ seen thread, s.point = .storing seen thread → thread.isStopped = false ∧
    thread.lastPerformanceExec ≤ thread.numInstrExec ∧
    ∀ t, s.system.threads[seen.length]? = some t →
      t.lastPerformanceExec = thread.lastPerformanceExec ∧ thread.numInstrExec ≤ t.numInstrExec
  file : s.system.manager.performanceLogFD = s.logs.map (performanceLog ·.1)
  logs : ∀ log ∈ s.logs, ∀ t ∈ log.1, t.lastPerformanceExec ≤ t.numInstrExec
  sum : (s.logs.map (sumOf unlogged ·.1)).sum + sumOf unlogged s.point.seen + s.missed =
    sumOf (·.lastPerformanceExec) s.system.threads

theorem lastPerformanceExec_init {arch : ArchProperties} {workers : List (Nat × WorkRange)} :
    ∀ t ∈ (System.init arch workers).threads, t.lastPerformanceExec = 0 := fun t ht => by
  simp only [System.threads, System.init, List.map_map, List.mem_map] at ht
  obtain ⟨w, -, rfl⟩ := ht
  rfl

theorem sumOf_lastPerformanceExec_init {arch : ArchProperties} {workers : List (Nat × WorkRange)} :
    sumOf (·.lastPerformanceExec) (System.init arch workers).threads = 0 :=
  List.sum_eq_zero (List.forall_mem_map.2 lastPerformanceExec_init)

theorem Accounted.init (arch : ArchProperties) (workers : List (Nat × WorkRange)) :
    Accounted (.init arch workers) where
  threads t ht := (lastPerformanceExec_init t ht).symm ▸ Nat.zero_le _
  seen _ ht := absurd ht List.not_mem_nil
  storing _ _ h := AlarmPoint.noConfusion h
  file := rfl
  logs _ h := absurd h List.not_mem_nil
  sum := sumOf_lastPerformanceExec_init.symm

theorem threads_store {s : Supervision} {seen : List Scanner} {thread : Scanner} {c : Cell} :
    (s.store seen thread c).system.threads = s.system.threads.set seen.length
      { c.data with lastPerformanceExec := c.data.numInstrExec } :=
  System.threads_set

/-- A step beside the loop of the log. -/
theorem Accounted.go {s t : Supervision} (h : Accounted s)
    (threads : Advances s.system.threads t.system.threads)
    (point : t.point = s.point ∨ s.point.outside ∧ t.point.outside)
    (file : t.system.manager.performanceLogFD = s.system.manager.performanceLogFD)
    (missed : t.missed = s.missed) (logs : t.logs = s.logs) : Accounted t := by
  have hseen : t.point.seen = s.point.seen := by
    obtain hp | ⟨hs, ht⟩ := point
    · rw [hp]
    · rw [AlarmPoint.seen_of_outside hs, AlarmPoint.seen_of_outside ht]
  refine ⟨threads.le h.threads, hseen ▸ h.seen, fun seen thread ht => ?_, ?_, logs ▸ h.logs, ?_⟩
  · have hs : s.point = .storing seen thread := by
      obtain hp | ⟨-, hout⟩ := point
      · exact hp ▸ ht
      · rw [ht] at hout
        exact absurd hout Bool.false_ne_true
    obtain ⟨hrun, hle, hnow⟩ := h.storing seen thread hs
    refine ⟨hrun, hle, fun t' ht' => ?_⟩
    obtain ⟨u, hu, hlast, hcount, -⟩ := threads.forward _ _ ht'
    have := hnow u hu
    omega
  · rw [file, logs]
    exact h.file
  · rw [logs, hseen, missed, threads.sumOf_last]
    exact h.sum

/-- The manager reads on in its loop. -/
theorem Accounted.move {s : Supervision} {point : AlarmPoint} (h : Accounted s)
    (hseen : ∀ t ∈ point.seen, t.lastPerformanceExec ≤ t.numInstrExec)
    (hsum : sumOf unlogged point.seen = sumOf unlogged s.point.seen)
    (hstoring : ∀ seen thread, point ≠ .storing seen thread) :
    Accounted { s with point := point } := by
  refine ⟨h.threads, hseen, fun seen thread hp => absurd hp (hstoring seen thread), h.file, h.logs,
    ?_⟩
  rw [hsum]
  exact h.sum

theorem Accounted.step {s t : Supervision} (h : Accounted s) (hstep : LogStep s t) :
    Accounted t := by
  have hseen := h.seen
  cases hstep with
  | go threads point manager alarms missed stored logs =>
    obtain ⟨_, hmanager⟩ := manager
    exact h.go threads (point.imp id fun ⟨hs, ht, _⟩ => ⟨hs, ht⟩) (hmanager ▸ rfl) missed logs
  | idle point due => exact h.go (.refl _) (.inr ⟨point ▸ rfl, rfl⟩) rfl rfl rfl
  | pace point => exact h.go (.refl _) (.inr ⟨point ▸ rfl, rfl⟩) rfl rfl rfl
  | start point due =>
    exact h.move (fun _ ht => absurd ht List.not_mem_nil) (point ▸ rfl)
      fun _ _ => AlarmPoint.noConfusion
  | @skip seen t point thread stopped =>
    rw [point] at hseen
    have ht := h.threads t (List.mem_of_getElem? thread)
    refine h.move (List.forall_mem_append.2 ⟨hseen, List.forall_mem_singleton.2 ht⟩) ?_
      fun _ _ => AlarmPoint.noConfusion
    rw [point, AlarmPoint.seen, sumOf_concat, unlogged_of_stopped stopped]
    rfl
  | test point thread running =>
    rw [point] at hseen
    exact h.move hseen (point ▸ rfl) fun _ _ => AlarmPoint.noConfusion
  | @read seen t point thread =>
    have hsum := h.sum
    rw [point] at hsum hseen
    refine ⟨h.threads, hseen, fun seen' thread' hp => ?_, h.file, h.logs, hsum⟩
    obtain ⟨rfl, rfl⟩ := AlarmPoint.storing.inj hp
    refine ⟨rfl, h.threads t (List.mem_of_getElem? thread), fun u hu => ?_⟩
    obtain rfl := Option.some.inj (thread.symm.trans hu)
    exact ⟨rfl, Nat.le_refl _⟩
  | @store seen thread c point cell =>
    have hc := System.getElem?_threads cell
    have hsum := h.sum
    rw [point] at hsum hseen
    obtain ⟨hrun, hle, hnow⟩ := h.storing seen thread point
    obtain ⟨hlast, hcount⟩ := hnow c.data hc
    refine ⟨?_, ?_, fun _ _ hp => AlarmPoint.noConfusion hp, h.file, h.logs, ?_⟩
    · rw [threads_store]
      intro t ht
      obtain ht | rfl := List.mem_or_eq_of_mem_set ht
      · exact h.threads t ht
      · exact Nat.le_refl _
    · exact List.forall_mem_append.2 ⟨hseen, List.forall_mem_singleton.2 hle⟩
    · -- the line of the thread and what was missed make up what is stored
      have hset := sumOf_set (f := (·.lastPerformanceExec)) hc
        { c.data with lastPerformanceExec := c.data.numInstrExec }
      have hline := unlogged_of_running hrun hle
      change _ + sumOf unlogged (seen ++ [thread]) + (s.missed + _) = _
      rw [threads_store, sumOf_concat]
      simp only [AlarmPoint.seen, store_logs] at hsum hset ⊢
      omega
  | @write seen point done =>
    have hsum := h.sum
    rw [point] at hsum hseen
    refine ⟨h.threads, fun _ ht => absurd ht List.not_mem_nil, fun _ _ => AlarmPoint.noConfusion,
      ?_, ?_, ?_⟩
    · rw [writeLog_logs, List.map_append, ← h.file]
      rfl
    · exact List.forall_mem_append.2 ⟨h.logs, List.forall_mem_singleton.2 hseen⟩
    · rw [writeLog_logs, List.map_append, List.sum_append, List.map_singleton, List.sum_singleton]
      exact hsum

theorem Accounted.sum_modEq {s : Supervision} (h : Accounted s) :
    (s.logs.map (logTotal ·.1)).sum + sumOf unlogged s.point.seen + s.missed ≡
      sumOf (·.lastPerformanceExec) s.system.threads [ZMOD 2 ^ 32] := by
  have htotals : ∀ logs : List (List Scanner × Nat),
      (∀ log ∈ logs, ∀ t ∈ log.1, t.lastPerformanceExec ≤ t.numInstrExec) →
      (logs.map (logTotal ·.1)).sum ≡ (logs.map (sumOf unlogged ·.1)).sum [ZMOD 2 ^ 32] := by
    intro logs hlogs
    induction logs with
    | nil => exact Int.ModEq.rfl
    | cons log logs ih =>
      rw [List.forall_mem_cons] at hlogs
      have htotal := addUp_modEq hlogs.1 0
      rw [Int.zero_add] at htotal
      simp only [List.map_cons, List.sum_cons, Int.natCast_add]
      exact htotal.add (ih hlogs.2)
  rw [← h.sum, Int.natCast_add, Int.natCast_add]
  exact ((htotals s.logs h.logs).add_right _).add_right _

/-- Without an overflow the sum is exact. -/
theorem Accounted.sum_eq {s : Supervision} (h : Accounted s)
    (hlt : sumOf (·.numInstrExec) s.system.threads < 2 ^ 31) :
    (s.logs.map (logTotal ·.1)).sum + sumOf unlogged s.point.seen + s.missed =
      sumOf (·.lastPerformanceExec) s.system.threads := by
  have htotals : ∀ logs : List (List Scanner × Nat),
      (∀ log ∈ logs, ∀ t ∈ log.1, t.lastPerformanceExec ≤ t.numInstrExec) →
      (logs.map (sumOf unlogged ·.1)).sum < 2 ^ 31 →
      (logs.map (logTotal ·.1)).sum = (logs.map (sumOf unlogged ·.1)).sum := by
    intro logs hlogs hlt
    induction logs with
    | nil => rfl
    | cons log logs ih =>
      rw [List.forall_mem_cons] at hlogs
      rw [List.map_cons, List.sum_cons] at hlt
      have htotal := @addUp_eq log.1 hlogs.1 0 (by omega)
      rw [Nat.zero_add] at htotal
      simp only [List.map_cons, List.sum_cons, Int.natCast_add, ih hlogs.2 (by omega), ← htotal]
      rfl
  have hsum := h.sum
  have hle : sumOf (·.lastPerformanceExec) s.system.threads ≤
      sumOf (·.numInstrExec) s.system.threads := List.sum_le_sum h.threads
  rw [htotals s.logs h.logs (by omega), ← hsum, Int.natCast_add, Int.natCast_add]

/-- Where no worker takes a step between the two readings of a counter, nothing is missed. -/
theorem missed_eq_zero {arch : ArchProperties} {workers : List (Nat × WorkRange)}
    {search : InstrT → Bool} {analyse : AnalysisStage} {s : Supervision}
    (h : Transition.Reach (step (.exhaustive arch search analyse))
      (fun turn s => ∀ seen thread, s.point = .storing seen thread → turn = .manager)
      (.init arch workers) s) : s.missed = 0 := by
  let same (s : Supervision) : Prop := ∀ seen thread t, s.point = .storing seen thread →
    s.system.threads[seen.length]? = some t → t.numInstrExec = thread.numInstrExec
  refine (h.invariant (I := fun s => s.missed = 0 ∧ same s) ?_
    ⟨rfl, fun _ _ _ hp => AlarmPoint.noConfusion hp⟩).1
  rintro turn s t hturn ⟨hzero, hsame⟩ hstep
  cases logStep_step hstep with
  | go threads point manager alarms missed stored logs =>
    refine ⟨missed.trans hzero, fun seen thread u hp hu => ?_⟩
    obtain hpoint | ⟨-, hout, -⟩ := point
    · -- here only the manager takes a step, the second reading
      have hs := hpoint ▸ hp
      obtain rfl := hturn seen thread hs
      have hmanage : s.manage = some t := hstep
      simp only [manage, hs, Option.map_eq_some_iff] at hmanage
      obtain ⟨c, -, rfl⟩ := hmanage
      exact AlarmPoint.noConfusion hp
    · rw [hp] at hout
      exact absurd hout Bool.false_ne_true
  | idle _ _ | start _ _ | skip _ _ _ | test _ _ _ | write _ _ | pace _ =>
    exact ⟨hzero, fun _ _ _ hp => AlarmPoint.noConfusion hp⟩
  | read point thread =>
    refine ⟨hzero, fun seen' thread' u hp hu => ?_⟩
    obtain ⟨rfl, rfl⟩ := AlarmPoint.storing.inj hp
    obtain rfl := Option.some.inj (thread.symm.trans hu)
    rfl
  | @store seen thread c point cell =>
    have hcount := hsame seen thread c.data point (System.getElem?_threads cell)
    refine ⟨?_, fun _ _ _ hp => AlarmPoint.noConfusion hp⟩
    rw [store_missed, hzero, hcount, Nat.sub_self]

/-- The manager logs at every tenth alarm. -/
structure Paced (s : Supervision) : Prop where
  factor : s.system.manager.performanceLogSlowFactor = 10
  count : s.system.manager.performanceLogCount = (s.alarms % 10 : Nat)
  due : s.point.outside = false → s.alarms % 10 = 9
  logs : s.logs.length = (s.alarms + s.point.logDone) / 10

theorem Paced.logDue {s : Supervision} (h : Paced s) :
    s.system.manager.logDue = decide (s.alarms % 10 = 9) := by
  rw [Manager.logDue, h.factor, h.count, Bool.eq_iff_iff, beq_iff_eq, decide_eq_true_eq]
  omega

theorem Paced.pace {s : Supervision} (h : Paced s) (hpoint : s.point = .pacing) : Paced s.pace := by
  have hlogs := h.logs
  rw [hpoint] at hlogs
  refine ⟨h.factor, ?_, fun hout => Bool.noConfusion hout, hlogs⟩
  have htmod : ((s.alarms % 10 : Nat) + 1 : Int).tmod 10 = ((s.alarms + 1) % 10 : Nat) := by
    rw [Int.tmod_eq_emod_of_nonneg (by omega)]
    omega
  change (s.system.manager.performanceLogCount + 1).tmod s.system.manager.performanceLogSlowFactor = _
  rw [h.count, h.factor, htmod]
  rfl

theorem Paced.step {s t : Supervision} (h : Paced s) (hstep : LogStep s t) : Paced t := by
  have hlogs := h.logs
  cases hstep with
  | go threads point manager alarms missed stored logs =>
    obtain ⟨_, hmanager⟩ := manager
    have hdone : t.point.logDone = s.point.logDone := by
      obtain hp | ⟨-, -, hdone⟩ := point
      · rw [hp]
      · exact hdone
    refine ⟨hmanager ▸ h.factor, hmanager ▸ alarms ▸ h.count, fun hin => ?_, ?_⟩
    · obtain hp | ⟨-, hout, -⟩ := point
      · rw [alarms]
        exact h.due (hp ▸ hin)
      · rw [hin] at hout
        exact absurd hout Bool.false_ne_true
    · rw [logs, alarms, hdone]
      exact hlogs
  | idle point due =>
    rw [h.logDue, decide_eq_false_iff_not] at due
    rw [point] at hlogs
    refine ⟨h.factor, h.count, fun hin => Bool.noConfusion hin, ?_⟩
    have hsame : s.logs.length = s.alarms / 10 := hlogs
    change s.logs.length = (s.alarms + 1) / 10
    omega
  | start point due =>
    rw [h.logDue, decide_eq_true_eq] at due
    rw [point] at hlogs
    exact ⟨h.factor, h.count, fun _ => due, hlogs⟩
  | skip point _ _ | test point _ _ | read point _ | store point _ =>
    have hdue := h.due (point ▸ rfl)
    rw [point] at hlogs
    exact ⟨h.factor, h.count, fun _ => hdue, hlogs⟩
  | write point done =>
    have hdue := h.due (point ▸ rfl)
    rw [point] at hlogs
    refine ⟨h.factor, h.count, fun hin => Bool.noConfusion hin, ?_⟩
    have hsame : s.logs.length = s.alarms / 10 := hlogs
    rw [writeLog_logs, List.length_append, List.length_singleton]
    change s.logs.length + 1 = (s.alarms + 1) / 10
    omega
  | pace point => exact h.pace point

theorem Paced.init (arch : ArchProperties) (workers : List (Nat × WorkRange)) :
    Paced (.init arch workers) :=
  ⟨rfl, rfl, fun hin => Bool.noConfusion hin, (Nat.zero_div 10).symm⟩

end Supervision

/-- **What the performance log adds up to.** The file holds a total for every ten alarms. Together
with what the log under way has read so far, and with what threads have counted between the two
readings of a log, they add up, modulo `2 ^ 32`, to what the threads had executed when they were
last logged, and exactly as long as less than `2 ^ 31` instructions have been executed. -/
theorem totals_accounted (arch : ArchProperties) (search : InstrT → Bool) (analyse : AnalysisStage)
    (workers : List (Nat × WorkRange)) {s : Supervision} {file : String}
    (h : Transition.Reach (Supervision.step (.exhaustive arch search analyse)) (fun _ _ => True)
      (.init arch workers) s)
    (hfile : Performance s.system.manager.performanceLogFD file) :
    ∃ ns : List Int, totals file = ns.map (fun n => (toString n).toList) ∧
      ns.length = (s.alarms + s.point.logDone) / 10 ∧
      ns.sum + sumOf unlogged s.point.seen + s.missed ≡
        sumOf (·.lastPerformanceExec) s.system.threads [ZMOD 2 ^ 32] ∧
      (sumOf (·.numInstrExec) s.system.threads < 2 ^ 31 →
        ns.sum + sumOf unlogged s.point.seen + s.missed =
          sumOf (·.lastPerformanceExec) s.system.threads) ∧
      ∀ t ∈ s.system.threads, t.lastPerformanceExec ≤ t.numInstrExec := by
  have hlogged := h.invariant (fun _ _ _ _ hs hstep => hs.step (Supervision.logStep_step hstep))
    (Supervision.Accounted.init arch workers)
  have hpaced := h.invariant (fun _ _ _ _ hs hstep => hs.step (Supervision.logStep_step hstep))
    (Supervision.Paced.init arch workers)
  have hlogs : s.logs.map (performanceLog ·.1) = (s.logs.map (·.1)).map performanceLog := by
    rw [List.map_map]
    rfl
  rw [hlogged.file, hlogs] at hfile
  refine ⟨s.logs.map (logTotal ·.1), ?_, ?_, hlogged.sum_modEq, hlogged.sum_eq, hlogged.threads⟩
  · rw [totals_performance hfile, List.map_map, List.map_map]
    rfl
  · rw [List.length_map, hpaced.logs]

/-- The steps of the manager at an alarm without a log, with a single worker. -/
def quietAlarm : List Turn := List.replicate 6 .manager

/-- The worker executes an instruction. -/
def executed : Turn := .worker 0 (.fault ⟨11, ⟨1, 0⟩, ⟨0⟩⟩)

/-- One instruction executed, and ten alarms; between the two readings of the log another
instruction. -/
def loggedRun : List Turn :=
  .worker 0 .start :: (List.replicate 9 quietAlarm).flatten ++
    executed :: List.replicate 3 .manager ++ executed :: List.replicate 7 .manager

theorem totals_accounted_one : ∃ (s : Supervision) (file : String) (ns : List Int),
    totals file = ns.map (fun n => (toString n).toList) ∧ ns.length = 1 ∧ ns.sum = 1 ∧
      s.missed = 1 ∧ sumOf (·.lastPerformanceExec) s.system.threads = 2 := by
  have hrun : (Transition.replay (Supervision.step .plain) (fun _ _ => True) loggedRun
      (.init .aarch64 [(4096, .upTo 7)])).map (fun s => (s.system.manager.performanceLogFD.length,
        sumOf (·.numInstrExec) s.system.threads, sumOf (·.lastPerformanceExec) s.system.threads,
        s.alarms + s.point.logDone, s.missed, s.point.outside)) = some (1, 2, 2, 10, 1, true) := by
    decide +kernel
  obtain ⟨s, hs, hfacts⟩ := Option.map_eq_some_iff.1 hrun
  simp only [Prod.mk.injEq] at hfacts
  obtain ⟨hlog, hnum, hlast, halarms, hmissed, hout⟩ := hfacts
  obtain ⟨log, hlog⟩ := List.length_eq_one_iff.1 hlog
  have hfile : Performance s.system.manager.performanceLogFD
      (log ++ OutputLine.timestamp.text 0 ++ "") := hlog ▸ .cons 0 .nil
  obtain ⟨ns, htotals, hlen, -, hexact, -⟩ := totals_accounted .aarch64 (fun _ => false)
    (basicAnalysis fun _ => true) [(4096, .upTo 7)] (Transition.reach_of_replay hs) hfile
  have hsum := hexact (by rw [hnum]; decide)
  rw [hlast, hmissed, AlarmPoint.seen_of_outside hout] at hsum
  have hsum : ns.sum + 0 + 1 = 2 := hsum
  exact ⟨s, _, ns, htotals, by rw [hlen, halarms], by omega, hmissed, hlast⟩

end IScanU
