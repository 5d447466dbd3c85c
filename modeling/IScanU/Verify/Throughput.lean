import IScanU.Verify.Performance

/-! # The throughput that is plotted

`process.py` keeps the totals of the logs in which each thread has a line, without the first one.
A thread has its line as long as it is not stopped, and no thread that is stopped runs again; so
what is kept are the totals of consecutive logs, each of them what was executed since the log before
had stored the counters. -/

namespace IScanU

open Text (unlines records)

/-! ## The loop over the lines -/

theorem isPrefixOf_append {p k rest : List Char} (h : p.length ≤ k.length) :
    p.isPrefixOf (k ++ rest) = p.isPrefixOf k := by
  rw [Bool.eq_iff_iff, List.isPrefixOf_iff_prefix, List.isPrefixOf_iff_prefix]
  exact ⟨fun hp => List.prefix_of_prefix_length_le hp (List.prefix_append k rest) h,
    fun hp => hp.trans (List.prefix_append k rest)⟩

namespace Clean

variable {i : Nat} {s : Clean}

/-- The beginning of a line decides what it is. -/
theorem line_append {k rest : List Char} (h : 6 ≤ k.length) : s.line i (k ++ rest) =
    let threads := if "thread".toList.isPrefixOf k then s.threads + 1 else s.threads
    let threads := if "==".toList.isPrefixOf k then 0 else threads
    if "Total".toList.isPrefixOf k ∧ (k ++ rest).getLast? = some '\n' ∧ threads = i then
      { threads := threads
        c := s.c + 1
        o := if s.c ≠ 0 then s.o ++ [((k ++ rest).drop 7).dropLast] else s.o }
    else { s with threads := threads } := by
  have hthread : "thread".toList.length = 6 := by decide
  have hstart : "==".toList.length = 2 := by decide
  have htotal : "Total".toList.length = 5 := by decide
  rw [line, isPrefixOf_append (by omega), isPrefixOf_append (by omega),
    isPrefixOf_append (by omega)]

theorem line_start : s.line i ("===== start of performance log =====".toList ++ ['\n']) =
    { s with threads := 0 } := by
  rw [line_append (by decide)]
  rfl

theorem line_thread (thread : Scanner) : s.line i ((threadLine thread).toList ++ ['\n']) =
    { s with threads := s.threads + 1 } := by
  rw [threadLine, String.toList_append, String.toList_append, String.toList_append,
    List.append_assoc, List.append_assoc, List.append_assoc, line_append (by decide)]
  rfl

theorem line_stamp (now : Int) : s.line i (stampChars now ++ ['\n']) = s := by
  have hsplit : stampChars now ++ ['\n'] = "time: ".toList ++ ((toString now).toList ++ ['\n']) :=
    List.append_assoc ..
  exact (congrArg (s.line i) hsplit).trans (line_append (by decide))

theorem line_total (digits : List Char) :
    s.line i (("Total:".toList ++ ' ' :: digits) ++ ['\n']) =
      if s.threads = i then
        { s with c := s.c + 1, o := if s.c ≠ 0 then s.o ++ [digits] else s.o }
      else s := by
  have hsplit : ("Total:".toList ++ ' ' :: digits) ++ ['\n'] =
      "Total: ".toList ++ (digits ++ ['\n']) := by
    have hkey : "Total: ".toList = "Total:".toList ++ [' '] := by decide
    simp [hkey]
  have hlast : ("Total: ".toList ++ (digits ++ ['\n'])).getLast? = some '\n' := by
    rw [← List.append_assoc, List.getLast?_concat]
  have hdrop : (("Total: ".toList ++ (digits ++ ['\n'])).drop 7).dropLast = digits := by
    rw [List.drop_left' (by decide), List.dropLast_concat]
  rw [hsplit, line_append (by decide), hlast, hdrop]
  simp

/-- The lines of some threads are counted. -/
theorem foldl_threads (threads : List Scanner) :
    ((threads.map fun thread => (threadLine thread).toList).map (· ++ ['\n'])).foldl (line i) s =
      { s with threads := s.threads + threads.length } := by
  induction threads generalizing s with
  | nil => rfl
  | cons thread threads ih =>
    rw [List.map_cons, List.map_cons, List.foldl_cons, line_thread, ih, List.length_cons,
      Nat.add_comm threads.length, ← Nat.add_assoc]

/-- What a log does. -/
def log (i : Nat) (s : Clean) (threads : List Scanner) : Clean :=
  let running := (threads.filter (!·.isStopped)).length
  if running = i then
    { threads := running
      c := s.c + 1
      o := if s.c ≠ 0 then s.o ++ [(toString (logTotal threads)).toList] else s.o }
  else { s with threads := running }

theorem foldl_logLines (threads : List Scanner) (now : Int) :
    ((logLines threads ++ [stampChars now]).map (· ++ ['\n'])).foldl (line i) s =
      s.log i threads := by
  rw [logLines, List.append_assoc, List.cons_append, List.map_cons, List.foldl_cons, line_start,
    List.map_append, List.foldl_append, foldl_threads, Nat.zero_add, List.singleton_append,
    List.map_cons, List.foldl_cons, line_total, List.map_singleton, List.foldl_cons, List.foldl_nil,
    line_stamp, log]

/-- The totals of the logs with `i` threads are kept, without the first one. -/
theorem foldl_log (snapshots : List (List Scanner)) : (snapshots.foldl (log i) s).o =
    let kept := (snapshots.filter fun threads => (threads.filter (!·.isStopped)).length = i).map
      fun threads => (toString (logTotal threads)).toList
    s.o ++ if s.c = 0 then kept.tail else kept := by
  induction snapshots generalizing s with
  | nil => simp
  | cons threads snapshots ih =>
    rw [List.foldl_cons, ih, log]
    by_cases hi : (threads.filter (!·.isStopped)).length = i
    · by_cases hc : s.c = 0 <;> simp [hi, hc]
    · simp [hi]

end Clean

/-- What `process.py` leaves of a file. -/
theorem totalsClean_performance {snapshots : List (List Scanner)}
    (h : Performance (snapshots.map performanceLog) file) (i : Nat) :
    totalsClean i file = .ofList (unlines true
      ((snapshots.filter fun threads => (threads.filter (!·.isStopped)).length = i).map
        fun threads => (toString (logTotal threads)).toList).tail) := by
  obtain ⟨ls, hfile, hnl, hfold⟩ : ∃ ls, file.toList = unlines true ls ∧ (∀ l ∈ ls, '\n' ∉ l) ∧
      ∀ s : Clean, (ls.map (· ++ ['\n'])).foldl (Clean.line i) s =
        snapshots.foldl (Clean.log i) s := by
    generalize hlogs : snapshots.map performanceLog = logs at h
    induction h generalizing snapshots with
    | nil => exact ⟨[], rfl, by simp, by simp [List.map_eq_nil_iff.1 hlogs]⟩
    | @cons logs file log now _ ih =>
      obtain ⟨threads, rest, rfl, rfl, hrest⟩ := List.map_eq_cons_iff.1 hlogs
      obtain ⟨ls, hfile, hnl, hfold⟩ := ih hrest
      refine ⟨(logLines threads ++ [stampChars now]) ++ ls, ?_, ?_, fun s => ?_⟩
      · rw [String.toList_append, String.toList_append, toList_performanceLog, toList_timestamp,
          hfile, Text.unlines_true_append, Text.unlines_true_append]
        rfl
      · intro l hl
        rw [List.mem_append, List.mem_append, List.mem_singleton] at hl
        obtain (hl | rfl) | hl := hl
        · exact newline_not_mem_logLines hl
        · exact not_mem_stampChars rfl (by decide) (by decide)
        · exact hnl l hl
      · rw [List.map_append, List.foldl_append, Clean.foldl_logLines, hfold, List.foldl_cons]
  rw [totalsClean, hfile, Text.records_unlines hnl, hfold, Clean.foldl_log, List.nil_append,
    if_pos rfl]

/-! ## Runs -/

/-- What is read and stored at each log, against what was stored at the one before. -/
def increments : List (Nat × Nat) → List Nat
  | a :: b :: counts => (b.1 - a.2) :: increments (b :: counts)
  | _ => []

theorem increments_concat (a : Nat × Nat) (counts : List (Nat × Nat)) (n : Nat × Nat) :
    increments (a :: counts ++ [n]) =
      increments (a :: counts) ++ [n.1 - (counts.getLast?.getD a).2] := by
  induction counts generalizing a with
  | nil => rfl
  | cons b counts ih =>
    have hlast : (b :: counts).getLast?.getD a = counts.getLast?.getD b := by
      rw [List.getLast?_cons, Option.getD_some]
    rw [hlast, List.cons_append, List.cons_append, increments, increments, List.cons_append,
      ← ih b, List.cons_append]

theorem tail_increments (a : Nat × Nat) (counts : List (Nat × Nat)) :
    (increments (a :: counts)).tail = increments counts := by
  cases counts <;> rfl

/-- No thread is stopped. -/
abbrev AllRunning (threads : List Scanner) : Prop := ∀ t ∈ threads, t.isStopped = false

theorem toInt32_eq_of_modEq {a b : Int} (h : a ≡ b [ZMOD 2 ^ 32]) : toInt32 a = toInt32 b := by
  rw [toInt32, toInt32, ← Int.emod_bmod a, ← Int.emod_bmod b]
  exact congrArg (Int.bmod · _) h

theorem toInt32_addUp {threads : List Scanner} {acc : Int} (h : toInt32 acc = acc) :
    toInt32 (addUp threads acc) = addUp threads acc := by
  rw [addUp]
  generalize threads.filter (!·.isStopped) = running
  induction running generalizing acc with
  | nil => exact h
  | cons t running ih => exact ih (Int.bmod_bmod ..)

/-- A total is what the running threads have executed since their last log. -/
theorem logTotal_eq {threads : List Scanner}
    (hle : ∀ t ∈ threads, t.lastPerformanceExec ≤ t.numInstrExec) :
    logTotal threads = toInt32 (sumOf unlogged threads : Nat) := by
  have hmod := addUp_modEq hle 0
  rw [Int.zero_add] at hmod
  exact (toInt32_addUp rfl).symm.trans (toInt32_eq_of_modEq hmod)

theorem sumOf_unlogged {threads : List Scanner} (hrun : AllRunning threads)
    (hle : ∀ t ∈ threads, t.lastPerformanceExec ≤ t.numInstrExec) :
    sumOf unlogged threads + sumOf (·.lastPerformanceExec) threads =
      sumOf (·.numInstrExec) threads := by
  rw [← sumOf_add]
  refine congrArg List.sum (List.map_congr_left fun t ht => ?_)
  have := hle t ht
  rw [unlogged, hrun t ht, if_neg Bool.false_ne_true]
  omega

theorem length_running_iff {threads : List Scanner} :
    (threads.filter (!·.isStopped)).length = threads.length ↔ AllRunning threads := by
  rw [List.length_filter_eq_length_iff]
  simp

theorem allRunning_concat {threads : List Scanner} {t : Scanner} :
    AllRunning (threads ++ [t]) ↔ AllRunning threads ∧ t.isStopped = false := by
  rw [AllRunning, List.forall_mem_append, List.forall_mem_singleton]

section
variable {f : Scanner → Nat} {threads : List Scanner} {k : Nat} {t : Scanner}

theorem sumOf_drop (h : threads[k]? = some t) :
    sumOf f (threads.drop k) = f t + sumOf f (threads.drop (k + 1)) := by
  obtain ⟨hk, rfl⟩ := List.getElem?_eq_some_iff.1 h
  rw [List.drop_eq_getElem_cons hk, sumOf_cons]

theorem sumOf_take_set (h : threads[k]? = some t) (t' : Scanner) :
    sumOf f ((threads.set k t').take (k + 1)) = sumOf f (threads.take k) + f t' := by
  rw [List.take_add_one, List.getElem?_set_self (List.getElem?_eq_some_iff.1 h).1, Option.toList_some,
    sumOf_concat, List.take_set_of_le (Nat.le_refl k)]

end

section
variable {threads threads' : List Scanner} (h : Advances threads threads') (k : Nat)
include h

theorem Advances.length : threads'.length = threads.length := by
  have hlength := congrArg List.length h.last
  rwa [List.length_map, List.length_map] at hlength

theorem Advances.take : Advances (threads.take k) (threads'.take k) := by
  refine ⟨?_, fun i t' ht' => ?_⟩
  · rw [List.map_take, List.map_take, h.last]
  · have hi := (List.getElem?_eq_some_iff.1 ht').1
    rw [List.length_take] at hi
    rw [List.getElem?_take_of_lt (by omega)] at ht' ⊢
    exact h.forward i t' ht'

theorem Advances.drop : Advances (threads.drop k) (threads'.drop k) := by
  refine ⟨?_, fun i t' ht' => ?_⟩
  · rw [List.map_drop, List.map_drop, h.last]
  · rw [List.getElem?_drop] at ht' ⊢
    exact h.forward (k + i) t' ht'

/-- A thread that runs after a step has run before. -/
theorem Advances.allRunning (hrun : AllRunning threads') : AllRunning threads := by
  intro t ht
  obtain ⟨i, hi⟩ := List.getElem?_of_mem ht
  have hlt := (List.getElem?_eq_some_iff.1 hi).1
  rw [← h.length] at hlt
  obtain ⟨t', ht'⟩ : ∃ t', threads'[i]? = some t' := ⟨_, List.getElem?_eq_getElem hlt⟩
  obtain ⟨u, hu, -, -, hstop⟩ := h.forward i t' ht'
  obtain rfl := Option.some.inj (hi.symm.trans hu)
  have hafter := hrun t' (List.mem_of_getElem? ht')
  rw [← Bool.not_eq_true] at hafter ⊢
  exact mt hstop hafter

end

/-- The threads before this one have been tested. -/
def AlarmPoint.tested : AlarmPoint → Nat
  | .testing seen => seen.length
  | .reading seen | .storing seen _ => seen.length + 1
  | _ => 0

theorem AlarmPoint.tested_of_outside {p : AlarmPoint} (h : p.outside = true) : p.tested = 0 := by
  cases p <;> first | rfl | cases h

namespace Supervision

/-- The logs in which each thread has a line. -/
def fullLogs (s : Supervision) : List (List Scanner × Nat) :=
  s.logs.filter fun log => AllRunning log.1

/-- At each of these logs: what has been read of the counters for the lines, all together, and what
has been stored. -/
def counts (s : Supervision) : List (Nat × Nat) :=
  s.fullLogs.map fun log => (sumOf (·.numInstrExec) log.1, log.2)

/-- What has been stored at the last of these logs. -/
def lastStored (s : Supervision) : Nat := (s.counts.getLast?.getD (0, 0)).2

/-- What has been logged of a system with `n` workers. -/
structure Counted (n : Nat) (s : Supervision) : Prop where
  length : s.system.threads.length = n
  logs : ∀ log ∈ s.logs, log.1.length = n
  seenLength : s.point.seen.length ≤ n
  kept : s.fullLogs.map (logTotal ·.1) =
    (increments ((0, 0) :: s.counts)).map fun d => toInt32 (d : Nat)
  stored : AllRunning s.point.seen →
    sumOf (·.lastPerformanceExec) (s.system.threads.take s.point.seen.length) = s.stored
  again : AllRunning (s.system.threads.take s.point.seen.length) → AllRunning s.point.seen
  /-- What has been stored at the last log is what has been read of it, and is still there. -/
  old : AllRunning s.point.seen → AllRunning (s.system.threads.drop s.point.tested) →
    sumOf (·.lastPerformanceExec) s.point.seen +
      sumOf (·.lastPerformanceExec) (s.system.threads.drop s.point.seen.length) = s.lastStored

theorem Counted.init (arch : ArchProperties) (workers : List (Nat × WorkRange)) :
    Counted workers.length (.init arch workers) where
  length := by simp [System.threads, Supervision.init, System.init]
  logs _ h := absurd h List.not_mem_nil
  seenLength := Nat.zero_le _
  kept := rfl
  stored _ := rfl
  again _ _ h := absurd h List.not_mem_nil
  old _ _ := (Nat.zero_add _).trans sumOf_lastPerformanceExec_init

/-- A step that reads and stores nothing. -/
theorem Counted.frame {s t : Supervision} (h : Counted n s)
    (threads : Advances s.system.threads t.system.threads) (seen : t.point.seen = s.point.seen)
    (tested : t.point.tested = s.point.tested) (stored : t.stored = s.stored)
    (logs : t.logs = s.logs) : Counted n t := by
  have hfull : t.fullLogs = s.fullLogs := by
    rw [fullLogs, logs, fullLogs]
  have hcounts : t.counts = s.counts := by
    rw [counts, hfull, counts]
  refine ⟨threads.length.trans h.length, logs ▸ h.logs, seen ▸ h.seenLength, ?_, ?_, ?_, ?_⟩
  · rw [hfull, hcounts]
    exact h.kept
  · rw [seen, stored, (threads.take _).sumOf_last]
    exact h.stored
  · rw [seen]
    exact fun hrun => h.again ((threads.take _).allRunning hrun)
  · rw [seen, tested, (threads.drop _).sumOf_last, lastStored, hcounts]
    exact fun hseen hrun => h.old hseen ((threads.drop _).allRunning hrun)

/-- A thread that is stopped is no part of what is counted. -/
theorem Counted.skip {s : Supervision} {seen : List Scanner} {t : Scanner} (h : Counted n s)
    (thread : s.system.threads[seen.length]? = some t) (stopped : t.isStopped = true) :
    Counted n { s with point := .testing (seen ++ [t]) } := by
  have hk := (List.getElem?_eq_some_iff.1 thread).1
  have hnot : ¬ AllRunning (seen ++ [t]) := fun hrun => by
    rw [allRunning_concat, stopped] at hrun
    exact Bool.noConfusion hrun.2
  refine ⟨h.length, h.logs, ?_, h.kept, fun hrun => absurd hrun hnot, fun hrun => ?_,
    fun hrun => absurd hrun hnot⟩
  · rw [AlarmPoint.seen, List.length_append, List.length_singleton, ← h.length]
    exact hk
  · have hlast : t ∈ s.system.threads.take (seen ++ [t]).length := by
      rw [List.length_append, List.length_singleton, List.take_add_one, thread]
      exact List.mem_append_right _ (List.mem_singleton_self t)
    have hrunning := hrun t hlast
    rw [stopped] at hrunning
    exact Bool.noConfusion hrunning

/-- A thread that is tested and not stopped. -/
theorem Counted.test {s : Supervision} {seen : List Scanner} {t : Scanner} (h : Counted n s)
    (point : s.point = .testing seen) (thread : s.system.threads[seen.length]? = some t)
    (running : t.isStopped = false) : Counted n { s with point := .reading seen } := by
  obtain ⟨hlength, hlogs, hseen, hkept, hstored, hagain, hold⟩ := h
  rw [point] at hseen hstored hagain hold
  refine ⟨hlength, hlogs, hseen, hkept, hstored, hagain, fun hrun hdrop => hold hrun ?_⟩
  obtain ⟨hk, rfl⟩ := List.getElem?_eq_some_iff.1 thread
  rw [AlarmPoint.tested, List.drop_eq_getElem_cons hk]
  exact List.forall_mem_cons.2 ⟨running, hdrop⟩

theorem Counted.store {s : Supervision} {seen : List Scanner} {thread : Scanner} {c : Cell}
    (h : Counted n s) (hacc : Accounted s) (point : s.point = .storing seen thread)
    (cell : s.system.cells[seen.length]? = some c) : Counted n (s.store seen thread c) := by
  obtain ⟨hlength, hlogs, hseen, hkept, hstored, hagain, hold⟩ := h
  rw [point] at hseen hstored hagain hold
  have hc := System.getElem?_threads cell
  have hk := (List.getElem?_eq_some_iff.1 hc).1
  obtain ⟨hrunning, -, hnow⟩ := hacc.storing seen thread point
  have hlast := (hnow c.data hc).1
  have hsucc : (seen ++ [thread]).length = seen.length + 1 := by
    rw [List.length_append, List.length_singleton]
  refine ⟨?_, hlogs, ?_, hkept, fun hrun => ?_, fun hrun => ?_, fun hrun hdrop => ?_⟩
  · rw [threads_store, List.length_set]
    exact hlength
  · rw [store_point, AlarmPoint.seen, hsucc, ← hlength]
    exact hk
  · rw [store_point, AlarmPoint.seen] at hrun ⊢
    rw [hsucc, threads_store, sumOf_take_set hc, store_stored, ← hstored (allRunning_concat.1 hrun).1]
    rfl
  · rw [store_point, AlarmPoint.seen] at hrun ⊢
    refine allRunning_concat.2 ⟨hagain fun t ht => ?_, hrunning⟩
    rw [hsucc, threads_store, List.take_add_one, List.take_set_of_le (Nat.le_refl _)] at hrun
    exact hrun t (List.mem_append_left _ ht)
  · rw [store_point, AlarmPoint.seen] at hrun ⊢
    rw [store_point, AlarmPoint.tested, hsucc, threads_store,
      List.drop_set_of_lt (Nat.lt_succ_self _)] at hdrop
    have hsum := hold (allRunning_concat.1 hrun).1 hdrop
    rw [AlarmPoint.seen, sumOf_drop hc, hlast] at hsum
    rw [hsucc, sumOf_concat, threads_store, List.drop_set_of_lt (Nat.lt_succ_self _), Nat.add_assoc]
    exact hsum

/-- A log in which each thread has a line holds what was executed since the last one stored. -/
theorem Counted.total {s : Supervision} {seen : List Scanner} (h : Counted n s) (hacc : Accounted s)
    (point : s.point = .testing seen) (done : s.system.threads.length ≤ seen.length)
    (hrun : AllRunning seen) :
    logTotal seen = toInt32 (sumOf (·.numInstrExec) seen - s.lastStored : Nat) := by
  have hle := hacc.seen
  have hold := h.old
  simp only [point, AlarmPoint.seen, AlarmPoint.tested, List.drop_eq_nil_of_le done] at hle hold
  have hlast : sumOf (·.lastPerformanceExec) seen = s.lastStored :=
    hold hrun fun _ ht => absurd ht List.not_mem_nil
  rw [logTotal_eq hle, ← sumOf_unlogged hrun hle, hlast, Nat.add_sub_cancel]

theorem fullLogs_writeLog {s : Supervision} {seen : List Scanner} : (s.writeLog seen).fullLogs =
    if AllRunning seen then s.fullLogs ++ [(seen, s.stored)] else s.fullLogs := by
  rw [fullLogs, writeLog_logs, List.filter_append, List.filter_singleton, fullLogs]
  by_cases hrun : AllRunning seen
  · rw [if_pos hrun, decide_eq_true hrun, cond_true]
  · rw [if_neg hrun, decide_eq_false hrun, cond_false, List.append_nil]

theorem Counted.write {s : Supervision} {seen : List Scanner} (h : Counted n s) (hacc : Accounted s)
    (point : s.point = .testing seen) (done : s.system.threads[seen.length]? = none) :
    Counted n (s.writeLog seen) := by
  have hdone := List.getElem?_eq_none_iff.1 done
  have htotal := h.total hacc point hdone
  obtain ⟨hlength, hlogs, hseen, hkept, hstored, hagain, hold⟩ := h
  rw [point] at hseen hstored hagain hold
  simp only [AlarmPoint.seen, List.take_of_length_le hdone] at hseen hstored hagain
  have hfull : seen.length = n := by omega
  have hfullLogs := @fullLogs_writeLog s seen
  refine ⟨hlength, ?_, Nat.zero_le _, ?_, fun _ => rfl, fun _ _ ht => absurd ht List.not_mem_nil,
    fun _ hrun => ?_⟩
  · exact List.forall_mem_append.2 ⟨hlogs, List.forall_mem_singleton.2 hfull⟩
  · by_cases hrun : AllRunning seen
    · rw [if_pos hrun] at hfullLogs
      rw [counts, hfullLogs, List.map_append, List.map_append, hkept, List.map_singleton,
        List.map_singleton, htotal hrun, ← List.cons_append, increments_concat, List.map_append]
      rfl
    · rw [if_neg hrun] at hfullLogs
      rw [counts, hfullLogs]
      exact hkept
  · have hseenRun := hagain hrun
    rw [if_pos hseenRun] at hfullLogs
    rw [lastStored, counts, hfullLogs, List.map_append, List.map_singleton, List.getLast?_concat]
    exact (Nat.zero_add _).trans (hstored hseenRun)

theorem Counted.step {s t : Supervision} (h : Counted n s) (hacc : Accounted s)
    (hstep : LogStep s t) : Counted n t := by
  cases hstep with
  | go threads point manager alarms missed stored logs =>
    obtain hp | ⟨hs, ht, -⟩ := point
    · exact h.frame threads (hp ▸ rfl) (hp ▸ rfl) stored logs
    · exact h.frame threads (by rw [AlarmPoint.seen_of_outside hs, AlarmPoint.seen_of_outside ht])
        (by rw [AlarmPoint.tested_of_outside hs, AlarmPoint.tested_of_outside ht]) stored logs
  | idle point _ | start point _ | read point _ | pace point =>
    exact h.frame (.refl _) (point ▸ rfl) (point ▸ rfl) rfl rfl
  | skip _ thread stopped => exact h.skip thread stopped
  | test point thread running => exact h.test point thread running
  | store point cell => exact h.store hacc point cell
  | write point done => exact h.write hacc point done

end Supervision

/-- **What is plotted.** In every state of a run `process.py` leaves, for each log that found no
thread stopped but the first, what was read of the counters at this log, less what was stored of
them at the one before, as a number of type `int`. -/
theorem totalsClean_counted (arch : ArchProperties) (search : InstrT → Bool)
    (analyse : AnalysisStage) (workers : List (Nat × WorkRange)) {s : Supervision} {file : String}
    (h : Transition.Reach (Supervision.step (.exhaustive arch search analyse)) (fun _ _ => True)
      (.init arch workers) s)
    (hfile : Performance s.system.manager.performanceLogFD file) :
    totalsClean workers.length file = .ofList (unlines true
      ((increments s.counts).map fun d => (toString (toInt32 (d : Nat))).toList)) := by
  obtain ⟨hlogged, hcounted⟩ := h.invariant
    (I := fun s => s.Accounted ∧ s.Counted workers.length)
    (fun _ _ _ _ hs hstep =>
      have hlog := Supervision.logStep_step hstep
      ⟨hs.1.step hlog, hs.2.step hs.1 hlog⟩)
    ⟨.init arch workers, .init arch workers⟩
  have hlogs : s.logs.map (performanceLog ·.1) = (s.logs.map (·.1)).map performanceLog := by
    rw [List.map_map]
    rfl
  have hfull : (s.logs.map (·.1)).filter (fun threads =>
      (threads.filter (!·.isStopped)).length = workers.length) = s.fullLogs.map (·.1) := by
    rw [List.filter_map, Supervision.fullLogs]
    refine congrArg (List.map _) (List.filter_congr fun log hlog => ?_)
    rw [Function.comp_apply, decide_eq_decide, ← hcounted.logs log hlog, length_running_iff]
  have hdigits := congrArg (List.map fun n : Int => (toString n).toList) hcounted.kept
  rw [List.map_map, List.map_map] at hdigits
  rw [hlogged.file, hlogs] at hfile
  rw [totalsClean_performance hfile, hfull, List.map_map, ← tail_increments (0, 0), List.map_tail]
  exact congrArg (fun ls => String.ofList (unlines true ls.tail)) hdigits

/-- After the first log, which has missed an instruction, another one is executed up to the
second. -/
def twoLogsRun : List Turn :=
  loggedRun ++ (List.replicate 9 quietAlarm).flatten ++ executed :: List.replicate 10 .manager

theorem totalsClean_counted_two : ∃ (s : Supervision) (file : String),
    Performance s.system.manager.performanceLogFD file ∧ s.counts = [(1, 2), (3, 3)] ∧
      totalsClean 1 file = "1\n" := by
  have hrun : (Transition.replay (Supervision.step .plain) (fun _ _ => True) twoLogsRun
      (.init .aarch64 [(4096, .upTo 7)])).map (fun s =>
        (s.system.manager.performanceLogFD.length, s.counts)) =
      some (2, [(1, 2), (3, 3)]) := by decide +kernel
  obtain ⟨s, hs, hfacts⟩ := Option.map_eq_some_iff.1 hrun
  obtain ⟨hlogs, hcounts⟩ := Prod.mk.inj hfacts
  obtain ⟨first, second, hlogs⟩ := List.length_eq_two.1 hlogs
  obtain ⟨file, hfile⟩ : ∃ file, Performance s.system.manager.performanceLogFD file :=
    ⟨_, hlogs.symm ▸ Performance.cons 0 (.cons 10 .nil)⟩
  refine ⟨s, file, hfile, hcounts, (totalsClean_counted .aarch64 (fun _ => false)
    (basicAnalysis fun _ => true) [(4096, .upTo 7)] (Transition.reach_of_replay hs) hfile).trans ?_⟩
  rw [hcounts]
  decide

end IScanU
