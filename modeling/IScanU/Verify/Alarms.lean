import IScanU.Alarms
import IScanU.Verify.Completion

/-! # Alarms while the workers run

An alarm that no worker interrupts is the single step `System.tick`, so the runs of `System` are
among those of `Supervision` (`exists_supervised`). What any step can do to the performance log is
said once, in `LogStep`. -/

namespace IScanU

/-- The threads of the system. -/
def System.threads (s : System) : List Scanner := s.cells.map (·.data)

/-- An event of a worker changes its entry. -/
theorem System.threads_set {s : System} {i : Nat} {c' : Cell} :
    ({ s with cells := s.cells.set i c' } : System).threads = s.threads.set i c'.data :=
  List.map_set

theorem System.getElem?_threads {s : System} {i : Nat} {c : Cell}
    (hc : s.cells[i]? = some c) : s.threads[i]? = some c.data := by
  rw [System.threads, List.getElem?_map, hc]
  rfl

theorem System.getElem?_threads_none {s : System} {i : Nat} (hc : s.cells[i]? = none) :
    s.threads[i]? = none := by
  rw [System.threads, List.getElem?_map, hc]
  rfl

/-! ## Uninterrupted alarms -/

namespace Supervision

section
variable {cfg : Config}

/-- Steps of the manager alone. -/
abbrev Alone (cfg : Config) : Supervision → Supervision → Prop :=
  Transition.Reach (step cfg) fun e _ => e = .manager

theorem Alone.cons {s t u : Supervision} (h : s.manage = some t) (h' : Alone cfg t u) :
    Alone cfg s u :=
  .head ⟨.manager, rfl, h⟩ h'

/-- What the log does to a thread. -/
def log (c : Cell) : Cell :=
  if c.data.isStopped then c
  else { c with data := { c.data with lastPerformanceExec := c.data.numInstrExec } }

theorem isStopped_log (c : Cell) : (log c).data.isStopped = c.data.isStopped := by
  rw [log]
  split <;> rfl

/-- The loop of the log over the rest of the threads. -/
theorem alone_log {pre post : List Cell} {seen : List Scanner} {s : Supervision}
    (hcells : s.system.cells = pre ++ post) (hseen : seen.length = pre.length)
    (hpoint : s.point = .testing seen) :
    ∃ t, Alone cfg s t ∧ t.point = .pacing ∧ t.system = { s.system with
      cells := pre ++ post.map log
      manager := { s.system.manager with performanceLogFD :=
        s.system.manager.performanceLogFD ++ [performanceLog (seen ++ post.map (·.data))] } } := by
  induction post generalizing pre seen s with
  | nil =>
    rw [List.append_nil] at hcells
    have hnone : s.system.cells[seen.length]? = none := by
      rw [hcells, List.getElem?_eq_none_iff, hseen]
    have hstep : s.manage = some (s.writeLog seen) := by
      rw [manage, hpoint]
      simp only [hnone]
    refine ⟨_, .cons hstep .refl, rfl, ?_⟩
    rw [List.map_nil, List.map_nil, List.append_nil, List.append_nil, ← hcells]
    rfl
  | cons c post ih =>
    have hc : s.system.cells[seen.length]? = some c := by
      rw [hcells, hseen, List.getElem?_append_right (Nat.le_refl _), Nat.sub_self]
      rfl
    have hlength : (seen ++ [c.data]).length = (pre ++ [log c]).length := by
      rw [List.length_append, List.length_append, hseen]
      rfl
    suffices hpass : ∃ s', (∀ u, Alone cfg s' u → Alone cfg s u) ∧
        s'.point = .testing (seen ++ [c.data]) ∧
        s'.system = { s.system with cells := (pre ++ [log c]) ++ post } by
      obtain ⟨s', halone, hpoint', hsystem⟩ := hpass
      obtain ⟨t, halone', hpacing, hsystem'⟩ := ih (congrArg System.cells hsystem) hlength hpoint'
      refine ⟨t, halone t halone', hpacing, ?_⟩
      rw [hsystem', hsystem]
      simp
    have htest : s.manage = some { s with
        point := if c.data.isStopped then .testing (seen ++ [c.data]) else .reading seen } := by
      rw [manage, hpoint]
      simp only [hc]
    cases hs : c.data.isStopped with
    | true =>
      have hlog : log c = c := if_pos hs
      rw [hs, if_pos rfl] at htest
      refine ⟨_, fun u hu => .cons htest hu, rfl, ?_⟩
      rw [hlog, List.append_assoc, List.singleton_append, ← hcells]
    | false =>
      have hlog : log c =
          { c with data := { c.data with lastPerformanceExec := c.data.numInstrExec } } :=
        if_neg (by simp [hs])
      rw [hs, if_neg Bool.false_ne_true] at htest
      let reading : Supervision := { s with point := .reading seen }
      let storing : Supervision := { s with point := .storing seen c.data }
      have hread : reading.manage = some storing := by
        have hdata : { c.data with isStopped := false } = c.data := hs ▸ rfl
        simp only [manage, reading, hc, Option.map_some, hdata, storing]
      have hstore : storing.manage = some (storing.store seen c.data c) := by
        simp only [manage, storing, hc, Option.map_some]
      refine ⟨_, fun u hu => .cons htest (.cons hread (.cons hstore hu)), rfl, ?_⟩
      have hset : s.system.cells.set seen.length (log c) = pre ++ [log c] ++ post := by
        rw [hcells, hseen, List.set_append_right _ _ (Nat.le_refl _), Nat.sub_self,
          List.set_cons_zero, List.append_assoc, List.singleton_append]
      rw [← hset, hlog]
      rfl

/-- The test for hangs. -/
def check (m : Manager) (c : Cell) : Cell :=
  c.alarmed { c.data with oldNumInstrExec := c.data.numInstrExec } (m.suspects c.data)

/-- Together the two loops do to a thread what an alarm does. -/
theorem check_log {m m' : Manager} (hdue : m.logDue = true)
    (hhang : m'.checkForHang = m.checkForHang) (c : Cell) :
    check m' (log c) = c.alarmed (m.visit c.data) (m.suspects c.data) := by
  have hsuspects : ∀ data, m'.suspects data = m.suspects data := fun data => by
    rw [Manager.suspects, hhang]
    rfl
  cases hs : c.data.isStopped with
  | true =>
    have hlog : log c = c := if_pos hs
    have hvisit : m.visit c.data = { c.data with oldNumInstrExec := c.data.numInstrExec } := by
      simp [Manager.visit, hs]
    rw [check, hlog, hvisit, hsuspects]
  | false =>
    have hlog : log c =
        { c with data := { c.data with lastPerformanceExec := c.data.numInstrExec } } :=
      if_neg (by simp [hs])
    have hvisit : m.visit c.data = { c.data with
        lastPerformanceExec := c.data.numInstrExec, oldNumInstrExec := c.data.numInstrExec } := by
      simp [Manager.visit, hdue, hs]
    rw [check, hlog, hvisit, hsuspects]
    rfl

/-- The second loop over the rest of the threads. -/
theorem alone_check {pre post : List Cell} {finished : Bool} {s : Supervision}
    (hcells : s.system.cells = pre ++ post) (hpoint : s.point = .checking pre.length finished) :
    ∃ t, Alone cfg s t ∧ t.point = .waiting ∧
      let finished := finished && post.all (·.data.isStopped)
      t.system =
        { cells := pre ++ post.map (check s.system.manager)
          manager := { s.system.manager with
            managerFD := if finished then s.system.manager.managerFD ++ ["finished run\n"]
              else s.system.manager.managerFD }
          finished := finished } := by
  induction post generalizing pre finished s with
  | nil =>
    rw [List.append_nil] at hcells
    have hnone : s.system.cells[pre.length]? = none := by
      rw [hcells, List.getElem?_eq_none_iff]
    have hstep : s.manage = some (s.conclude finished) := by
      rw [manage, hpoint]
      simp only [hnone]
    refine ⟨_, .cons hstep .refl, rfl, ?_⟩
    rw [List.map_nil, List.append_nil, List.all_nil, Bool.and_true, ← hcells]
    rfl
  | cons c post ih =>
    have hc : s.system.cells[pre.length]? = some c := by
      rw [hcells, List.getElem?_append_right (Nat.le_refl _), Nat.sub_self]
      rfl
    let left := finished && c.data.isStopped
    let sampling : Supervision := { s with point := .sampling pre.length left }
    let comparing : Supervision :=
      { s with point := .comparing pre.length left c.data.numInstrExec }
    have htest : s.manage = some sampling := by
      rw [manage, hpoint]
      simp only [hc]
      rfl
    have hsample : sampling.manage = some comparing := by
      simp only [manage, sampling, hc, Option.map_some, comparing]
    have hcompare : comparing.manage =
        some (comparing.compare pre.length left c.data.numInstrExec c) := by
      simp only [manage, comparing, hc, Option.map_some]
    have hset : (comparing.compare pre.length left c.data.numInstrExec c).system.cells =
        (pre ++ [check s.system.manager c]) ++ post := by
      change s.system.cells.set pre.length (check s.system.manager c) = _
      rw [hcells, List.set_append_right _ _ (Nat.le_refl _), Nat.sub_self, List.set_cons_zero,
        List.append_assoc, List.singleton_append]
    have hnext : (comparing.compare pre.length left c.data.numInstrExec c).point =
        .checking (pre ++ [check s.system.manager c]).length left := by
      rw [List.length_append]
      rfl
    obtain ⟨t, halone, hwait, hsystem⟩ := ih hset hnext
    refine ⟨t, .cons htest (.cons hsample (.cons hcompare halone)), hwait, ?_⟩
    have hall : (left && post.all (·.data.isStopped)) =
        (finished && (c :: post).all (·.data.isStopped)) := by
      rw [List.all_cons, ← Bool.and_assoc]
    simp only [hall] at hsystem
    rw [hsystem, List.append_assoc, List.singleton_append]
    rfl

/-- From the count of the alarm to its end. -/
theorem alone_pace {s : Supervision} (hpoint : s.point = .pacing) :
    ∃ t, Alone cfg s t ∧ t.point = .waiting ∧
      let m := s.system.manager
      let finished := s.system.cells.all (·.data.isStopped)
      t.system =
        { cells := s.system.cells.map (check m)
          manager := { m with
            performanceLogCount := (m.performanceLogCount + 1).tmod m.performanceLogSlowFactor
            managerFD := if finished then m.managerFD ++ ["finished run\n"] else m.managerFD }
          finished := finished } := by
  have hpace : s.manage = some s.pace := by
    rw [manage, hpoint]
  obtain ⟨t, halone, hwait, hsystem⟩ := @alone_check cfg [] s.pace.system.cells true s.pace rfl rfl
  exact ⟨t, .cons hpace halone, hwait, hsystem⟩

/-- An alarm that no worker interrupts is a single step of the system. -/
theorem alone_tick {s : Supervision} (hpoint : s.point = .waiting)
    (hfin : s.system.finished = false) :
    ∃ t, Alone cfg s t ∧ t.point = .waiting ∧ t.system = s.system.tick := by
  have hthreads : (s.system.cells.map (·.data)).all (·.isStopped) =
      s.system.cells.all (·.data.isStopped) := List.all_map
  have hcells := s.system.tick_cells
  cases hdue : s.system.manager.logDue with
  | false =>
    have hbegin : s.manage = some { s with point := .pacing } := by
      rw [manage, hpoint]
      simp only [hfin, hdue, Bool.false_eq_true, if_false]
    obtain ⟨t, halone, hwait, hsystem⟩ := @alone_pace cfg { s with point := .pacing } rfl
    refine ⟨t, .cons hbegin halone, hwait, hsystem.trans ?_⟩
    have hcheck : s.system.tick.cells = s.system.cells.map (check s.system.manager) :=
      hcells.trans <| List.map_congr_left fun c _ => by simp [check, Manager.visit, hdue]
    rw [← hcheck, ← hthreads]
    simp only [System.tick, alarmHandler, hdue, Bool.false_eq_true, if_false]
  | true =>
    have hbegin : s.manage = some { s with point := .testing [] } := by
      rw [manage, hpoint]
      simp only [hfin, hdue, Bool.false_eq_true, if_false, if_true]
    obtain ⟨u, halone, hpacing, hlogged⟩ := @alone_log cfg [] s.system.cells []
      { s with point := .testing [] } rfl rfl rfl
    obtain ⟨t, halone', hwait, hsystem⟩ := @alone_pace cfg u hpacing
    refine ⟨t, .cons hbegin (halone.trans halone'), hwait, hsystem.trans ?_⟩
    have hmap : u.system.cells = s.system.cells.map log := congrArg System.cells hlogged
    have hstopped : u.system.cells.all (·.data.isStopped) =
        s.system.cells.all (·.data.isStopped) := by
      rw [hmap, List.all_map]
      exact congrArg (List.all _) (funext isStopped_log)
    have hcheck : s.system.tick.cells = u.system.cells.map (check u.system.manager) := by
      rw [hcells, hmap, List.map_map]
      refine List.map_congr_left fun c _ => (check_log hdue ?_ c).symm
      rw [hlogged]
    rw [← hcheck, hstopped, ← hthreads, hlogged]
    simp only [System.tick, alarmHandler, hdue, if_true]
    rfl

/-- Where alarms are single steps, the manager is on its own at each alarm. -/
theorem exists_supervised {cfg : Config} {arch : ArchProperties} {workers : List (Nat × WorkRange)}
    {s : System} (h : Transition.Reach (System.step cfg) (fun _ _ => True) (.init arch workers) s) :
    ∃ t, Transition.Reach (step cfg) (fun _ _ => True) (.init arch workers) t ∧
      t.point = .waiting ∧ t.system = s := by
  refine h.simulated (R := fun (s : System) (t : Supervision) => t.point = .waiting ∧ t.system = s)
    ?_ ⟨rfl, rfl⟩
  rintro e s s' t - ⟨hwait, rfl⟩ hstep
  cases e with
  | tick =>
    obtain ⟨hfin, rfl⟩ := System.step_tick hstep
    obtain ⟨t', halone, hwait', hsystem⟩ := @alone_tick cfg _ hwait hfin
    exact ⟨t', halone.mono fun _ _ _ => trivial, hwait', hsystem⟩
  | worker i e =>
    have hworker : step cfg (.worker i e) t = some { t with system := s' } := by
      rw [step, hstep, Option.map_some]
    exact ⟨_, .single ⟨.worker i e, trivial, hworker⟩, hwait, rfl⟩

end

end Supervision

/-! ## What a step does to the log -/

section
variable {arch : ArchProperties} {search : InstrT → Bool} {analyse : AnalysisStage}

theorem lastPerformanceExec_entryHandler (data : Scanner) :
    (entryHandler (.exhaustive arch search analyse) data).state.lastPerformanceExec =
      data.lastPerformanceExec := by
  simp only [entryHandler, Config.exhaustive_fetchInstruction, exhaustive_eq]
  split
  · generalize List.head? _ = next
    cases next <;> simp
  · simp

theorem lastPerformanceExec_faultHandler (sig : Signal) (data : Scanner) :
    (faultHandler (.exhaustive arch search analyse) sig data).state.lastPerformanceExec =
      data.lastPerformanceExec := by
  simp only [faultHandler, Config.exhaustive_fetchInstruction, exhaustive_eq]
  generalize List.head? _ = next
  cases next <;> simp

theorem lastPerformanceExec_hangHandler (sig : Signal) (data : Scanner) :
    (hangHandler (.exhaustive arch search analyse) sig data).state.lastPerformanceExec =
      data.lastPerformanceExec := by
  simp only [hangHandler, Config.exhaustive_fetchInstruction, exhaustive_eq]
  generalize List.head? _ = next
  cases next <;> simp

/-- Only the manager changes `lastPerformanceExec`; the counter of a worker grows. -/
theorem Cell.step_counters {e : CellEvent} {c c' : Cell}
    (h : c.step (.exhaustive arch search analyse) e = some c') :
    c'.data.lastPerformanceExec = c.data.lastPerformanceExec ∧
      c.data.numInstrExec ≤ c'.data.numInstrExec := by
  refine ⟨?_, ?_⟩
  · cases e <;> simp only [Cell.step, Option.ite_none_left_eq_some, Option.ite_none_right_eq_some,
      Option.some.injEq] at h
    case start => exact h.2 ▸ lastPerformanceExec_entryHandler c.data
    case fault sig => exact h.2 ▸ lastPerformanceExec_faultHandler sig c.data
    case deliver sig => exact h.2 ▸ lastPerformanceExec_hangHandler sig c.data
    case spurious sig => exact h ▸ lastPerformanceExec_hangHandler sig c.data
  · obtain ⟨left, hs, hdata⟩ := Cell.step_data h
    rw [hdata]
    rcases hs with hs | ⟨_, hs⟩
    · exact hs.entered.count
    · exact (Nat.le_add_right _ _).trans hs.handled.count

/-- The threads go on: the manager's notes of the log stay, counters grow, and no thread that is
stopped runs again. -/
structure Advances (threads threads' : List Scanner) : Prop where
  last : threads'.map (·.lastPerformanceExec) = threads.map (·.lastPerformanceExec)
  forward : ∀ (i : Nat) t', threads'[i]? = some t' → ∃ t, threads[i]? = some t ∧
    t'.lastPerformanceExec = t.lastPerformanceExec ∧ t.numInstrExec ≤ t'.numInstrExec ∧
    (t.isStopped = true → t'.isStopped = true)

theorem Advances.refl (threads : List Scanner) : Advances threads threads :=
  ⟨rfl, fun _ t h => ⟨t, h, rfl, Nat.le_refl _, id⟩⟩

theorem Advances.set {threads : List Scanner} {i : Nat} {t t' : Scanner} (h : threads[i]? = some t)
    (hlast : t'.lastPerformanceExec = t.lastPerformanceExec)
    (hcount : t.numInstrExec ≤ t'.numInstrExec) (hstop : t.isStopped = true → t'.isStopped = true) :
    Advances threads (threads.set i t') := by
  have hi := (List.getElem?_eq_some_iff.1 h).1
  refine ⟨List.ext_getElem? fun j => ?_, fun j u hu => ?_⟩
  · rw [List.getElem?_map, List.getElem?_map]
    by_cases hij : i = j
    · subst hij
      rw [List.getElem?_set_self hi, h, Option.map_some, Option.map_some, hlast]
    · rw [List.getElem?_set_ne hij]
  · by_cases hij : i = j
    · subst hij
      rw [List.getElem?_set_self hi] at hu
      obtain rfl := Option.some.inj hu
      exact ⟨t, h, hlast, hcount, hstop⟩
    · rw [List.getElem?_set_ne hij] at hu
      exact ⟨u, hu, rfl, Nat.le_refl _, id⟩

/-- Not in the loop of the log. -/
def AlarmPoint.outside : AlarmPoint → Bool
  | .testing _ | .reading _ | .storing _ _ => false
  | _ => true

/-- The alarms whose log is done, but which are not counted yet. -/
def AlarmPoint.logDone : AlarmPoint → Nat
  | .pacing => 1
  | _ => 0

namespace Supervision

/-- What a step can do to the log. -/
inductive LogStep (s : Supervision) : Supervision → Prop
  /-- The manager takes no step in its loop, and counts no alarm. -/
  | go {t : Supervision} (threads : Advances s.system.threads t.system.threads)
    (point : t.point = s.point ∨
      s.point.outside ∧ t.point.outside ∧ t.point.logDone = s.point.logDone)
    (manager : ∃ managerFD, t.system.manager = { s.system.manager with managerFD := managerFD })
    (alarms : t.alarms = s.alarms) (missed : t.missed = s.missed) (stored : t.stored = s.stored)
    (logs : t.logs = s.logs) : LogStep s t
  | idle (point : s.point = .waiting) (due : s.system.manager.logDue = false) :
    LogStep s { s with point := .pacing }
  | start (point : s.point = .waiting) (due : s.system.manager.logDue = true) :
    LogStep s { s with point := .testing [] }
  /-- A thread that is stopped is passed over. -/
  | skip {seen : List Scanner} {t : Scanner} (point : s.point = .testing seen)
    (thread : s.system.threads[seen.length]? = some t) (stopped : t.isStopped = true) :
    LogStep s { s with point := .testing (seen ++ [t]) }
  | test {seen : List Scanner} {t : Scanner} (point : s.point = .testing seen)
    (thread : s.system.threads[seen.length]? = some t) (running : t.isStopped = false) :
    LogStep s { s with point := .reading seen }
  | read {seen : List Scanner} {t : Scanner} (point : s.point = .reading seen)
    (thread : s.system.threads[seen.length]? = some t) :
    LogStep s { s with point := .storing seen { t with isStopped := false } }
  | store {seen : List Scanner} {thread : Scanner} {c : Cell} (point : s.point = .storing seen thread)
    (cell : s.system.cells[seen.length]? = some c) : LogStep s (s.store seen thread c)
  | write {seen : List Scanner} (point : s.point = .testing seen)
    (done : s.system.threads[seen.length]? = none) : LogStep s (s.writeLog seen)
  | pace (point : s.point = .pacing) : LogStep s s.pace

/-- The test for hangs leaves the log alone. -/
theorem advances_compare {s : Supervision} {i n : Nat} {finished : Bool} {c : Cell}
    (hc : s.system.cells[i]? = some c) :
    Advances s.system.threads (s.compare i finished n c).system.threads := by
  have hset : (s.compare i finished n c).system.threads =
      s.system.threads.set i { c.data with oldNumInstrExec := n } := System.threads_set
  rw [hset]
  exact .set (System.getElem?_threads hc) rfl (Nat.le_refl _) id

theorem logStep_manage {s t : Supervision} (h : s.manage = some t) : LogStep s t := by
  cases hpoint : s.point with
  | waiting =>
    simp only [manage, hpoint, Option.ite_none_left_eq_some] at h
    cases hdue : s.system.manager.logDue with
    | true =>
      rw [hdue, if_pos rfl, Option.some.injEq] at h
      exact h.2 ▸ .start hpoint hdue
    | false =>
      rw [hdue, if_neg Bool.false_ne_true, Option.some.injEq] at h
      exact h.2 ▸ .idle hpoint hdue
  | testing seen =>
    cases hc : s.system.cells[seen.length]? with
    | none =>
      simp only [manage, hpoint, hc, Option.some.injEq] at h
      exact h ▸ .write hpoint (System.getElem?_threads_none hc)
    | some c =>
      simp only [manage, hpoint, hc, Option.some.injEq] at h
      cases hs : c.data.isStopped with
      | true =>
        rw [hs, if_pos rfl] at h
        exact h ▸ .skip hpoint (System.getElem?_threads hc) hs
      | false =>
        rw [hs, if_neg Bool.false_ne_true] at h
        exact h ▸ .test hpoint (System.getElem?_threads hc) hs
  | reading seen =>
    simp only [manage, hpoint, Option.map_eq_some_iff] at h
    obtain ⟨c, hc, rfl⟩ := h
    exact .read hpoint (System.getElem?_threads hc)
  | storing seen thread =>
    simp only [manage, hpoint, Option.map_eq_some_iff] at h
    obtain ⟨c, hc, rfl⟩ := h
    exact .store hpoint hc
  | pacing =>
    simp only [manage, hpoint, Option.some.injEq] at h
    exact h ▸ .pace hpoint
  | checking i finished =>
    cases hc : s.system.cells[i]? with
    | none =>
      simp only [manage, hpoint, hc, Option.some.injEq] at h
      exact h ▸ .go (.refl _) (.inr ⟨hpoint ▸ rfl, rfl, hpoint ▸ rfl⟩) ⟨_, rfl⟩ rfl rfl rfl rfl
    | some c =>
      simp only [manage, hpoint, hc, Option.some.injEq] at h
      exact h ▸ .go (.refl _) (.inr ⟨hpoint ▸ rfl, rfl, hpoint ▸ rfl⟩) ⟨_, rfl⟩ rfl rfl rfl rfl
  | sampling i finished =>
    simp only [manage, hpoint, Option.map_eq_some_iff] at h
    obtain ⟨c, hc, rfl⟩ := h
    exact .go (.refl _) (.inr ⟨hpoint ▸ rfl, rfl, hpoint ▸ rfl⟩) ⟨_, rfl⟩ rfl rfl rfl rfl
  | comparing i finished n =>
    simp only [manage, hpoint, Option.map_eq_some_iff] at h
    obtain ⟨c, hc, rfl⟩ := h
    exact .go (advances_compare hc) (.inr ⟨hpoint ▸ rfl, rfl, hpoint ▸ rfl⟩) ⟨_, rfl⟩ rfl rfl rfl rfl

/-- The only steps that change the log, or what the manager has read for it. -/
theorem logStep_step {turn : Turn} {s t : Supervision}
    (h : step (.exhaustive arch search analyse) turn s = some t) : LogStep s t := by
  cases turn with
  | manager => exact logStep_manage h
  | worker i e =>
    obtain ⟨u, hu, rfl⟩ := Option.map_eq_some_iff.1 h
    obtain ⟨c, c', hc, hc', rfl⟩ := System.step_worker hu
    obtain ⟨hlast, hcount⟩ := Cell.step_counters hc'
    refine .go ?_ (.inl rfl) ⟨_, rfl⟩ rfl rfl rfl rfl
    rw [System.threads_set]
    exact .set (System.getElem?_threads hc) hlast hcount (Cell.step_stopped hc')

end Supervision

end

end IScanU
