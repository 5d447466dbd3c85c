import IScanU.Interrupts
import IScanU.Verify.MemCage

/-! # At most one analysis per instruction

A worker has analysed its current instruction from the call of `analyse` in `faultHandler` to the
assignment to `currentInstruction`, and in `stopWorker`. A SIGUSR2 that is delivered there makes
`hangHandler` analyse the instruction once more. Delivered anywhere else, it does what the fault of
the instruction would do. -/

namespace IScanU

/-! ## The statements compose to the handlers -/

theorem Point.run_succ (cfg : Config) (n : Nat) (c : Point × Scanner) :
    Point.run cfg (n + 1) c = (c.1.next cfg c.2).elim c (Point.run cfg n) := by
  rw [Point.run]
  cases c.1.next cfg c.2 <;> rfl

theorem writeOutput_writeOutput (data : Scanner) (lines lines' : List OutputLine) :
    writeOutput (writeOutput data lines) lines' = writeOutput data (lines ++ lines') := by
  rw [writeOutput, writeOutput, List.append_assoc]
  rfl

theorem run_stopWorker (cfg : Config) (n : Nat) (analysed : Bool) (data : Scanner) :
    Point.run cfg (n + 3) (.stopping analysed, data) = (.waiting, stopWorker data) := by
  have hlines : Point.run cfg (n + 3) (.stopping analysed, data) =
      Point.run cfg n (.waiting, writeOutput (writeOutput { data with isStopped := true }
        [.timestamp]) [.endOfRun]) := rfl
  rw [hlines, writeOutput_writeOutput]
  cases n <;> rfl

theorem run_faultHandler (cfg : Config) (sig : Signal) (data : Scanner) :
    Point.run cfg 12 (.recording sig, data) =
      match faultHandler cfg sig data with
      | .resume data' => (.executing, data')
      | .halt data' => (.waiting, data') := by
  have htest : Point.run cfg 12 (.recording sig, data) =
      let fetched := cfg.fetchInstruction (cfg.analyse.call (recordSignal data sig))
      Point.run cfg 5 (.testing fetched.1, fetched.2.count 1) := rfl
  rw [htest, faultHandler]
  generalize cfg.fetchInstruction (cfg.analyse.call (recordSignal data sig)) = fetched
  obtain ⟨_ | nextInstruction, data'⟩ := fetched
  · exact run_stopWorker cfg 1 true (data'.count 1)
  · rfl

theorem run_entryHandler (cfg : Config) (data : Scanner) :
    Point.run cfg 8 (.entering, data) =
      match entryHandler cfg data with
      | .resume data' => (.executing, data')
      | .halt data' => (.waiting, data') := by
  have hstart : Point.run cfg 8 (.entering, data) =
      Point.run cfg 6 (.screening, writeOutput (writeOutput data [.timestamp]) [.startOfRun]) := rfl
  rw [hstart, writeOutput_writeOutput, List.singleton_append, Point.run_succ, Point.next,
    entryHandler]
  generalize writeOutput data [.timestamp, .startOfRun] = data
  cases hs : cfg.search data.currentInstruction with
  | false =>
    simp only [Bool.false_eq_true, if_false]
    rfl
  | true =>
    simp only [if_true, Option.elim_some]
    rw [Point.run_succ, Point.next]
    generalize cfg.fetchInstruction data = fetched
    obtain ⟨_ | nextInstruction, data'⟩ := fetched
    · exact run_stopWorker cfg 0 false data'
    · rfl

/-! ## The invariant -/

/-- How far the worker has come with its current instruction. -/
inductive Phase
  /-- The instruction has not been analysed. -/
  | fresh
  | analysed
  | stopped
deriving DecidableEq

def Point.phase : Point → Phase
  | .entering | .announcing | .screening | .replacing | .replaced _ | .placing | .executing
  | .recording _ | .informing _ | .situating _ | .analysing | .returning | .stopping false
  | .killed => .fresh
  | .concluding _ _ | .fetching | .counting _ | .testing _ | .restoring _ | .writing _
  | .updating _ | .stopping true => .analysed
  | .reporting | .ending | .waiting => .stopped

/-- A SIGUSR2 is delivered only while the current instruction has not been analysed. -/
def Undisturbed : Interrupt → Interleaving → Prop
  | .deliver _, s => s.point.phase = .fresh
  | _, _ => True

instance : ∀ e s, Decidable (Undisturbed e s)
  | .deliver _, s => inferInstanceAs (Decidable (s.point.phase = .fresh))
  | .statement, _ | .fault _, _ | .tick, _ => inferInstanceAs (Decidable True)

/-- What has been fetched is what is pending. -/
def Point.Fetched (search : InstrT → Bool) (data : Scanner) : Point → Prop
  | .counting fetched | .testing fetched =>
    fetched = (pending search data.currentInstruction data.finalInstruction).head?
  | .restoring nextInstruction | .writing nextInstruction | .updating nextInstruction =>
    (pending search data.currentInstruction data.finalInstruction).head? = some nextInstruction
  | _ => True

theorem Point.fetched_of_fresh {search : InstrT → Bool} {data : Scanner} {point : Point}
    (h : point.phase = .fresh) : point.Fetched search data := by
  cases point <;> trivial

/-- The number of `end of run` lines that the worker has written at a point. -/
def Point.ends : Point → Nat
  | .waiting => 1
  | _ => 0

theorem Point.ends_of_fresh {point : Point} (h : point.phase = .fresh) : point.ends = 0 := by
  cases point <;> first | rfl | cases h

/-- A worker for the range at a point has analysed instructions in increasing order, up to its
current one. -/
structure Orderly (search : InstrT → Bool) (r : WorkRange) (point : Point) (data : Scanner) :
    Prop where
  final : data.finalInstruction = r.final
  within : data.currentInstruction ∈ r
  sorted : data.analysed.Pairwise (· < ·)
  fresh : point.phase = .fresh → ∀ w ∈ data.analysed, w < data.currentInstruction
  passed : ∀ w ∈ data.analysed, w ≤ data.currentInstruction
  analysed : point.phase = .analysed → data.currentInstruction ∈ data.analysed
  fetched : point.Fetched search data
  stopped : data.isStopped = true ↔ point.phase = .stopped
  ends : endsOfRun data = point.ends

/-- A statement that neither analyses, nor moves on, nor stops the worker. -/
structure Keeps (data data' : Scanner) : Prop where
  current : data'.currentInstruction = data.currentInstruction
  final : data'.finalInstruction = data.finalInstruction
  analysed : data'.analysed = data.analysed
  stopped : data'.isStopped = data.isStopped

theorem sorted_snoc {l : List InstrT} {c : InstrT} (hsorted : l.Pairwise (· < ·))
    (hbelow : ∀ w ∈ l, w < c) : (l ++ [c]).Pairwise (· < ·) ∧ ∀ w ∈ l ++ [c], w ≤ c := by
  refine ⟨List.pairwise_append.mpr ⟨hsorted, List.pairwise_singleton .., fun w hw v hv => ?_⟩,
    fun w hw => ?_⟩
  · cases List.mem_singleton.mp hv
    exact hbelow w hw
  · rcases List.mem_append.mp hw with hw | hw
    · exact BitVec.le_of_lt (hbelow w hw)
    · cases List.mem_singleton.mp hw
      exact BitVec.le_refl _

theorem below_next {l : List InstrT} {c q : InstrT} (hpassed : ∀ w ∈ l, w ≤ c) (hlt : c < q) :
    ∀ w ∈ l, w < q := by
  intro w hw
  have hle := hpassed w hw
  bv_omega

theorem endsOfRun_writeOutput {data : Scanner} {lines : List OutputLine}
    (h : .endOfRun ∉ lines) : endsOfRun (writeOutput data lines) = endsOfRun data := by
  rw [endsOfRun, writeOutput_outputFD, List.count_append, List.count_eq_zero.mpr h]
  rfl

section
variable {arch : ArchProperties} {search : InstrT → Bool} {analyse : AnalysisStage} {r : WorkRange}
  {point point' : Point} {data data' : Scanner}

theorem Orderly.init (arch : ArchProperties) (page : Nat) (r : WorkRange) :
    Orderly search r .entering (workerMC arch page r.start r.final) :=
  ⟨rfl, ⟨BitVec.le_refl _, r.ordered⟩, .nil, fun _ _ hw => absurd hw List.not_mem_nil,
    fun _ hw => absurd hw List.not_mem_nil, (Phase.noConfusion ·), trivial,
    ⟨(Bool.noConfusion ·), (Phase.noConfusion ·)⟩, rfl⟩

theorem Orderly.congr (h : Orderly search r point data) (hphase : point'.phase = point.phase)
    (hdata : Keeps data data') (hfetched : point'.Fetched search data')
    (hends : endsOfRun data' = point'.ends) : Orderly search r point' data' := by
  obtain ⟨hcurrent, hfinal, hanalysed, hstopped⟩ := hdata
  refine ⟨hfinal.trans h.final, ?_, ?_, ?_, ?_, ?_, hfetched, ?_, hends⟩
  · exact hcurrent ▸ h.within
  · exact hanalysed ▸ h.sorted
  · rw [hphase, hcurrent, hanalysed]
    exact h.fresh
  · rw [hcurrent, hanalysed]
    exact h.passed
  · rw [hphase, hcurrent, hanalysed]
    exact h.analysed
  · rw [hphase, hstopped]
    exact h.stopped

/-- The worker goes on to the next instruction. -/
theorem Orderly.advance {q : InstrT} (h : Orderly search r point data)
    (hq : (pending search data.currentInstruction data.finalInstruction).head? = some q)
    (hphase : point.phase ≠ .stopped) (hphase' : point'.phase = .fresh)
    (hends : endsOfRun data = 0) : Orderly search r point' (data.setCurrent q) := by
  obtain ⟨hlt, hmem⟩ := next_mem h.final h.within hq
  have hbelow := below_next h.passed hlt
  have hstopped : data.isStopped ≠ true := mt h.stopped.mp hphase
  refine ⟨h.final, hmem, h.sorted, fun _ => hbelow, fun w hw => BitVec.le_of_lt (hbelow w hw), ?_,
    Point.fetched_of_fresh hphase', ?_, ?_⟩
  · rw [hphase']
    exact (Phase.noConfusion ·)
  · rw [hphase']
    exact ⟨fun hs => absurd hs hstopped, (Phase.noConfusion ·)⟩
  · rw [Point.ends_of_fresh hphase']
    exact hends

/-- The call of `analyse`. -/
theorem Orderly.call {lines : List String} {sizeError : Bool}
    (h : Orderly search r .analysing data) : Orderly search r (.concluding lines sizeError)
      { data with analysed := data.analysed ++ [data.currentInstruction] } := by
  obtain ⟨hsorted, hpassed⟩ := sorted_snoc h.sorted (h.fresh rfl)
  refine ⟨h.final, h.within, hsorted, (Phase.noConfusion ·), hpassed,
    fun _ => List.mem_append_right _ (List.mem_singleton_self _), trivial, ?_, h.ends⟩
  exact h.stopped.trans ⟨(Phase.noConfusion ·), (Phase.noConfusion ·)⟩

/-- The first line of `stopWorker`. -/
theorem Orderly.stop {analysed : Bool} (h : Orderly search r (.stopping analysed) data) :
    Orderly search r .reporting { data with isStopped := true } :=
  ⟨h.final, h.within, h.sorted, (Phase.noConfusion ·), h.passed, (Phase.noConfusion ·), trivial,
    ⟨fun _ => rfl, fun _ => rfl⟩, h.ends⟩

/-- A statement of the worker. -/
theorem Orderly.next (h : Orderly search r point data)
    (hnext : point.next (.exhaustive arch search analyse) data = some (point', data')) :
    Orderly search r point' data' := by
  have hkeeps : Keeps data data := ⟨rfl, rfl, rfl, rfl⟩
  cases point with
  | entering | announcing | reporting =>
    cases hnext
    exact h.congr rfl ⟨rfl, rfl, rfl, rfl⟩ trivial
      ((endsOfRun_writeOutput (by decide)).trans h.ends)
  | ending =>
    cases hnext
    refine h.congr rfl ⟨rfl, rfl, rfl, rfl⟩ trivial ?_
    rw [endsOfRun, writeOutput_outputFD, List.count_append]
    exact congrArg (· + 1) h.ends
  | screening =>
    rw [Point.next, Config.exhaustive_search] at hnext
    cases hsearch : search data.currentInstruction with
    | false =>
      rw [hsearch] at hnext
      cases hnext
      exact h.congr rfl hkeeps trivial h.ends
    | true =>
      rw [hsearch] at hnext
      cases hnext
      exact h.congr rfl hkeeps trivial h.ends
  | replacing =>
    rw [Point.next, Config.exhaustive_fetchInstruction, exhaustive_eq] at hnext
    cases hq : (pending search data.currentInstruction data.finalInstruction).head? with
    | none =>
      rw [hq] at hnext
      cases hnext
      exact h.congr rfl ⟨rfl, rfl, rfl, rfl⟩ trivial h.ends
    | some q =>
      rw [hq] at hnext
      cases hnext
      exact (h.advance hq Phase.noConfusion rfl h.ends).congr rfl ⟨rfl, rfl, rfl, rfl⟩ trivial h.ends
  | replaced finished =>
    cases finished <;> cases hnext <;> exact h.congr rfl hkeeps trivial h.ends
  | placing | recording _ | informing _ | situating _ | returning =>
    cases hnext
    exact h.congr rfl ⟨rfl, rfl, rfl, rfl⟩ trivial h.ends
  | analysing =>
    cases hnext
    exact h.call
  | concluding lines sizeError =>
    cases hnext
    refine h.congr rfl ⟨rfl, rfl, rfl, rfl⟩ trivial ?_
    rw [endsOfRun, List.count_append, count_endOfRun_analysis]
    exact h.ends
  | fetching =>
    simp only [Point.next, Config.exhaustive_fetchInstruction, exhaustive_eq] at hnext
    cases hnext
    exact h.congr rfl ⟨rfl, rfl, rfl, rfl⟩ rfl h.ends
  | counting fetched | restoring nextInstruction | writing nextInstruction =>
    cases hnext
    exact h.congr rfl ⟨rfl, rfl, rfl, rfl⟩ h.fetched h.ends
  | testing fetched =>
    cases fetched with
    | none =>
      cases hnext
      exact h.congr rfl hkeeps trivial h.ends
    | some nextInstruction =>
      cases hnext
      exact h.congr rfl hkeeps h.fetched.symm h.ends
  | updating nextInstruction =>
    cases hnext
    exact h.advance h.fetched Phase.noConfusion rfl h.ends
  | stopping analysed =>
    cases hnext
    exact h.stop
  | executing | waiting | killed => cases hnext


/-- An alarm. -/
theorem Orderly.visit (h : Orderly search r point data) (m : Manager) :
    Orderly search r point (m.visit data) := by
  obtain ⟨n, hn⟩ := m.visit_eq data
  rw [hn]
  refine h.congr rfl ⟨rfl, rfl, rfl, rfl⟩ ?_ h.ends
  have hfetched := h.fetched
  cases point <;> exact hfetched

/-- A SIGUSR2 that arrives before the current instruction has been analysed. -/
theorem Orderly.hang (h : Orderly search r point data) (hphase : point.phase = .fresh)
    (sig : Signal) :
    match hangHandler (.exhaustive arch search analyse) sig data with
    | .resume data' => Orderly search r .executing data'
    | .halt data' => Orderly search r .waiting data' := by
  obtain ⟨hfinal, hwithin, hsorted, hfresh, hpassed, -, -, hstopped, hends⟩ := h
  have hrunning : data.isStopped = false := by simpa [hphase] using hstopped
  have hnone : endsOfRun data = 0 := hends.trans (Point.ends_of_fresh hphase)
  obtain ⟨hsorted', hpassed'⟩ := sorted_snoc hsorted (hfresh hphase)
  have hstep := hangHandler_step arch search analyse sig data
  generalize hangHandler (.exhaustive arch search analyse) sig data = left at hstep ⊢
  cases hstep with
  | next hq hd hstop hends' =>
    obtain ⟨hlt, hmem⟩ := next_mem hfinal hwithin (List.head?_eq_some_iff.mpr ⟨_, hq⟩)
    rw [← hd.analysed] at hsorted' hpassed'
    have hbelow' := below_next hpassed' hlt
    exact ⟨hd.final.trans hfinal, hmem, hsorted', fun _ => hbelow',
      fun w hw => BitVec.le_of_lt (hbelow' w hw), (Phase.noConfusion ·), trivial,
      by simp [hstop, hrunning, Point.phase], hends'.trans hnone⟩
  | last hq hcur hd hstop hends' =>
    rw [← hd.analysed, ← hcur] at hpassed'
    rw [← hd.analysed] at hsorted'
    exact ⟨hd.final.trans hfinal, hcur ▸ hwithin, hsorted', (Phase.noConfusion ·), hpassed',
      (Phase.noConfusion ·), trivial, by simp [hstop, Point.phase], by rw [hends', hnone]; rfl⟩

/-- Everything that a step of the manager and the worker can do. -/
theorem Interleaving.step_cases {cfg : Config} {e : Interrupt} {s t : Interleaving} :
    s.step cfg e = some t → match e with
    | .statement => s.point.next cfg s.data = some (t.point, t.data)
    | .fault sig => s.point = .executing ∧ t.data = s.data ∧
        (t.point = .killed ∨ t.point = .recording sig)
    | .tick => t.point = s.point ∧ t.data = s.manager.visit s.data
    | .deliver sig => s.hangPending = true ∧ s.point.alive = true ∧
        t = s.hung (hangHandler cfg sig s.data) := by
  intro h
  cases e with
  | statement =>
    obtain ⟨c, hc, rfl⟩ := Option.map_eq_some_iff.mp h
    exact hc
  | fault sig =>
    cases hpoint : s.point <;> simp only [Interleaving.step, hpoint, reduceCtorEq] at h
    by_cases hmask : sig.signo ∈ s.mask
    · rw [if_pos hmask, Option.some.injEq] at h
      exact ⟨rfl, h ▸ rfl, .inl (h ▸ rfl)⟩
    · rw [if_neg hmask, Option.some.injEq] at h
      exact ⟨rfl, h ▸ rfl, .inr (h ▸ rfl)⟩
  | tick =>
    obtain ⟨-, h⟩ := Option.ite_none_left_eq_some.mp h
    cases h
    exact ⟨rfl, rfl⟩
  | deliver sig =>
    obtain ⟨⟨hpending, -, halive⟩, h⟩ := Option.ite_none_right_eq_some.mp h
    exact ⟨hpending, halive, (Option.some.inj h).symm⟩

theorem Orderly.step {e : Interrupt} {s t : Interleaving} (h : Orderly search r s.point s.data)
    (hok : Undisturbed e s) (hstep : s.step (.exhaustive arch search analyse) e = some t) :
    Orderly search r t.point t.data := by
  have hcases := Interleaving.step_cases hstep
  cases e with
  | statement => exact h.next hcases
  | fault sig =>
    obtain ⟨hpoint, hdata, hkilled | hrecording⟩ := hcases
    · rw [hpoint] at h
      rw [hkilled, hdata]
      exact h.congr rfl ⟨rfl, rfl, rfl, rfl⟩ trivial h.ends
    · rw [hpoint] at h
      rw [hrecording, hdata]
      exact h.congr rfl ⟨rfl, rfl, rfl, rfl⟩ trivial h.ends
  | tick =>
    obtain ⟨hpoint, hdata⟩ := hcases
    rw [hpoint, hdata]
    exact h.visit s.manager
  | deliver sig =>
    obtain ⟨-, -, rfl⟩ := hcases
    have hleft := @Orderly.hang arch search analyse _ _ _ h hok sig
    generalize hangHandler (.exhaustive arch search analyse) sig s.data = left at hleft ⊢
    cases left <;> exact hleft

theorem Interleaving.hung_data (s : Interleaving) (left : Control Scanner) :
    (s.hung left).data = left.state := by
  cases left <;> rfl

theorem Point.next_stopped {cfg : Config} (h : point.phase = .stopped)
    (hnext : point.next cfg data = some (point', data')) :
    point'.phase = .stopped ∧ data'.analysed = data.analysed ∧
      data'.hangOutputFD = data.hangOutputFD := by
  cases point with
  | reporting | ending =>
    cases hnext
    exact ⟨rfl, rfl, rfl⟩
  | waiting => cases hnext
  | stopping analysed => cases analysed <;> cases h
  | _ => cases h

/-- Nothing happens in `stopWorker` as long as no SIGUSR2 is delivered there. -/
theorem stopped_step {cfg : Config} {e : Interrupt} {s t : Interleaving}
    (h : s.point.phase = .stopped) (hok : Undisturbed e s) (hstep : s.step cfg e = some t) :
    t.point.phase = .stopped ∧ t.data.analysed = s.data.analysed ∧
      t.data.hangOutputFD = s.data.hangOutputFD := by
  have hcases := Interleaving.step_cases hstep
  cases e with
  | statement =>
    exact Point.next_stopped h hcases
  | fault sig =>
    obtain ⟨hpoint, -, -⟩ := hcases
    rw [hpoint] at h
    cases h
  | tick =>
    obtain ⟨hpoint, hdata⟩ := hcases
    obtain ⟨n, hn⟩ := s.manager.visit_eq s.data
    rw [hpoint, hdata, hn]
    exact ⟨h, rfl, rfl⟩
  | deliver sig =>
    rw [Undisturbed, h] at hok
    cases hok

/-- From one state to another no instruction has been analysed twice, the end of the run has been
reported at most once, and a worker that had stopped has done nothing. -/
structure Once (s t : Interleaving) : Prop where
  analysed : t.data.analysed.Nodup
  ends : endsOfRun t.data ≤ 1
  stopped : s.data.isStopped = true →
    t.data.analysed = s.data.analysed ∧ t.data.hangOutputFD = s.data.hangOutputFD

theorem Orderly.nodup (h : Orderly search r point data) :
    data.analysed.Nodup :=
  h.sorted.imp BitVec.ne_of_lt

theorem Orderly.ends_le (h : Orderly search r point data) :
    endsOfRun data ≤ 1 := by
  rw [h.ends]
  cases point <;> simp [Point.ends]

theorem reach_orderly {page : Nat} {s : Interleaving}
    (h : Transition.Reach (Interleaving.step (.exhaustive arch search analyse)) Undisturbed
      (.init arch page r) s) : Orderly search r s.point s.data :=
  h.invariant (I := fun s => Orderly search r s.point s.data)
    (fun _ _ _ hok hs hstep => hs.step hok hstep) (.init arch page r)

/-- A delivery of SIGUSR2 at any other point breaks the promise at once: these are all the points
at which it does harm. -/
theorem once_iff_undisturbed {page : Nat} {e : Interrupt} {s t : Interleaving}
    (h : Transition.Reach (Interleaving.step (.exhaustive arch search analyse)) Undisturbed
      (.init arch page r) s)
    (hstep : s.step (.exhaustive arch search analyse) e = some t) :
    Once s t ↔ Undisturbed e s := by
  have hs := reach_orderly h
  constructor
  · intro honce
    by_contra hdisturbed
    obtain ⟨sig, rfl⟩ : ∃ sig, e = .deliver sig := by
      cases e <;> first | exact ⟨_, rfl⟩ | exact absurd trivial hdisturbed
    obtain ⟨-, -, ht⟩ := Interleaving.step_cases hstep
    have hd : Handled true s.data t.data := by
      rw [ht, Interleaving.hung_data]
      exact (hangHandler_step arch search analyse sig s.data).handled
    cases hphase : s.point.phase with
    | fresh => exact hdisturbed hphase
    | analysed =>
      have hnodup := honce.analysed
      rw [hd.analysed] at hnodup
      exact List.disjoint_of_nodup_append hnodup (hs.analysed hphase) (List.mem_singleton.mpr rfl)
    | stopped =>
      have hsame := (honce.stopped (hs.stopped.mpr hphase)).1
      rw [hd.analysed] at hsame
      simp at hsame
  · intro hok
    have ht := hs.step hok hstep
    exact ⟨ht.nodup, ht.ends_le, fun hstopped =>
      (stopped_step (hs.stopped.mp hstopped) hok hstep).2⟩

/-- As long as no SIGUSR2 is delivered while the current instruction is already analysed: no
instruction is analysed twice, and a stopped worker does nothing more. -/
theorem analysed_once (arch : ArchProperties) (search : InstrT → Bool) (analyse : AnalysisStage)
    (page : Nat) (r : WorkRange) {s t : Interleaving}
    (hs : Transition.Reach (Interleaving.step (.exhaustive arch search analyse)) Undisturbed
      (.init arch page r) s)
    (ht : Transition.Reach (Interleaving.step (.exhaustive arch search analyse)) Undisturbed s t) :
    Once s t := by
  have horderly := reach_orderly (hs.trans ht)
  refine ⟨horderly.nodup, horderly.ends_le, fun hstopped => ?_⟩
  have hfrozen := ht.invariant (I := fun t => t.point.phase = .stopped ∧
    t.data.analysed = s.data.analysed ∧ t.data.hangOutputFD = s.data.hangOutputFD)
    (fun e u v hok hu hstep => ?_) ⟨(reach_orderly hs).stopped.mp hstopped, rfl, rfl⟩
  · exact hfrozen.2
  · obtain ⟨hphase, hanalysed, hhangs⟩ := hu
    obtain ⟨hphase', hanalysed', hhangs'⟩ := stopped_step hphase hok hstep
    exact ⟨hphase', hanalysed'.trans hanalysed, hhangs'.trans hhangs⟩

/-- Only the end of a handler leads to the instruction page, and no statement kills the worker. -/
theorem Point.next_executing {cfg : Config} (h : point.next cfg data = some (point', data')) :
    (point' = .executing → point = .returning) ∧ point' ≠ .killed := by
  cases point with
  | returning =>
    cases h
    exact ⟨fun _ => rfl, (Point.noConfusion ·)⟩
  | screening =>
    rw [Point.next] at h
    cases hsearch : cfg.search data.currentInstruction <;> rw [hsearch] at h <;> cases h <;>
      exact ⟨(Point.noConfusion ·), (Point.noConfusion ·)⟩
  | replacing =>
    rw [Point.next] at h
    generalize cfg.fetchInstruction data = fetched at h
    obtain ⟨_ | next, d⟩ := fetched <;> cases h <;>
      exact ⟨(Point.noConfusion ·), (Point.noConfusion ·)⟩
  | replaced finished =>
    cases finished <;> cases h <;> exact ⟨(Point.noConfusion ·), (Point.noConfusion ·)⟩
  | testing fetched =>
    cases fetched <;> cases h <;> exact ⟨(Point.noConfusion ·), (Point.noConfusion ·)⟩
  | _ => cases h <;> exact ⟨(Point.noConfusion ·), (Point.noConfusion ·)⟩

/-- At most the signal of one handler is blocked, and none on the instruction page. -/
structure Unblocked (s : Interleaving) : Prop where
  executing : s.point = .executing → s.mask = []
  one : s.mask.length ≤ 1
  alive : s.point ≠ .killed

theorem Unblocked.step {cfg : Config} {e : Interrupt} {s t : Interleaving} (h : Unblocked s)
    (hok : ∀ sig, e = .deliver sig → s.point = .executing) (hstep : s.step cfg e = some t) :
    Unblocked t := by
  have hcases := Interleaving.step_cases hstep
  have hone := h.one
  cases e with
  | statement =>
    obtain ⟨c, -, rfl⟩ := Option.map_eq_some_iff.mp hstep
    obtain ⟨hreturn, halive⟩ := Point.next_executing hcases
    refine ⟨fun hpoint => ?_, ?_, halive⟩
    · have hback : s.point = .returning := hreturn hpoint
      rw [hback]
      exact List.eq_nil_of_length_eq_zero (by rw [Point.unmask, List.length_tail]; omega)
    · cases s.point <;> simp only [Point.unmask, List.length_tail] <;> omega
  | fault sig =>
    have hpoint := hcases.1
    have hmask := h.executing hpoint
    simp only [Interleaving.step, hpoint, hmask, List.not_mem_nil, if_false,
      Option.some.injEq] at hstep
    exact hstep ▸ ⟨(Point.noConfusion ·), Nat.le_refl _, (Point.noConfusion ·)⟩
  | tick =>
    obtain ⟨-, htick⟩ := Option.ite_none_left_eq_some.mp hstep
    cases htick
    exact ⟨h.executing, hone, h.alive⟩
  | deliver sig =>
    obtain ⟨-, -, rfl⟩ := hcases
    have hmask := h.executing (hok sig rfl)
    generalize hangHandler cfg sig s.data = left
    cases left with
    | resume data => exact ⟨fun _ => hmask, hone, (Point.noConfusion ·)⟩
    | halt data =>
      refine ⟨(Point.noConfusion ·), ?_, (Point.noConfusion ·)⟩
      rw [Interleaving.hung, hmask]
      exact Nat.le_refl _

/-- Only a SIGUSR2 inside a handler leaves a signal blocked: a worker that is never hit there is not
killed. -/
theorem not_killed {cfg : Config} {arch : ArchProperties} {page : Nat} {r : WorkRange}
    {s : Interleaving}
    (h : Transition.Reach (Interleaving.step cfg)
      (fun e s => ∀ sig, e = .deliver sig → s.point = .executing) (.init arch page r) s) :
    s.point ≠ .killed :=
  (h.invariant (I := Unblocked) (fun _ _ _ hok hs hstep => hs.step hok hstep)
    ⟨(Point.noConfusion ·), Nat.le_refl _, (Point.noConfusion ·)⟩).alive

/-! A worker for the instructions 0 to 9, up to the call of `analyse` for 0, which faults. The first
alarm finds the counter at its initial value, so it sends a SIGUSR2. -/

def upToAnalysis : List Interrupt :=
  List.replicate 5 .statement ++ [.tick, .fault ⟨11, ⟨1, 0⟩, ⟨0⟩⟩] ++ List.replicate 4 .statement

theorem analysed_once_ten : ∃ s : Interleaving,
    (s.data.analysed, s.data.currentInstruction, s.hangPending) = ([0, 1], 2, false) ∧
    Once (.init .aarch64 4096 (.upTo 9)) s := by
  -- the SIGUSR2 is delivered when `faultHandler` is through
  have hrun : (Transition.replay (Interleaving.step .plain) Undisturbed
      (upToAnalysis ++ List.replicate 8 .statement ++ [.deliver ⟨12, ⟨0, 0⟩, ⟨0⟩⟩])
      (.init .aarch64 4096 (.upTo 9))).map
      (fun s => (s.data.analysed, s.data.currentInstruction, s.hangPending)) =
      some ([0, 1], 2, false) := by decide +kernel
  obtain ⟨s, hs, hvalue⟩ := Option.map_eq_some_iff.mp hrun
  exact ⟨s, hvalue, analysed_once .aarch64 (fun _ => false) (basicAnalysis fun _ => true) 4096
    (.upTo 9) .refl (Transition.reach_of_replay hs)⟩

/-- Delivered in the analysis of 0, the SIGUSR2 makes `hangHandler` analyse 0 again; the
same happens in `stopWorker`, which reports the end of the run again. -/
theorem analysed_twice :
    (∃ s, Transition.replay (Interleaving.step .plain) (fun _ _ => True)
        (upToAnalysis ++ [.deliver ⟨12, ⟨0, 0⟩, ⟨0⟩⟩])
        (.init .aarch64 4096 (.upTo 9)) = some s ∧
      s.data.analysed = [0, 0] ∧ ¬Once (.init .aarch64 4096 (.upTo 9)) s) ∧
    ∃ s t, Transition.replay (Interleaving.step .plain) (fun _ _ => True)
        (upToAnalysis ++ List.replicate 7 .statement)
        (.init .aarch64 4096 (.upTo 0)) = some s ∧
      s.step .plain (.deliver ⟨12, ⟨0, 0⟩, ⟨0⟩⟩) = some t ∧
      s.data.isStopped = true ∧ t.data.analysed = [0, 0] ∧ endsOfRun t.data = 2 ∧ ¬Once s t := by
  constructor
  · have hrun : (Transition.replay (Interleaving.step .plain) (fun _ _ => True)
        (upToAnalysis ++ [.deliver ⟨12, ⟨0, 0⟩, ⟨0⟩⟩])
        (.init .aarch64 4096 (.upTo 9))).map (·.data.analysed) = some [0, 0] := by
      decide +kernel
    obtain ⟨s, hs, hanalysed⟩ := Option.map_eq_some_iff.mp hrun
    refine ⟨s, hs, hanalysed, fun honce => ?_⟩
    have hnodup := honce.analysed
    rw [hanalysed] at hnodup
    simp at hnodup
  · have hrun : (Transition.replay (Interleaving.step .plain) (fun _ _ => True)
        (upToAnalysis ++ List.replicate 7 .statement)
        (.init .aarch64 4096 (.upTo 0))).bind (fun s =>
          (s.step .plain (.deliver ⟨12, ⟨0, 0⟩, ⟨0⟩⟩)).map fun t =>
            (s.data.isStopped, t.data.analysed, endsOfRun t.data)) =
        some (true, [0, 0], 2) := by decide +kernel
    obtain ⟨s, hs, hstep⟩ := Option.bind_eq_some_iff.mp hrun
    obtain ⟨t, ht, hvalue⟩ := Option.map_eq_some_iff.mp hstep
    simp only [Prod.mk.injEq] at hvalue
    obtain ⟨hstopped, hanalysed, hends⟩ := hvalue
    refine ⟨s, t, hs, ht, hstopped, hanalysed, hends, fun honce => ?_⟩
    have hle := honce.ends
    omega

end

end IScanU
