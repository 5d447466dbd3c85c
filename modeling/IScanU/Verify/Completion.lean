import IScanU.Verify.MemCage

/-! # The completion report is truthful

The manager ends the run when all its workers have set `isStopped`. A worker has then analysed its
whole range, whatever signals it was sent: each handler analyses the current instruction before it
goes on to the next one that is not blacklisted, and stops only when there is none. -/

namespace IScanU

/-- A worker for the range has analysed what its current instruction has passed, and everything if
it is stopped. -/
structure Covered (search : InstrT → Bool) (r : WorkRange) (data : Scanner) : Prop where
  final : data.finalInstruction = r.final
  within : data.currentInstruction ∈ r
  passed : ∀ w ∈ r, search w = false → w < data.currentInstruction → w ∈ data.analysed
  stopped : data.isStopped = true → ∀ w ∈ r, search w = false → w ∈ data.analysed

section
variable {search : InstrT → Bool} {r : WorkRange} {data : Scanner}

theorem Covered.init (arch : ArchProperties) (page : Nat) (r : WorkRange) :
    Covered search r (workerMC arch page r.start r.final) := by
  refine ⟨rfl, ⟨BitVec.le_refl _, r.ordered⟩, fun w hw _ hlt => ?_, fun h => by cases h⟩
  exact absurd hlt (BitVec.not_lt.mpr hw.1)

/-- An instruction before the next one is not after the current one. -/
theorem Covered.le_current (h : Covered search r data)
    (hq : (pending search data.currentInstruction data.finalInstruction).head? = some q)
    {w : InstrT} (hw : w ∈ r) (hclean : search w = false) (hlt : w < q) :
    w ≤ data.currentInstruction := by
  rw [h.final] at hq
  rw [← BitVec.not_lt]
  intro hgt
  have hle := (le_of_head?_pending h.within.2 hq).2 w hgt hw.2 hclean
  rw [BitVec.le_def] at hle
  rw [BitVec.lt_def] at hlt
  omega

/-- If nothing is pending, no instruction is after the current one. -/
theorem Covered.le_current_of_nil (h : Covered search r data)
    (hq : pending search data.currentInstruction data.finalInstruction = [])
    {w : InstrT} (hw : w ∈ r) (hclean : search w = false) : w ≤ data.currentInstruction := by
  rw [h.final] at hq
  rw [← BitVec.not_lt]
  intro hgt
  have := search_of_head?_pending h.within.2 (List.head?_eq_none_iff.mpr hq) w hgt hw.2
  rw [hclean] at this
  cases this

/-- A handler that analyses the current instruction. -/
theorem Covered.handler (h : Covered search r data) (hs : HandlerStep search hung data left) :
    Covered search r left.state := by
  have hdone : ∀ w ∈ r, search w = false → w ≤ data.currentInstruction →
      w ∈ data.analysed ++ [data.currentInstruction] := by
    intro w hw hclean hle
    by_cases hcur : w = data.currentInstruction
    · exact hcur ▸ List.mem_append_right _ List.mem_cons_self
    · exact List.mem_append_left _ (h.passed w hw hclean (Cyclic.lt_of_le_of_ne hle hcur))
  cases hs with
  | next hp hd hstop hends =>
    have hq := List.head?_eq_some_iff.mpr ⟨_, hp⟩
    refine ⟨hd.final.trans h.final, (next_mem h.final h.within hq).2, fun w hw hclean hlt => ?_,
      fun hstopped w hw hclean => ?_⟩
    · exact hd.analysed ▸ hdone w hw hclean (h.le_current hq hw hclean hlt)
    · exact hd.analysed ▸ List.mem_append_left _ (h.stopped (hstop ▸ hstopped) w hw hclean)
  | last hp hcur hd _ _ =>
    have hall : ∀ w ∈ r, search w = false → w ∈ data.analysed ++ [data.currentInstruction] :=
      fun w hw hclean => hdone w hw hclean (h.le_current_of_nil hp hw hclean)
    refine ⟨hd.final.trans h.final, hcur ▸ h.within, fun w hw hclean _ => ?_, fun _ w hw hclean => ?_⟩
    · exact hd.analysed ▸ hall w hw hclean
    · exact hd.analysed ▸ hall w hw hclean

/-- The way into the scan, from wherever the worker is. -/
theorem Covered.entry (h : Covered search r data) (hs : EntryStep search data left) :
    Covered search r left.state := by
  -- an instruction up to a blacklisted current one has been passed
  have hpassed : search data.currentInstruction = true → ∀ w ∈ r, search w = false →
      w ≤ data.currentInstruction → w ∈ data.analysed := fun hblack w hw hclean hle =>
    h.passed w hw hclean (Cyclic.lt_of_le_of_ne hle fun heq => by simp [heq, hblack] at hclean)
  have hlist := worklist_eq search data.currentInstruction data.finalInstruction
  cases hs with
  | next hw he hstop hends =>
    rw [hw] at hlist
    cases hblack : search data.currentInstruction with
    | false =>
      rw [hblack] at hlist
      have hsame := (List.cons.inj hlist).1
      refine ⟨he.final.trans h.final, ?_, ?_, ?_⟩
      · rw [Control.state_resume, hsame]
        exact h.within
      · rw [Control.state_resume, hsame, he.analysed]
        exact h.passed
      · rw [Control.state_resume, hstop, he.analysed]
        exact h.stopped
    | true =>
      rw [hblack, if_pos rfl] at hlist
      have hq := List.head?_eq_some_iff.mpr ⟨_, hlist.symm⟩
      refine ⟨he.final.trans h.final, (next_mem h.final h.within hq).2, ?_, ?_⟩
      · rw [Control.state_resume, he.analysed]
        exact fun w hw hclean hlt => hpassed hblack w hw hclean (h.le_current hq hw hclean hlt)
      · rw [Control.state_resume, hstop, he.analysed]
        exact h.stopped
  | last hw hcur he _ _ =>
    rw [hw] at hlist
    cases hblack : search data.currentInstruction with
    | false => simp [hblack] at hlist
    | true =>
      rw [hblack, if_pos rfl] at hlist
      have hall : ∀ w ∈ r, search w = false → w ∈ data.analysed := fun w hw hclean =>
        hpassed hblack w hw hclean (h.le_current_of_nil hlist.symm hw hclean)
      refine ⟨he.final.trans h.final, hcur ▸ h.within, ?_, ?_⟩
      · exact fun w hw hclean _ => he.analysed ▸ hall w hw hclean
      · exact fun _ w hw hclean => he.analysed ▸ hall w hw hclean

theorem Covered.visit (h : Covered search r data) (m : Manager) : Covered search r (m.visit data) := by
  obtain ⟨n, hn⟩ := m.visit_eq data
  rw [hn]
  exact ⟨h.final, h.within, h.passed, h.stopped⟩

end

section
variable {arch : ArchProperties} {search : InstrT → Bool} {analyse : AnalysisStage}

theorem Covered.step {e : CellEvent} {c c' : Cell} (h : Covered search c.range c.data)
    (hstep : c.step (.exhaustive arch search analyse) e = some c') :
    Covered search c'.range c'.data := by
  obtain ⟨left, hs, hdata⟩ := Cell.step_data hstep
  rw [Cell.step_range hstep, hdata]
  rcases hs with hs | ⟨_, hs⟩
  · exact h.entry hs
  · exact h.handler hs

/-- A worker that is stopped stays stopped. -/
theorem Cell.step_stopped {e : CellEvent} {c c' : Cell}
    (hstep : c.step (.exhaustive arch search analyse) e = some c') (h : c.data.isStopped = true) :
    c'.data.isStopped = true := by
  obtain ⟨left, hs, hdata⟩ := Cell.step_data hstep
  rw [hdata]
  rcases hs with hs | ⟨_, hs⟩
  · exact hs.stopped h
  · exact hs.stopped h

/-- The invariant of the system. -/
structure Truthful (search : InstrT → Bool) (ranges : List WorkRange) (s : System) : Prop where
  ranges : s.cells.map Cell.range = ranges
  covered : ∀ c ∈ s.cells, Covered search c.range c.data
  finished : s.finished = true → ∀ c ∈ s.cells, c.data.isStopped = true

theorem Truthful.init (arch : ArchProperties) (workers : List (Nat × WorkRange)) :
    Truthful search (workers.map (·.2)) (.init arch workers) := by
  refine ⟨?_, ?_, fun h => by cases h⟩
  · simp [System.init, Cell.init, Function.comp_def]
  · intro c hc
    obtain ⟨w, -, rfl⟩ := List.mem_map.mp hc
    exact .init arch w.1 w.2

theorem Truthful.step {ranges : List WorkRange} {e : Event} {s t : System}
    (h : Truthful search ranges s) (hstep : s.step (.exhaustive arch search analyse) e = some t) :
    Truthful search ranges t := by
  refine ⟨(System.step_ranges hstep).trans h.ranges, ?_,
    System.step_finished hstep h.finished (fun c _ hstopped => ?_) fun _ _ hstopped _ _ hc' =>
      Cell.step_stopped hc' hstopped⟩
  · refine System.step_forall hstep h.covered (fun _ c hc => (h.covered c hc).visit _) ?_
    intro i e' c c' _ hc hc'
    exact (h.covered c (List.mem_of_getElem? hc)).step hc'
  · obtain ⟨n, hn⟩ := s.manager.visit_eq c.data
    rw [Cell.alarmed_data, hn]
    exact hstopped

/-- Whenever the manager has reported the end of the run, every worker has analysed every
instruction of its range that is not blacklisted. -/
theorem finished_covered (arch : ArchProperties) (search : InstrT → Bool) (analyse : AnalysisStage)
    (workers : List (Nat × WorkRange)) {s : System}
    (h : Transition.Reach (System.step (.exhaustive arch search analyse)) (fun _ _ => True)
      (.init arch workers) s) (hfin : s.finished = true) :
    s.cells.map Cell.range = workers.map (·.2) ∧
      ∀ c ∈ s.cells, ∀ w ∈ c.range, search w = false → w ∈ c.data.analysed := by
  have hinv := h.invariant (fun _ _ _ _ hs hstep => Truthful.step hs hstep)
    (Truthful.init arch workers)
  exact ⟨hinv.ranges, fun c hc => (hinv.covered c hc).stopped (hinv.finished hfin c hc)⟩

/-- One worker for the instruction 0, which faults, with a SIGUSR2 out of nowhere before its start
and another one after its stop. -/
def oneWorkerRun : List Event :=
  [.worker 0 (.spurious ⟨12, ⟨0, 0⟩, ⟨0⟩⟩), .worker 0 .start, .worker 0 (.fault ⟨11, ⟨1, 0⟩, ⟨0⟩⟩),
    .worker 0 (.spurious ⟨12, ⟨0, 0⟩, ⟨0⟩⟩), .tick]

theorem finished_covered_one : ∃ s : System, s.finished = true ∧
    s.cells.map Cell.range = [.upTo 0] ∧
      ∀ c ∈ s.cells, ∀ w ∈ c.range, false = false → w ∈ c.data.analysed := by
  obtain ⟨s, hs, hfin⟩ : ∃ s, Transition.replay
      (System.step .plain)
      (fun _ _ => True) oneWorkerRun (.init .aarch64 [(4096, .upTo 0)]) = some s ∧
      s.finished = true := ⟨_, rfl, rfl⟩
  exact ⟨s, hfin, finished_covered .aarch64 (fun _ => false) (basicAnalysis fun _ => true)
    [(4096, .upTo 0)] (Transition.reach_of_replay hs) hfin⟩

end

end IScanU
