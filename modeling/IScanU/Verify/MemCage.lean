import IScanU.MemCage
import IScanU.Verify.Exhaustive

/-! # Steps of the memory cage system

What an event can do to a worker under the exhaustive fetch stage (`Cell.step_cases`), and the rule
that what events and alarms preserve of each worker, steps of the system preserve of all workers. -/

namespace IScanU

variable {cfg : Config} {e : Event} {s t : System}

theorem System.step_tick (h : s.step cfg .tick = some t) : s.finished = false ∧ t = s.tick := by
  simp only [System.step, Option.ite_none_left_eq_some, Option.some.injEq, Bool.not_eq_true] at h
  exact ⟨h.1, h.2.symm⟩

theorem System.step_worker {e : CellEvent} (h : s.step cfg (.worker i e) = some t) :
    ∃ c c', s.cells[i]? = some c ∧ c.step cfg e = some c' ∧
      t = { s with cells := s.cells.set i c' } := by
  obtain ⟨c, hc, h⟩ := Option.bind_eq_some_iff.mp h
  obtain ⟨c', hc', rfl⟩ := Option.map_eq_some_iff.mp h
  exact ⟨c, c', hc, hc', rfl⟩

/-- An alarm changes what the manager remembers of a worker, and nothing else. -/
theorem Manager.visit_eq (m : Manager) (data : Scanner) :
    ∃ n, m.visit data =
      { data with lastPerformanceExec := n, oldNumInstrExec := data.numInstrExec } := by
  unfold Manager.visit
  split
  · exact ⟨data.numInstrExec, rfl⟩
  · exact ⟨data.lastPerformanceExec, rfl⟩

theorem System.step_forall {I : Cell → Prop} (hstep : s.step cfg e = some t)
    (hs : ∀ c ∈ s.cells, I c)
    (htick : e = .tick → ∀ c ∈ s.cells,
      I (c.alarmed (s.manager.visit c.data) (s.manager.suspects c.data)))
    (hcell : ∀ i e' c c', e = .worker i e' → s.cells[i]? = some c → c.step cfg e' = some c' → I c') :
    ∀ c ∈ t.cells, I c := by
  cases e with
  | tick =>
    obtain ⟨-, rfl⟩ := System.step_tick hstep
    rw [System.tick_cells]
    exact List.forall_mem_map.mpr (htick rfl)
  | worker i e =>
    obtain ⟨c, c', hc, hc', rfl⟩ := System.step_worker hstep
    intro d hd
    rcases List.mem_or_eq_of_mem_set hd with hd | rfl
    · exact hs d hd
    · exact hcell i e c d rfl hc hc'

/-- What holds of the workers when an alarm ends the run, because all of them are stopped, and is
preserved by what still arrives, holds as long as the run is over. -/
theorem System.step_finished {I : Cell → Prop} (hstep : s.step cfg e = some t)
    (hs : s.finished = true → ∀ c ∈ s.cells, I c)
    (htick : ∀ c ∈ s.cells, c.data.isStopped = true →
      I (c.alarmed (s.manager.visit c.data) (s.manager.suspects c.data)))
    (hcell : ∀ c ∈ s.cells, I c → ∀ e' c', c.step cfg e' = some c' → I c') :
    t.finished = true → ∀ c ∈ t.cells, I c := by
  intro hfin
  cases e with
  | tick =>
    obtain ⟨-, rfl⟩ := System.step_tick hstep
    simp only [System.tick, alarmHandler, List.all_map, List.all_eq_true] at hfin
    rw [System.tick_cells]
    exact List.forall_mem_map.mpr fun c hc => htick c hc (hfin c hc)
  | worker i e =>
    have hover : s.finished = true := by
      obtain ⟨_, _, _, _, rfl⟩ := System.step_worker hstep
      exact hfin
    refine System.step_forall hstep (hs hover) Event.noConfusion fun i e' c c' _ hc hc' => ?_
    have hmem := List.mem_of_getElem? hc
    exact hcell c hmem (hs hover c hmem) e' c' hc'

theorem System.tick_getElem? {i : Nat} {c : Cell} (h : s.tick.cells[i]? = some c) :
    ∃ c₀, s.cells[i]? = some c₀ ∧
      c = c₀.alarmed (s.manager.visit c₀.data) (s.manager.suspects c₀.data) := by
  rw [System.tick_cells, List.getElem?_map] at h
  obtain ⟨c₀, hc₀, rfl⟩ := Option.map_eq_some_iff.1 h
  exact ⟨c₀, hc₀, rfl⟩

theorem Cell.step_range {e : CellEvent} {c c' : Cell} (h : c.step cfg e = some c') :
    c'.range = c.range := by
  cases e <;> simp only [Cell.step, Option.ite_none_left_eq_some, Option.ite_none_right_eq_some,
    Option.some.injEq] at h
  case spurious => exact h ▸ rfl
  all_goals exact h.2 ▸ rfl

/-- The workers keep their ranges. -/
theorem System.step_ranges (hstep : s.step cfg e = some t) :
    t.cells.map Cell.range = s.cells.map Cell.range := by
  cases e with
  | tick =>
    obtain ⟨-, rfl⟩ := System.step_tick hstep
    simp [System.tick_cells, Function.comp_def]
  | worker i e =>
    obtain ⟨c, c', hc, hc', rfl⟩ := System.step_worker hstep
    obtain ⟨hi, rfl⟩ := List.getElem?_eq_some_iff.mp hc
    rw [List.map_set, Cell.step_range hc']
    apply List.ext_getElem (by simp)
    intro j h1 h2
    by_cases hij : i = j
    · subst hij
      simp
    · simp [hij]

theorem System.step_checkForHang (h : s.step cfg e = some t) :
    t.manager.checkForHang = s.manager.checkForHang := by
  cases e with
  | tick =>
    obtain ⟨-, rfl⟩ := System.step_tick h
    rfl
  | worker j e =>
    obtain ⟨_, _, _, _, rfl⟩ := System.step_worker h
    rfl

section
variable {arch : ArchProperties} {search : InstrT → Bool} {analyse : AnalysisStage}

/-- The current instruction moves up, within the range. -/
theorem next_mem {r : WorkRange} {current final q : InstrT} (hfinal : final = r.final)
    (hwithin : current ∈ r) (hq : (pending search current final).head? = some q) :
    current < q ∧ q ∈ r := by
  subst hfinal
  obtain ⟨⟨hlt, hle, -⟩, -⟩ := le_of_head?_pending hwithin.2 hq
  exact ⟨hlt, BitVec.le_trans hwithin.1 (BitVec.le_of_lt hlt), hle⟩

/-- Everything that an event can do to a worker. -/
theorem Cell.step_cases {e : CellEvent} {c c' : Cell}
    (h : c.step (.exhaustive arch search analyse) e = some c') :
    match e with
    | .start => ∃ left, EntryStep search c.data left ∧
        c' = { c.handled left with started := true, uncounted := true }
    | .fault _ => ∃ left, HandlerStep search false c.data left ∧ c' = c.handled left
    | .deliver _ => c.hangPending = true ∧ ∃ left, HandlerStep search true c.data left ∧
        c' = { c.handled left with hangPending := false, uncounted := true }
    | .spurious _ => ∃ left, HandlerStep search true c.data left ∧
        c' = { c.handled left with uncounted := true } := by
  cases e <;> simp only [Cell.step, Option.ite_none_left_eq_some, Option.ite_none_right_eq_some,
    Option.some.injEq] at h
  case start => exact ⟨_, entryHandler_step .., h.2.symm⟩
  case fault sig => exact ⟨_, faultHandler_step .., h.2.symm⟩
  case deliver sig => exact ⟨h.1, _, hangHandler_step .., h.2.symm⟩
  case spurious sig => exact ⟨_, hangHandler_step .., h.symm⟩

/-- What becomes of the worker's data: every event runs the entry or another handler on it. -/
theorem Cell.step_data {e : CellEvent} {c c' : Cell}
    (h : c.step (.exhaustive arch search analyse) e = some c') :
    ∃ left, (EntryStep search c.data left ∨ ∃ hung, HandlerStep search hung c.data left) ∧
      c'.data = left.state := by
  have hcases := Cell.step_cases h
  cases e with
  | start =>
    obtain ⟨left, hs, rfl⟩ := hcases
    exact ⟨left, .inl hs, rfl⟩
  | fault sig =>
    obtain ⟨left, hs, rfl⟩ := hcases
    exact ⟨left, .inr ⟨_, hs⟩, rfl⟩
  | deliver sig =>
    obtain ⟨-, left, hs, rfl⟩ := hcases
    exact ⟨left, .inr ⟨_, hs⟩, rfl⟩
  | spurious sig =>
    obtain ⟨left, hs, rfl⟩ := hcases
    exact ⟨left, .inr ⟨_, hs⟩, rfl⟩

end

end IScanU
