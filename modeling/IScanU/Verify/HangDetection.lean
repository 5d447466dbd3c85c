import IScanU.Verify.HangAttribution
import IScanU.Verify.Termination

/-! # Every hang is noticed

The manager compares counters, so a worker that is stuck from one alarm to the next is found: by the
second alarm a SIGUSR2 is on its way, and it stays in flight until the worker takes it. The `HANG`
line that is then written is right, since the worker has not moved in between. -/

namespace IScanU

/-- The event is not one of the worker `i`. -/
def Spares (i : Nat) : Event → System → Prop
  | .tick, _ => True
  | .worker j _, _ => j ≠ i

instance (i : Nat) : ∀ e s, Decidable (Spares i e s)
  | .tick, _ => inferInstanceAs (Decidable True)
  | .worker j _, _ => inferInstanceAs (Decidable (j ≠ i))

/-- The worker has done nothing since the last alarm. -/
structure Unmoved (c : Cell) : Prop where
  still : c.data.numInstrExec = c.data.oldNumInstrExec
  last : c.atTicks.getLast? = some c.data.currentInstruction

/-- If the worker is not stopped, a SIGUSR2 is in flight that is right about its instruction. -/
def Noticed (c : Cell) : Prop :=
  c.data.isStopped = false → c.hangPending = true ∧ TwoTicks c.atTicks c.data.currentInstruction

/-! ## Alarms -/

section
variable {c : Cell} {m : Manager} {signalled : Bool}

theorem unmoved_alarmed : Unmoved (c.alarmed (m.visit c.data) signalled) := by
  obtain ⟨n, hn⟩ := m.visit_eq c.data
  rw [hn]
  exact ⟨rfl, by simp⟩

theorem Noticed.alarmed (h : Noticed c) : Noticed (c.alarmed (m.visit c.data) signalled) := by
  obtain ⟨n, hn⟩ := m.visit_eq c.data
  rw [hn]
  intro hrun
  obtain ⟨hpending, htwo⟩ := h hrun
  exact ⟨by simp [hpending], htwo.append _⟩

theorem Unmoved.noticed (h : Unmoved c) (hm : m.checkForHang = true) :
    Noticed (c.alarmed (m.visit c.data) (m.suspects c.data)) := by
  obtain ⟨n, hn⟩ := m.visit_eq c.data
  rw [hn]
  intro (hrun : c.data.isStopped = false)
  have hsuspects : m.suspects c.data = true := by
    simp [Manager.suspects, hm, h.still, hrun]
  exact ⟨by simp [hsuspects], twoTicks_of_getLast? h.last⟩

end

/-! ## Runs without the worker -/

section
variable {cfg : Config} {i : Nat} {e : Event} {s t : System}

/-- What alarms preserve of a worker lasts as long as the worker does nothing. -/
theorem System.reach_spared {I : Cell → Prop}
    (htick : ∀ m : Manager, ∀ c : Cell, I c → I (c.alarmed (m.visit c.data) (m.suspects c.data)))
    (h : Transition.Reach (System.step cfg) (Spares i) s t)
    (hs : ∀ c, s.cells[i]? = some c → I c) : ∀ c, t.cells[i]? = some c → I c := by
  refine h.invariant (I := fun s => ∀ c, s.cells[i]? = some c → I c)
    (fun e s t hok hs hstep => ?_) hs
  cases e with
  | tick =>
    obtain ⟨-, rfl⟩ := System.step_tick hstep
    intro c hc
    obtain ⟨c₀, hc₀, rfl⟩ := System.tick_getElem? hc
    exact htick _ c₀ (hs c₀ hc₀)
  | worker j e =>
    obtain ⟨_, c', -, -, rfl⟩ := System.step_worker hstep
    intro c hc
    rw [List.getElem?_set_ne hok] at hc
    exact hs c hc

end

section
variable {arch : ArchProperties} {search : InstrT → Bool} {analyse : AnalysisStage}

/-- A SIGUSR2 takes a worker that is not stopped past the instruction, which it reports. -/
theorem Cell.deliver_reports {c : Cell} (hpending : c.hangPending = true)
    (hrun : c.data.isStopped = false) (sig : Signal) :
    ∃ c', c.step (.exhaustive arch search analyse) (.deliver sig) = some c' ∧
      c'.data.hangOutputFD = c.data.hangOutputFD ++ [c.data.currentInstruction] ∧
      c'.data.analysed = c.data.analysed ++ [c.data.currentInstruction] ∧
      handlersLeft search c'.data < handlersLeft search c.data := by
  have hs : HandlerStep search true c.data (hangHandler (.exhaustive arch search analyse) sig c.data) :=
    hangHandler_step ..
  refine ⟨_, if_pos hpending, hs.handled.hangs, hs.handled.analysed, ?_⟩
  have hleft := hs.handlersLeft
  have hsome : handlersLeft search c.data =
      (pending search c.data.currentInstruction c.data.finalInstruction).length + 1 :=
    handlersLeft_of_running hrun
  simp only [Cell.handled_data]
  omega

end

end IScanU
