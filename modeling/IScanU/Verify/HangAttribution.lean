import IScanU.Verify.MemCage

/-! # Which instructions are reported as hanging

The manager takes a worker to hang when its counter has not moved since the last alarm. A
`faultHandler` moves the counter; an `entryHandler` or a `hangHandler` can change the instruction
without moving it, and before the first alarm there is nothing to compare with. A SIGUSR2 names no
instruction either. So a `HANG` line is right as long as no alarm draws its conclusion from such a
counter and every SIGUSR2 arrives before the worker's next handler. -/

namespace IScanU

/-- The instruction was the current one at two consecutive alarms. -/
def TwoTicks (atTicks : List InstrT) (n : InstrT) : Prop := [n, n] <:+: atTicks

/-- Every `HANG` line of the worker names such an instruction. -/
def Attributed (c : Cell) : Prop := ∀ n ∈ c.data.hangOutputFD, TwoTicks c.atTicks n

/-- The steps at which the manager's conclusions are sound: an alarm sends no SIGUSR2 to a worker
whose instruction may have changed uncounted, and a SIGUSR2 is delivered before the worker's next
handler. -/
def Prompt : Event → System → Prop
  | .tick, s => ∀ c ∈ s.cells, s.manager.suspects c.data = true → c.uncounted = false
  | .worker i (.deliver _), s => ∀ c ∈ s.cells[i]?, c.late = false
  | .worker _ (.spurious _), _ => False
  | .worker _ .start, _ | .worker _ (.fault _), _ => True

instance : ∀ e s, Decidable (Prompt e s)
  | .tick, s => inferInstanceAs (Decidable (∀ c ∈ s.cells, _ → _))
  | .worker i (.deliver _), s => inferInstanceAs (Decidable (∀ c ∈ s.cells[i]?, c.late = false))
  | .worker _ (.spurious _), _ => inferInstanceAs (Decidable False)
  | .worker _ .start, _ | .worker _ (.fault _), _ => inferInstanceAs (Decidable True)

/-- What the counters and the signal in flight say about a worker. -/
structure Watched (c : Cell) : Prop where
  /-- The counter only grows. -/
  count : c.data.oldNumInstrExec ≤ c.data.numInstrExec
  /-- While the counter stands still, the instruction does. -/
  still : c.uncounted = false → c.data.numInstrExec = c.data.oldNumInstrExec →
    c.atTicks.getLast? = some c.data.currentInstruction
  /-- A SIGUSR2 that is not late finds the instruction it was sent for. -/
  aimed : c.hangPending = true → c.late = false → TwoTicks c.atTicks c.data.currentInstruction
  attributed : Attributed c

theorem TwoTicks.append {l : List InstrT} {n : InstrT} (h : TwoTicks l n) (m : InstrT) :
    TwoTicks (l ++ [m]) n :=
  h.trans (List.prefix_append l [m]).isInfix

theorem twoTicks_of_getLast? {l : List InstrT} {n : InstrT} (h : l.getLast? = some n) :
    TwoTicks (l ++ [n]) n := by
  obtain ⟨l', rfl⟩ := List.getLast?_eq_some_iff.mp h
  exact ⟨l', [], by simp⟩

theorem Watched.init (arch : ArchProperties) (page : Nat) (r : WorkRange) :
    Watched (.init arch page r) := by
  refine ⟨Nat.le_refl _, nofun, nofun, ?_⟩
  intro n hn
  cases hn

theorem Watched.alarmed {c : Cell} {m : Manager} (h : Watched c)
    (hok : m.suspects c.data = true → c.uncounted = false) :
    Watched (c.alarmed (m.visit c.data) (m.suspects c.data)) := by
  obtain ⟨n, hn⟩ := m.visit_eq c.data
  rw [hn]
  refine ⟨Nat.le_refl _, fun _ _ => by simp, fun hpending hlate => ?_, fun w hw => ?_⟩
  · simp only [Cell.alarmed_hangPending, Cell.alarmed_late, Cell.alarmed_atTicks,
      Cell.alarmed_data] at hpending hlate ⊢
    cases hsus : m.suspects c.data with
    | true =>
      have hstill : c.data.numInstrExec = c.data.oldNumInstrExec := by
        simp only [Manager.suspects, Bool.and_eq_true, beq_iff_eq] at hsus
        exact hsus.1.2
      exact twoTicks_of_getLast? (h.still (hok hsus) hstill)
    | false =>
      rw [hsus] at hpending hlate
      simp only [Bool.or_false, Bool.not_false, Bool.and_true] at hpending hlate
      exact (h.aimed hpending hlate).append _
  · exact (h.attributed w hw).append _

section
variable {arch : ArchProperties} {search : InstrT → Bool} {analyse : AnalysisStage}

/-- An event of a worker; a SIGUSR2 only if the manager has sent it and no handler ran since. -/
theorem Watched.step {e : CellEvent} {c c' : Cell} (h : Watched c)
    (hdeliver : ∀ sig, e = .deliver sig → c.late = false) (hspurious : ∀ sig, e ≠ .spurious sig)
    (hstep : c.step (.exhaustive arch search analyse) e = some c') : Watched c' := by
  have hcases := Cell.step_cases hstep
  have hcount := h.count
  cases e with
  | start =>
    obtain ⟨left, hs, rfl⟩ := hcases
    have he := hs.entered
    refine ⟨?_, nofun, nofun, fun n hn => h.attributed n (he.hangs ▸ hn)⟩
    have := he.oldCount
    have := he.count
    simp only [Cell.handled_data]
    omega
  | fault sig =>
    obtain ⟨left, hs, rfl⟩ := hcases
    have hd := hs.handled
    have hold := hd.oldCount
    have hnum := hd.count
    simp only [Bool.false_eq_true, if_false] at hnum
    refine ⟨?_, fun _ hstill => ?_, nofun, fun n hn => h.attributed n ?_⟩
    · simp only [Cell.handled_data]
      omega
    · simp only [Cell.handled_data] at hstill
      omega
    · simpa [hd.hangs] using hn
  | deliver sig =>
    obtain ⟨hpending, left, hs, rfl⟩ := hcases
    have hd := hs.handled
    have hold := hd.oldCount
    have hnum := hd.count
    refine ⟨?_, nofun, nofun, fun n hn => ?_⟩
    · simp only [Cell.handled_data]
      omega
    · simp only [Cell.handled_data, hd.hangs, if_true, List.mem_append, List.mem_singleton] at hn
      rcases hn with hn | rfl
      · exact h.attributed n hn
      · exact h.aimed hpending (hdeliver sig rfl)
  | spurious sig => exact absurd rfl (hspurious sig)

/-- Every `HANG` line names an instruction that was current at two consecutive alarms, as long as
alarms do not judge by uncounted instructions and every SIGUSR2 is delivered in time. -/
theorem hangs_attributed (arch : ArchProperties) (search : InstrT → Bool) (analyse : AnalysisStage)
    (workers : List (Nat × WorkRange)) {s : System}
    (h : Transition.Reach (System.step (.exhaustive arch search analyse)) Prompt
      (.init arch workers) s) : ∀ c ∈ s.cells, Attributed c := by
  have hinv := h.invariant (I := fun s => ∀ c ∈ s.cells, Watched c) (fun e s t hok hs hstep => ?_)
    fun c hc => ?_
  · exact fun c hc => (hinv c hc).attributed
  · refine System.step_forall hstep hs (fun he c hc => ?_) fun i e' c c' he hc hc' => ?_
    · subst he
      exact (hs c hc).alarmed (hok c hc)
    · subst he
      refine (hs c (List.mem_of_getElem? hc)).step ?_ ?_ hc'
      · rintro sig rfl
        exact hok c hc
      · rintro sig rfl
        exact hok
  · obtain ⟨w, -, rfl⟩ := List.mem_map.mp hc
    exact .init arch w.1 w.2

/-! One worker for the instructions 0 to 9: 0 faults, 1 hangs over two alarms. -/

def hangRun : List Event :=
  [.worker 0 .start, .worker 0 (.fault ⟨11, ⟨1, 0⟩, ⟨0⟩⟩), .tick, .tick,
    .worker 0 (.deliver ⟨12, ⟨0, 0⟩, ⟨0⟩⟩)]

def tenInstructions : System := .init .aarch64 [(4096, .upTo 9)]

theorem hangs_attributed_ten : ∃ s : System,
    s.cells.map (·.data.hangOutputFD) = [[1]] ∧ ∀ c ∈ s.cells, Attributed c := by
  have hrun : (Transition.replay (System.step .plain) Prompt hangRun tenInstructions).map
      (·.cells.map (·.data.hangOutputFD)) = some [[1]] := by decide +kernel
  obtain ⟨s, hs, hhangs⟩ := Option.map_eq_some_iff.mp hrun
  exact ⟨s, hhangs, hangs_attributed .aarch64 (fun _ => false) (basicAnalysis fun _ => true)
    [(4096, .upTo 9)] (Transition.reach_of_replay hs)⟩

/-- `hangHandler` has moved on to 2 without counting: the next alarm sends another SIGUSR2, and 2
is reported although it was current at one alarm only. -/
theorem hangs_misattributed : ∃ s,
    Transition.replay (System.step .plain) (fun _ _ => True)
      (hangRun ++ [.tick, .worker 0 (.deliver ⟨12, ⟨0, 0⟩, ⟨0⟩⟩)]) tenInstructions = some s ∧
    s.cells.map (fun c => (c.data.hangOutputFD, c.atTicks)) = [([1, 2], [1, 1, 2])] ∧
    ¬∀ c ∈ s.cells, Attributed c := by
  have hrun : (Transition.replay (System.step .plain) (fun _ _ => True)
      (hangRun ++ [.tick, .worker 0 (.deliver ⟨12, ⟨0, 0⟩, ⟨0⟩⟩)]) tenInstructions).map
      (·.cells.map fun c => (c.data.hangOutputFD, c.atTicks)) = some [([1, 2], [1, 1, 2])] := by
    decide +kernel
  obtain ⟨s, hs, hcells⟩ := Option.map_eq_some_iff.mp hrun
  refine ⟨s, hs, hcells, fun hall => ?_⟩
  obtain ⟨c, hc, hvalue⟩ := List.mem_map.mp (hcells ▸ List.mem_cons_self)
  obtain ⟨hhangs, hticks⟩ := Prod.mk.inj hvalue
  have htwo := hall c hc 2 (by simp [hhangs])
  rw [hticks] at htwo
  revert htwo
  unfold TwoTicks
  decide

end

end IScanU
