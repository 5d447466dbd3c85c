import IScanU.Handlers

/-! # The exhaustive fetch stage hands out a list

`pending search current final` is the list of instructions that a worker under `exhaustive` has
still to execute after `current`. `exhaustive` returns its head, and moving to that head leaves
its tail (`exhaustive_eq`, `pending_tail`): the stage is a queue that is filled once. -/

namespace IScanU

/-- The non-blacklisted instructions after `current`, in the order in which they are met. -/
def pending (search : InstrT → Bool) (current final : InstrT) : List InstrT :=
  (Cyclic.ioc current final).filter (!search ·)

theorem pending_tail {search : InstrT → Bool} {current final w : InstrT} {ws : List InstrT}
    (h : pending search current final = w :: ws) :
    search w = false ∧ pending search w final = ws := by
  obtain ⟨hw, hws⟩ := Cyclic.filter_ioc_of_filter_ioc h
  exact ⟨by simpa using hw, hws⟩

/-- The head of the pending list is the least instruction that is still to be executed. -/
theorem le_of_head?_pending {search : InstrT → Bool} {current final q : InstrT} (h : current ≤ final)
    (hq : (pending search current final).head? = some q) :
    (current < q ∧ q ≤ final ∧ search q = false) ∧
      ∀ w, current < w → w ≤ final → search w = false → q ≤ w := by
  simpa using Cyclic.le_of_head?_filter_ioc h hq

theorem search_of_head?_pending {search : InstrT → Bool} {current final : InstrT} (h : current ≤ final)
    (hq : (pending search current final).head? = none) :
    ∀ w, current < w → w ≤ final → search w = true := by
  simpa using Cyclic.eq_false_of_head?_filter_ioc h hq

/-- The non-blacklisted instructions of a range, in the order in which they are met. -/
def worklist (search : InstrT → Bool) (start final : InstrT) : List InstrT :=
  (Cyclic.icc start final).filter (!search ·)

theorem worklist_eq (search : InstrT → Bool) (start final : InstrT) :
    worklist search start final =
      if search start then pending search start final else start :: pending search start final := by
  cases h : search start <;> simp [worklist, pending, Cyclic.icc_eq_cons, h]

theorem worklist_tail {search : InstrT → Bool} {start final w : InstrT} {ws : List InstrT}
    (h : worklist search start final = w :: ws) : pending search w final = ws :=
  (Cyclic.filter_ioc_of_filter_icc h).2

theorem mem_worklist {search : InstrT → Bool} {start final w : InstrT} (h : start ≤ final) :
    w ∈ worklist search start final ↔ (start ≤ w ∧ w ≤ final) ∧ search w = false := by
  simp [worklist, Cyclic.mem_icc_of_le h]

theorem worklist_sorted {search : InstrT → Bool} {start final : InstrT} (h : start ≤ final) :
    (worklist search start final).Pairwise (· < ·) :=
  (Cyclic.icc_sorted h).filter _

/-- The loop of `exhaustive` stops at the first hit on its way to `finalInstruction`, and counts
the instructions it passes over. -/
theorem exhaustiveLoop_eq {search : InstrT → Bool} {t final : InstrT} {data : Scanner}
    (hfinal : data.finalInstruction = final) :
    exhaustiveLoop search t data =
      let next := ((Cyclic.icc t final).filter (!search ·)).head?
      (next, data.count (next.getD final - t).toNat) := by
  induction t using Cyclic.walk_induction (b := final) generalizing data with
  | step t ih =>
    rw [exhaustiveLoop, Cyclic.icc_eq_cons, hfinal]
    cases hs : search t with
    | false => simp [hs]
    | true =>
      by_cases ht : t = final
      · subst ht
        simp [hs]
      · rw [if_pos rfl, if_neg ht, Cyclic.ioc_of_ne ht, List.filter_cons, hs, Bool.not_true,
          if_neg Bool.false_ne_true]
        have hrest := @ih ht (data.count 1) hfinal
        generalize hnext : ((Cyclic.icc (t + 1#32) final).filter (!search ·)).head? = next at hrest ⊢
        have hne : t ≠ next.getD final := by
          cases next with
          | none => exact ht
          | some w =>
            have hw := List.mem_of_mem_head? hnext
            rintro rfl
            simp [hs] at hw
        rw [hrest]
        simp [Cyclic.toNat_sub_succ hne, Nat.add_comm]

/-- The spec of `exhaustive`: the head of the pending list, and the number of instructions passed
over on the way to it. -/
theorem exhaustive_eq (search : InstrT → Bool) (data : Scanner) :
    exhaustive search data =
      let next := (pending search data.currentInstruction data.finalInstruction).head?
      (next, data.count
        ((next.getD data.finalInstruction - data.currentInstruction).toNat - 1)) := by
  unfold exhaustive pending
  by_cases h : data.currentInstruction = data.finalInstruction
  · simp [h]
  · rw [if_neg h, exhaustiveLoop_eq rfl, ← Cyclic.ioc_of_ne h]
    generalize hnext : ((Cyclic.ioc data.currentInstruction data.finalInstruction).filter
      (!search ·)).head? = next
    have hne : data.currentInstruction ≠ next.getD data.finalInstruction := by
      cases next with
      | none => exact h
      | some w =>
        have hw := (List.mem_filter.mp (List.mem_of_mem_head? hnext)).1
        rintro rfl
        exact Cyclic.not_mem_ioc_self _ _ hw
    simp [Cyclic.toNat_sub_succ hne]

/-- `exhaustive` on any state: it is finished exactly when everything in the cyclic interval after
the current instruction, up to the final one, is blacklisted; otherwise it yields the first
instruction there that is not. It counts what it passes over and changes nothing else. -/
theorem exhaustive_exact (search : InstrT → Bool) (data : Scanner) :
    let current := data.currentInstruction
    let final := data.finalInstruction
    ((exhaustive search data).1 = none ↔
      ∀ x, 0 < x - current → x - current ≤ final - current → search x = true) ∧
    (∀ w, (exhaustive search data).1 = some w ↔
      (0 < w - current ∧ w - current ≤ final - current ∧ search w = false) ∧
        ∀ x, 0 < x - current → x - current < w - current → search x = true) ∧
    (exhaustive search data).2 = { data with
      numInstrExec := data.numInstrExec +
        match (exhaustive search data).1 with
        | some w => (w - (current + 1)).toNat
        | none => if current = final then 0 else (final - (current + 1)).toNat } := by
  have hne : ∀ {a b : InstrT}, 0 < b - a → a ≠ b := by
    rintro a _ h rfl
    simp at h
  simp only [exhaustive_eq, pending]
  refine ⟨?_, fun w => ?_, ?_⟩
  · rw [Cyclic.head?_filter_ioc_eq_none]
    simp
  · rw [Cyclic.head?_filter_ioc_eq_some]
    simp
  · cases h : ((Cyclic.ioc data.currentInstruction data.finalInstruction).filter
      (!search ·)).head? with
    | some w =>
      have hw := (Cyclic.head?_filter_ioc_eq_some.1 h).1.1
      simp [Scanner.count, Cyclic.toNat_sub_succ (hne hw)]
    | none =>
      by_cases hcur : data.currentInstruction = data.finalInstruction
      · simp [Scanner.count, hcur]
      · simp [Scanner.count, hcur, Cyclic.toNat_sub_succ hcur]

/-! ## Handlers under `exhaustive` -/

/-- What a handler that analyses an instruction does to the fields a scan is about, whichever
instruction comes next. -/
structure Handled (hung : Bool) (data data' : Scanner) : Prop where
  analysed : data'.analysed = data.analysed ++ [data.currentInstruction]
  hangs : data'.hangOutputFD =
    data.hangOutputFD ++ if hung then [data.currentInstruction] else []
  final : data'.finalInstruction = data.finalInstruction
  oldCount : data'.oldNumInstrExec = data.oldNumInstrExec
  count : data.numInstrExec + (if hung then 0 else 1) ≤ data'.numInstrExec

/-- What the way into the scan leaves alone. -/
structure Entered (data data' : Scanner) : Prop where
  analysed : data'.analysed = data.analysed
  hangs : data'.hangOutputFD = data.hangOutputFD
  final : data'.finalInstruction = data.finalInstruction
  oldCount : data'.oldNumInstrExec = data.oldNumInstrExec
  count : data.numInstrExec ≤ data'.numInstrExec

/-- The number of `end of run` lines. -/
def endsOfRun (data : Scanner) : Nat := data.outputFD.count .endOfRun

@[simp] theorem count_endOfRun_analysis (lines : List String) :
    (lines.map OutputLine.analysis).count .endOfRun = 0 := by
  simp [List.count_eq_zero]

/-- Everything a handler that analyses an instruction can do. -/
inductive HandlerStep (search : InstrT → Bool) (hung : Bool) (data : Scanner) :
    Control Scanner → Prop
  | next {data' : Scanner} {ws : List InstrT} :
      pending search data.currentInstruction data.finalInstruction =
        data'.currentInstruction :: ws →
      Handled hung data data' → data'.isStopped = data.isStopped →
      endsOfRun data' = endsOfRun data →
      HandlerStep search hung data (.resume data')
  | last {data' : Scanner} : pending search data.currentInstruction data.finalInstruction = [] →
      data'.currentInstruction = data.currentInstruction →
      Handled hung data data' → data'.isStopped = true →
      endsOfRun data' = endsOfRun data + 1 →
      HandlerStep search hung data (.halt data')

theorem HandlerStep.handled {search : InstrT → Bool} (h : HandlerStep search hung data c) :
    Handled hung data c.state := by
  cases h with
  | next _ hd => exact hd
  | last _ _ hd => exact hd

/-- A handler never clears `isStopped`. -/
theorem HandlerStep.stopped {search : InstrT → Bool} (h : HandlerStep search hung data c)
    (hs : data.isStopped = true) : c.state.isStopped = true := by
  cases h with
  | next _ _ hstop => exact hstop.trans hs
  | last _ _ _ hstop => exact hstop

theorem HandlerStep.of_nil {search : InstrT → Bool} (h : HandlerStep search hung data c)
    (hq : pending search data.currentInstruction data.finalInstruction = []) :
    ∃ data', c = .halt data' ∧ data'.currentInstruction = data.currentInstruction ∧
      Handled hung data data' ∧ data'.isStopped = true ∧
      endsOfRun data' = endsOfRun data + 1 := by
  cases h with
  | next hp => rw [hq] at hp; cases hp
  | last _ hcur hd hstop hends => exact ⟨_, rfl, hcur, hd, hstop, hends⟩

theorem HandlerStep.of_cons {search : InstrT → Bool} (h : HandlerStep search hung data c)
    (hq : pending search data.currentInstruction data.finalInstruction = w :: ws) :
    ∃ data', c = .resume data' ∧ data'.currentInstruction = w ∧
      pending search data'.currentInstruction data'.finalInstruction = ws ∧
      Handled hung data data' ∧ data'.isStopped = data.isStopped ∧
      endsOfRun data' = endsOfRun data := by
  cases h with
  | last hp => rw [hq] at hp; cases hp
  | next hp hd hstop hends =>
    obtain ⟨hw, hws⟩ := List.cons.inj (hq.symm.trans hp)
    subst hw hws
    exact ⟨_, rfl, rfl, hd.final ▸ (pending_tail hp).2, hd, hstop, hends⟩

/-- At the state `data` the stage yields `next`, whatever the other fields hold, and only counts. -/
def Fetches (fetch : FetchStage) (next : Option InstrT) (data : Scanner) : Prop :=
  ∀ d, d.currentInstruction = data.currentInstruction → d.finalInstruction = data.finalInstruction →
    ∃ k, fetch d = (next, d.count k)

theorem exhaustive_fetches (search : InstrT → Bool) (data : Scanner) :
    Fetches (exhaustive search)
      (pending search data.currentInstruction data.finalInstruction).head? data := by
  intro d hcur hfinal
  rw [← hcur, ← hfinal]
  exact ⟨_, exhaustive_eq search d⟩

/-- Everything a handler that analyses an instruction can do when the stage yields `fetched`. -/
inductive MoveStep (fetched : Option InstrT) (hung : Bool) (data : Scanner) :
    Control Scanner → Prop
  | next {data' : Scanner} : fetched = some data'.currentInstruction →
      Handled hung data data' → data'.isStopped = data.isStopped →
      endsOfRun data' = endsOfRun data →
      MoveStep fetched hung data (.resume data')
  | last {data' : Scanner} : fetched = none →
      data'.currentInstruction = data.currentInstruction →
      Handled hung data data' → data'.isStopped = true →
      endsOfRun data' = endsOfRun data + 1 →
      MoveStep fetched hung data (.halt data')

theorem MoveStep.handled {fetched : Option InstrT} (h : MoveStep fetched hung data c) :
    Handled hung data c.state := by
  cases h with
  | next _ hd => exact hd
  | last _ _ hd => exact hd

/-- A stage that yields the head of the pending list works it off. -/
theorem MoveStep.handlerStep {search : InstrT → Bool}
    (h : MoveStep (pending search data.currentInstruction data.finalInstruction).head? hung data c) :
    HandlerStep search hung data c := by
  cases h with
  | next hq hd hstop hends =>
    obtain ⟨ws, hws⟩ := List.head?_eq_some_iff.1 hq
    exact .next hws hd hstop hends
  | last hq hcur hd hstop hends => exact .last (List.head?_eq_none_iff.1 hq) hcur hd hstop hends

section
variable {cfg : Config} {next : Option InstrT} {data : Scanner}
  (h : Fetches cfg.fetchInstruction next data)
include h

theorem Fetches.fault (sig : Signal) : MoveStep next false data (faultHandler cfg sig data) := by
  obtain ⟨k, hk⟩ := h (cfg.analyse.call (recordSignal data sig)) rfl rfl
  simp only [faultHandler, hk]
  cases next with
  | none => refine .last rfl ?_ ⟨?_, ?_, ?_, ?_, ?_⟩ ?_ ?_ <;> simp [endsOfRun]
  | some w => refine .next ?_ ⟨?_, ?_, ?_, ?_, ?_⟩ ?_ ?_ <;> simp [endsOfRun]

theorem Fetches.hang (sig : Signal) : MoveStep next true data (hangHandler cfg sig data) := by
  unfold hangHandler
  generalize hcalled : cfg.analyse.call (recordSignal (writeHang data) { sig with signo := SIGSEGV }) =
    called
  have hcur : called.currentInstruction = data.currentInstruction := by simp [← hcalled]
  have hfinal : called.finalInstruction = data.finalInstruction := by simp [← hcalled]
  obtain ⟨k, hk⟩ := h (writeStdPage cfg.arch called called.instructionPage) hcur hfinal
  simp only [hcalled, hk]
  subst hcalled
  cases next with
  | none => refine .last rfl ?_ ⟨?_, ?_, ?_, ?_, ?_⟩ ?_ ?_ <;> simp [endsOfRun]
  | some w => refine .next ?_ ⟨?_, ?_, ?_, ?_, ?_⟩ ?_ ?_ <;> simp [endsOfRun]

theorem Fetches.ptrace (sig : Signal) : MoveStep next false data (ptraceStep cfg sig data) := by
  unfold ptraceStep
  generalize hcalled : cfg.analyse.call (recordSignal (writeInstructionPtrace cfg data) sig) = called
  have hcur : (called.count 1).currentInstruction = data.currentInstruction := by simp [← hcalled]
  have hfinal : (called.count 1).finalInstruction = data.finalInstruction := by simp [← hcalled]
  obtain ⟨k, hk⟩ := h (called.count 1) hcur hfinal
  simp only [hcalled, hk]
  subst hcalled
  cases next with
  | none => refine .last rfl ?_ ⟨?_, ?_, ?_, ?_, ?_⟩ ?_ ?_ <;> simp [endsOfRun]
  | some w => refine .next ?_ ⟨?_, ?_, ?_, ?_, ?_⟩ ?_ ?_ <;> simp [endsOfRun]

end

/-- Everything that the way into the scan can do: it goes to the first instruction of the worker's
list, or stops if there is none. -/
inductive EntryStep (search : InstrT → Bool) (data : Scanner) : Control Scanner → Prop
  | next {data' : Scanner} {ws : List InstrT} :
      worklist search data.currentInstruction data.finalInstruction =
        data'.currentInstruction :: ws →
      Entered data data' → data'.isStopped = data.isStopped →
      endsOfRun data' = endsOfRun data →
      EntryStep search data (.resume data')
  | last {data' : Scanner} : worklist search data.currentInstruction data.finalInstruction = [] →
      data'.currentInstruction = data.currentInstruction →
      Entered data data' → data'.isStopped = true →
      endsOfRun data' = endsOfRun data + 1 →
      EntryStep search data (.halt data')

theorem EntryStep.entered {search : InstrT → Bool} (h : EntryStep search data c) :
    Entered data c.state := by
  cases h with
  | next _ he => exact he
  | last _ _ he => exact he

theorem EntryStep.stopped {search : InstrT → Bool} (h : EntryStep search data c)
    (hs : data.isStopped = true) : c.state.isStopped = true := by
  cases h with
  | next _ _ hstop => exact hstop.trans hs
  | last _ _ _ hstop => exact hstop

/-- `entryHandler` does what the way into `ptraceLoop` does, and puts the instruction on the page. -/
theorem entryHandler_eq (cfg : Config) (data : Scanner) :
    entryHandler cfg data =
      match ptraceEntry cfg data with
      | .resume data' => .resume (enterInstruction data')
      | .halt data' => .halt data' := by
  simp only [entryHandler, ptraceEntry]
  generalize writeOutput data [.timestamp, .startOfRun] = data
  split
  · generalize cfg.fetchInstruction data = fetched
    obtain ⟨_ | nextInstruction, data'⟩ := fetched <;> rfl
  · rfl

section
variable {cfg : Config} {search : InstrT → Bool} {data : Scanner}
  (h : Fetches cfg.fetchInstruction
    (pending search data.currentInstruction data.finalInstruction).head? data)
  (hsearch : cfg.search data.currentInstruction = search data.currentInstruction)
include h hsearch

theorem ptraceEntry_entryStep : EntryStep search data (ptraceEntry cfg data) := by
  obtain ⟨k, hk⟩ := h (writeOutput data [.timestamp, .startOfRun]) rfl rfl
  simp only [ptraceEntry, hk, hsearch, writeOutput_currentInstruction]
  have hlist := worklist_eq search data.currentInstruction data.finalInstruction
  cases hs : search data.currentInstruction with
  | false =>
    rw [hs] at hlist
    refine .next hlist ⟨?_, ?_, ?_, ?_, ?_⟩ ?_ ?_ <;> simp [endsOfRun]
  | true =>
    rw [hs, if_pos rfl] at hlist
    cases hp : pending search data.currentInstruction data.finalInstruction with
    | nil => refine .last (hlist.trans hp) ?_ ⟨?_, ?_, ?_, ?_, ?_⟩ ?_ ?_ <;> simp [endsOfRun]
    | cons w ws => refine .next (hlist.trans hp) ⟨?_, ?_, ?_, ?_, ?_⟩ ?_ ?_ <;> simp [endsOfRun]

theorem entryHandler_entryStep : EntryStep search data (entryHandler cfg data) := by
  have hstep := ptraceEntry_entryStep h hsearch
  rw [entryHandler_eq]
  generalize ptraceEntry cfg data = c at hstep ⊢
  cases hstep with
  | next hw he hstop hends =>
    exact .next hw ⟨he.analysed, he.hangs, he.final, he.oldCount, he.count⟩ hstop hends
  | last hw hcur he hstop hends => exact .last hw hcur he hstop hends

end

section
variable (arch : ArchProperties) (search : InstrT → Bool) (analyse : AnalysisStage)

theorem faultHandler_step (sig : Signal) (data : Scanner) :
    HandlerStep search false data (faultHandler (.exhaustive arch search analyse) sig data) :=
  (Fetches.fault (exhaustive_fetches search data) sig).handlerStep

theorem hangHandler_step (sig : Signal) (data : Scanner) :
    HandlerStep search true data (hangHandler (.exhaustive arch search analyse) sig data) :=
  (Fetches.hang (exhaustive_fetches search data) sig).handlerStep

theorem ptraceStep_step (sig : Signal) (data : Scanner) :
    HandlerStep search false data (ptraceStep (.exhaustive arch search analyse) sig data) :=
  (Fetches.ptrace (exhaustive_fetches search data) sig).handlerStep

theorem ptraceEntry_step (data : Scanner) :
    EntryStep search data (ptraceEntry (.exhaustive arch search analyse) data) :=
  ptraceEntry_entryStep (exhaustive_fetches search data) rfl

theorem entryHandler_step (data : Scanner) :
    EntryStep search data (entryHandler (.exhaustive arch search analyse) data) :=
  entryHandler_entryStep (exhaustive_fetches search data) rfl

end

end IScanU
