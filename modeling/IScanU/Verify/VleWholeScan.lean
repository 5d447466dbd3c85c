import IScanU.Verify.VleFindings

/-! # The schedule of a variable-length scan

When it depends on the instruction alone whether it raises a size error, what a worker executes is a
list that is known beforehand: each parcel of its range, and after a size error the completions of
the parcel. Put together, the lists of all workers are the list of the whole range, except that the
last parcel of each worker is completed with the high half 0 only (`vle_whole_scan`). Other than for
instructions of one length, the number of threads makes a difference. -/

namespace IScanU.RV64GC

section
variable (search sizeErr : InstrT → Bool)

/-- The completions of the parcel `p` that are executed. -/
def completions (isFinal : Bool) (p : InstrT) : List (Nat × InstrT) :=
  (4, p) :: if isFinal then [] else (highs search p 0).map fun h => (4, construct p h)

/-- What is executed for the parcel `p`. -/
def parcelSchedule (isFinal : InstrT → Bool) (p : InstrT) : List (Nat × InstrT) :=
  (2, p) :: if sizeErr p then completions search (isFinal p) p else []

/-- The long instructions with the parcel of `w` that are executed after it. -/
def longer (final w : InstrT) : List (Nat × InstrT) :=
  if w = final then []
  else (highs search (low w) (high w)).map fun h => (4, construct (low w) h)

/-- What a worker whose range ends with `final` executes after `x`. -/
def afterwards (final : InstrT) (x : Nat × InstrT) : List (Nat × InstrT) :=
  (if x.1 = 4 then longer search final x.2
    else if sizeErr x.2 then (4, x.2) :: longer search final x.2 else []) ++
    (pending search (low x.2) final).flatMap (parcelSchedule search sizeErr (· == final))

end

section
variable {search sizeErr : InstrT → Bool} {final : InstrT}

theorem highs_tail {p h h' : InstrT} {hs : List InstrT} (hq : highs search p h = h' :: hs) :
    highs search p h' = hs :=
  (Cyclic.filter_ioc_of_filter_ioc hq).2

theorem high_of_lt {p : InstrT} (hp : p.toNat < 2 ^ 16) : high p = 0 := by
  apply BitVec.eq_of_toNat_eq
  rw [toNat_high, Nat.div_eq_of_lt hp]
  rfl

/-- A parcel and what is executed after it make its schedule and those of the parcels after it. -/
theorem cons_afterwards {p : InstrT} (hp : p.toNat < 2 ^ 16) :
    (2, p) :: afterwards search sizeErr final (2, p) =
      (p :: pending search p final).flatMap (parcelSchedule search sizeErr (· == final)) := by
  have hlonger : longer search final p =
      if p == final then [] else (highs search p 0).map fun h => (4, construct p h) := by
    rw [longer, low_of_lt hp, high_of_lt hp]
    simp only [beq_iff_eq]
  rw [afterwards, if_neg (by simp), hlonger, low_of_lt hp, List.flatMap_cons, parcelSchedule,
    completions, List.cons_append]

theorem flatMap_pending (hr : final.toNat < 2 ^ 16) {p : InstrT} (hp : p ≤ final) :
    (pending search p final).flatMap (parcelSchedule search sizeErr (· == final)) =
      match (pending search p final).head?.map (2, ·) with
      | none => []
      | some y => y :: afterwards search sizeErr final y := by
  cases hq : pending search p final with
  | nil => rfl
  | cons q qs =>
    have hhead : (pending search p final).head? = some q := by rw [hq, List.head?_cons]
    obtain ⟨⟨-, hle, -⟩, -⟩ := le_of_head?_pending hp hhead
    have hcons := @cons_afterwards search sizeErr final q (Nat.lt_of_le_of_lt hle hr)
    rw [(pending_tail hq).2] at hcons
    exact hcons.symm

/-- The schedule goes on as `advance` says. -/
theorem afterwards_eq {r : WorkRange} (hr : r.final.toNat < 2 ^ 16) {x : Nat × InstrT}
    (hx : Enumerated search r x) (hlast : x.1 = 4 → low x.2 = r.final → x.2 = r.final)
    (hraised : raised = true ↔ x.1 = 2 ∧ sizeErr x.2 = true) :
    afterwards search sizeErr r.final x =
      match advance search r.final raised x with
      | none => []
      | some y => y :: afterwards search sizeErr r.final y := by
  have hpending := @flatMap_pending search sizeErr r.final hr (low x.2) hx.parcel.2
  unfold advance
  rcases hx.mode with hshort | hlong
  · cases raised with
    | true =>
      have herr := (hraised.1 rfl).2
      simp [afterwards, hshort, herr]
    | false =>
      have herr : sizeErr x.2 = false := by simpa [hshort] using hraised
      rw [afterwards, if_neg (by omega), herr, if_neg Bool.false_ne_true, List.nil_append,
        if_neg Bool.false_ne_true, if_neg (by omega), if_neg (by omega)]
      exact hpending
  · have hfalse : raised = false := by
      rw [← Bool.not_eq_true, hraised, hlong]
      omega
    rw [afterwards, if_pos hlong, hfalse, if_neg Bool.false_ne_true, if_pos hlong]
    by_cases hcur : x.2 = r.final
    · rw [if_pos ⟨hlong, hcur⟩, longer, if_pos hcur, hcur, low_of_lt hr, pending, Cyclic.ioc_self]
      rfl
    · rw [if_neg fun h => hcur h.2, longer, if_neg hcur]
      cases hh : highs search (low x.2) (high x.2) with
      | nil => exact hpending
      | cons h hs =>
        have hhead : (highs search (low x.2) (high x.2)).head? = some h := by
          rw [hh, List.head?_cons]
        obtain ⟨⟨-, hhlt, -⟩, -⟩ := le_of_head?_highs (high_lt x.2) hhead
        have hlow := low_construct (low_lt x.2) hhlt
        have hhigh : high (construct (low x.2) h) = h := by
          apply BitVec.eq_of_toNat_eq
          have := low_lt x.2
          rw [toNat_high, toNat_construct this hhlt]
          omega
        have hne : construct (low x.2) h ≠ r.final := fun heq => hcur <| hlast hlong <| by
          rw [← hlow, heq, low_of_lt hr]
        simp only [List.head?_cons, afterwards, if_true, longer, if_neg hne, hlow, hhigh,
          highs_tail hh, List.map_cons, List.cons_append]

end

/-! ## One worker -/

section
variable (csDisasmIter : List Byte → Bool) (search : InstrT → Bool)

/-- The entry of a worker into its scan, with its page mapped at `page`. -/
def workerEntry (page : Nat) (data : Scanner) : Control Scanner :=
  entryHandler (config csDisasmIter disasmInst search) (initScanner .rv64gc page data)

/-- The steps of the worker when the instructions are executed so. -/
def workerSteps (page : Nat) (data : Scanner) (es : List Execution) : List (Execution × Scanner) :=
  Control.steps (executionStep (config csDisasmIter disasmInst search))
    (workerEntry csDisasmIter search page data) es

/-- Where these steps lead. -/
def workerRun (page : Nat) (data : Scanner) (es : List Execution) : Control Scanner :=
  Control.exec (executionStep (config csDisasmIter disasmInst search))
    (workerEntry csDisasmIter search page data) es

/-- The processor leaves the page alone, and treats equal instructions alike. -/
structure Consistent (sizeErr : InstrT → Bool) (lines : Nat × InstrT → List String) (e : Execution)
    (data : Scanner) : Prop where
  spares : SparesPage e data
  sizeError : Agrees sizeErr e.outcome data
  lines : outcomeLines csDisasmIter e.outcome data = lines (executed data)

/-- The invariant of a run: the page is ready, and the last parcel is completed with 0 at most. -/
structure Scheduled (r : WorkRange) (data : Scanner) : Prop extends Scanning search r data where
  loaded : Loaded data
  lastParcel : data.currentInstructionSize = 4 → low data.currentInstruction = r.final →
    data.currentInstruction = r.final

end

section
variable {csDisasmIter : List Byte → Bool} {search sizeErr : InstrT → Bool}
  {lines : Nat × InstrT → List String} {r : WorkRange} (hr : r.final.toNat < 2 ^ 16)
include hr

theorem Scheduled.step {e : Execution} {s : Scanner} (h : Scheduled search r s)
    (hok : Consistent csDisasmIter sizeErr lines e s) :
    match executionStep (config csDisasmIter disasmInst search) e s with
    | .resume s' => Scheduled search r s' ∧
      afterwards search sizeErr r.final (executed s) =
        executed s' :: afterwards search sizeErr r.final (executed s')
    | .halt t => (t.isStopped = true ∧ endsOfRun t = 1) ∧
      afterwards search sizeErr r.final (executed s) = [] := by
  have hscan : Scanning search r { s with mem := e.mem } :=
    ⟨⟨h.final, h.sizeError, h.running, h.pointer⟩, h.enumerated, h.unreported⟩
  have hafter := afterwards_eq hr h.enumerated h.lastParcel hok.sizeError
  cases hc : executionStep (config csDisasmIter disasmInst search) e s with
  | resume s' =>
    obtain ⟨hs', -, hadv⟩ := hscan.next hr hok.sizeError.shortError hc
    have hadv : advance search r.final (raises e.outcome s) (executed s) = some (executed s') := hadv
    rw [hadv] at hafter
    refine ⟨⟨hs', ?_, ?_⟩, hafter⟩
    · exact workerStep_loaded (vleExhaustive_restores search) rfl
        (h.loaded.toRestored.executed hok.spares) hc
    · exact advance_last h.enumerated hok.sizeError.shortError hr h.lastParcel hadv
  | halt t =>
    obtain ⟨hpost, hadv⟩ := hscan.halt hr hc
    have hadv : advance search r.final (raises e.outcome s) (executed s) = none := hadv
    rw [hadv] at hafter
    exact ⟨hpost, hafter⟩

/-- A worker enters its scan at the first parcel of its worklist. -/
theorem workerEntry_scan (page : Nat) {data : Scanner} (hnew : New .rv64gc data)
    (hstart : data.currentInstruction = r.start) (hfinal : data.finalInstruction = r.final) :
    match workerEntry csDisasmIter search page data with
    | .resume s => Scheduled search r s ∧ s.currentInstructionSize = 2 ∧
      worklist search r.start r.final =
        s.currentInstruction :: pending search s.currentInstruction r.final
    | .halt t => (t.isStopped = true ∧ endsOfRun t = 1) ∧ worklist search r.start r.final = [] := by
  have hinit : endsOfRun (initScanner .rv64gc page data) = 0 := by
    rw [endsOfRun, show (initScanner .rv64gc page data).outputFD = data.outputFD from rfl,
      hnew.output]
    rfl
  have hentry := @entryHandler_scan search r csDisasmIter disasmInst hr
    (initScanner .rv64gc page data) ⟨hfinal, hnew.sizeError, hnew.running, rfl⟩ hnew.size hstart
  have hready : Restored (initScanner .rv64gc page data) :=
    .of_writeStdPage rfl (.inl hnew.size) rfl
  have hloaded : ∀ s, workerEntry csDisasmIter search page data = .resume s → Loaded s := fun _ =>
    entryHandler_loaded (vleExhaustive_restores search) hready
  change ScanEntry search r _ (workerEntry csDisasmIter search page data) at hentry
  cases hc : workerEntry csDisasmIter search page data with
  | resume s =>
    rw [hc] at hentry
    cases hentry with
    | next hx hsize hmin hs hends =>
      have hparcel := hx.parcel
      rw [(hx.low_of_short hsize).1] at hparcel
      have hmem : s.currentInstruction ∈ worklist search r.start r.final :=
        (mem_worklist r.ordered).2 ⟨hparcel, hx.clean⟩
      refine ⟨⟨⟨hs, hx, hends.trans hinit⟩, hloaded s hc, fun h => ?_⟩, hsize, ?_⟩
      · omega
      · cases hw : worklist search r.start r.final with
        | nil =>
          rw [hw] at hmem
          cases hmem
        | cons w ws =>
          have hsorted := @worklist_sorted search r.start r.final r.ordered
          rw [hw] at hmem hsorted
          obtain ⟨hwr, hclean⟩ := (mem_worklist r.ordered).1 (hw ▸ List.mem_cons_self (a := w))
          have hle := hmin w hwr hclean
          rcases List.mem_cons.1 hmem with heq | hlater
          · rw [heq, worklist_tail hw]
          · exact absurd (List.rel_of_pairwise_cons hsorted hlater) (BitVec.not_lt.2 hle)
  | halt t =>
    rw [hc] at hentry
    cases hentry with
    | last hnone hstop hends =>
      refine ⟨⟨hstop, by rw [hends, hinit]⟩, List.filter_eq_nil_iff.2 fun w hw => ?_⟩
      rw [hnone w ((Cyclic.mem_icc_of_le r.ordered).1 hw)]
      exact Bool.false_ne_true

/-- A worker executes its schedule, and writes the lines of what it executes. -/
theorem workerRun_schedule (page : Nat) {data : Scanner} (hnew : New .rv64gc data)
    (hstart : data.currentInstruction = r.start) (hfinal : data.finalInstruction = r.final)
    {es : List Execution}
    (hok : ∀ p ∈ workerSteps csDisasmIter search page data es,
      Consistent csDisasmIter sizeErr lines p.1 p.2) :
    let todo := (worklist search r.start r.final).flatMap
      (parcelSchedule search sizeErr (· == r.final))
    todo.length ≤ es.length →
      (∃ t, workerRun csDisasmIter search page data es = .halt t ∧ t.isStopped = true ∧
        endsOfRun t = 1) ∧
      (workerSteps csDisasmIter search page data es).map (fun p => executed p.2) = todo ∧
      findings (workerRun csDisasmIter search page data es).state = todo.flatMap lines := by
  intro todo hlen
  have hentry := @workerEntry_scan csDisasmIter search r hr page data hnew hstart hfinal
  have hentered : ∀ s, workerEntry csDisasmIter search page data = .resume s →
      Scheduled search r s := fun s hs => by
    rw [hs] at hentry
    exact hentry.1
  have hstep : ∀ e s s', Consistent csDisasmIter sizeErr lines e s → Scheduled search r s →
      executionStep (config csDisasmIter disasmInst search) e s = .resume s' →
      Scheduled search r s' ∧ afterwards search sizeErr r.final (executed s) =
        executed s' :: afterwards search sizeErr r.final (executed s') := fun e s s' he hs hc => by
    have := hs.step hr he
    rwa [hc] at this
  have hhalt : ∀ e s t, Consistent csDisasmIter sizeErr lines e s → Scheduled search r s →
      executionStep (config csDisasmIter disasmInst search) e s = .halt t →
      (t.isStopped = true ∧ endsOfRun t = 1) ∧
        afterwards search sizeErr r.final (executed s) = [] := fun e s t he hs hc => by
    have := hs.step hr he
    rwa [hc] at this
  have hqueue : (∃ t, workerRun csDisasmIter search page data es = .halt t) ∧
      (workerSteps csDisasmIter search page data es).map (fun p => executed p.2) = todo := by
    unfold workerRun workerSteps at *
    cases hc : workerEntry csDisasmIter search page data with
    | halt t =>
      rw [hc] at hentry
      refine ⟨⟨t, Control.exec_halt t es⟩, ?_⟩
      simp only [todo, hentry.2, Control.steps_halt, List.map_nil, List.flatMap_nil]
    | resume s =>
      rw [hc] at hentry hok
      obtain ⟨hs, hsize, hw⟩ := hentry
      have htodo : todo = executed s :: afterwards search sizeErr r.final (executed s) := by
        have hcons := @cons_afterwards search sizeErr r.final s.currentInstruction
          (hs.enumerated.short hsize)
        simp only [todo, hw, executed, hsize, hcons]
      rw [htodo] at hlen ⊢
      exact Control.exec_queue (fun e s s' he hs hc => (hstep e s s' he hs hc).1)
        (fun e s s' he hs hc => (hstep e s s' he hs hc).2)
        (fun e s t he hs hc => (hhalt e s t he hs hc).2) hok hs hlen
  obtain ⟨⟨t, ht⟩, hmap⟩ := hqueue
  refine ⟨⟨t, ht, ?_⟩, hmap, ?_⟩
  · refine Control.exec_post (fun e s s' he hs hc => (hstep e s s' he hs hc).1)
      (fun e s t he hs hc => (hhalt e s t he hs hc).1) hok hentered (fun t ht => ?_) ht
    rw [ht] at hentry
    exact hentry.1
  · have hnone : findings (workerEntry csDisasmIter search page data).state = [] := by
      rw [workerEntry, findings_entryHandler_of_fetch vleExhaustive_outputFD, findings,
        show (initScanner .rv64gc page data).outputFD = data.outputFD from rfl, hnew.output]
      rfl
    have hlog : findings (workerRun csDisasmIter search page data es).state =
        findings (workerEntry csDisasmIter search page data).state ++
          (workerSteps csDisasmIter search page data es).flatMap
            fun p => outcomeLines csDisasmIter p.1.outcome p.2 :=
      Control.exec_log (fun e s s' he hs hc => (hstep e s s' he hs hc).1)
      (fun e s he hs => findings_executionStep csDisasmIter hs.loaded he.spares) hok hentered
    rw [hlog, hnone, List.nil_append, ← hmap, List.flatMap_map]
    exact List.flatMap_congr fun p hp => (hok p hp).lines

end

/-! ## All workers -/

/-- What there is to execute in the range, when the parcels of `finals` end a worker's range. -/
def schedule (search sizeErr : InstrT → Bool) (finals : List InstrT) (first last : InstrT) :
    List (Nat × InstrT) :=
  (worklist search first last).flatMap (parcelSchedule search sizeErr (finals.contains ·))

section
variable {search sizeErr : InstrT → Bool} {workers : List Scanner} {a b : Nat}

/-- Within the range of a worker no other worker's range ends. -/
theorem parcelSchedule_finals (h : Tiles a b (workers.map interval)) {s : Scanner}
    (hs : s ∈ workers) {p : InstrT}
    (hp : p ∈ worklist search s.currentInstruction s.finalInstruction) :
    parcelSchedule search sizeErr (· == s.finalInstruction) p =
      parcelSchedule search sizeErr ((workers.map (·.finalInstruction)).contains ·) p := by
  have hle := h.nonempty _ (List.mem_map_of_mem hs)
  obtain ⟨⟨hlow, hhigh⟩, -⟩ := (mem_worklist hle).1 hp
  have hfinal : p ∈ workers.map (·.finalInstruction) ↔ p = s.finalInstruction := by
    constructor
    · intro hmem
      obtain ⟨s', hs', rfl⟩ := List.mem_map.1 hmem
      have hend := h.end_eq (List.mem_map_of_mem (f := interval) hs)
        (List.mem_map_of_mem (f := interval) hs') ⟨hlow, hhigh⟩
      exact BitVec.eq_of_toNat_eq hend
    · rintro rfl
      exact List.mem_map_of_mem hs
  simp only [parcelSchedule, List.contains_eq_mem, hfinal, beq_eq_decide]

theorem flatMap_schedule (h : Tiles a b (workers.map interval)) (hb : b < 2 ^ 32) :
    workers.flatMap (fun s => (worklist search s.currentInstruction s.finalInstruction).flatMap
        (parcelSchedule search sizeErr (· == s.finalInstruction))) =
      schedule search sizeErr (workers.map (·.finalInstruction)) (BitVec.ofNat 32 a)
        (BitVec.ofNat 32 b) := by
  rw [schedule, ← flatMap_worklist h hb, List.flatMap_assoc]
  exact List.flatMap_congr fun s hs => List.flatMap_congr fun p hp =>
    parcelSchedule_finals h hs hp

end

section
variable (csDisasmIter : List Byte → Bool) (search : InstrT → Bool)

/-- **The whole scan.** The workers finish, and one after the other they have executed the schedule
of the range and written the lines of what is on it. -/
theorem vle_whole_scan (page : Scanner → Nat) {numThreads : BitVec 32} {first last : RegT}
    (hle : first ≤ last) (hlast : last.toNat < 2 ^ 16) (hthreads : 0 < numThreads.toInt)
    (h : first < last ∨ numThreads = 1) :
    ∃ workers, ScannerManagerMC.create .rv64gc numThreads first last = some workers ∧
      ∀ (sizeErr : InstrT → Bool) (lines : Nat × InstrT → List String)
        (es : Scanner → List Execution),
        let todo := schedule search sizeErr (workers.map (·.finalInstruction))
          (first.setWidth 32) (last.setWidth 32)
        (∀ s ∈ workers, todo.length ≤ (es s).length ∧
          ∀ p ∈ workerSteps csDisasmIter search (page s) s (es s),
            Consistent csDisasmIter sizeErr lines p.1 p.2) →
        (∀ s ∈ workers, ∃ t, workerRun csDisasmIter search (page s) s (es s) = .halt t ∧
          t.isStopped = true ∧ endsOfRun t = 1) ∧
        workers.flatMap (fun s => (workerSteps csDisasmIter search (page s) s (es s)).map
          fun p => executed p.2) = todo ∧
        workers.flatMap (fun s => findings
          (workerRun csDisasmIter search (page s) s (es s)).state) = todo.flatMap lines := by
  obtain ⟨workers, hcreate, htiles⟩ :=
    ScannerManager.create_tiles (ScannerManagerMC.keepsRange .rv64gc) hle (by omega) hthreads h
  refine ⟨workers, hcreate, ?_⟩
  intro sizeErr lines es todo hes
  let own (s : Scanner) : List (Nat × InstrT) :=
    (worklist search s.currentInstruction s.finalInstruction).flatMap
      (parcelSchedule search sizeErr (· == s.finalInstruction))
  have htodo : workers.flatMap own = todo := by
    have := @flatMap_schedule search sizeErr workers _ _ htiles (by omega)
    rwa [BitVec.ofNat_toNat, BitVec.ofNat_toNat] at this
  have hworker : ∀ s ∈ workers,
      (∃ t, workerRun csDisasmIter search (page s) s (es s) = .halt t ∧ t.isStopped = true ∧
        endsOfRun t = 1) ∧
      (workerSteps csDisasmIter search (page s) s (es s)).map (fun p => executed p.2) = own s ∧
      findings (workerRun csDisasmIter search (page s) s (es s)).state =
        (own s).flatMap lines := fun s hs => by
    have hordered := htiles.nonempty _ (List.mem_map_of_mem hs)
    have hbound : s.finalInstruction.toNat < 2 ^ 16 := by
      have hcov := (htiles.covers s.finalInstruction.toNat).1
        ⟨interval s, List.mem_map_of_mem hs, hordered, Nat.le_refl _⟩
      omega
    have hlen : (own s).length ≤ todo.length := by
      rw [← htodo, List.flatMap_def]
      exact (List.sublist_flatten_of_mem (List.mem_map_of_mem hs)).length_le
    exact workerRun_schedule (r := ⟨s.currentInstruction, s.finalInstruction, hordered⟩) hbound
      (page s) (create_new hcreate s hs) rfl rfl (hes s hs).2 (Nat.le_trans hlen (hes s hs).1)
  refine ⟨fun s hs => (hworker s hs).1, ?_, ?_⟩
  · rw [← htodo]
    exact List.flatMap_congr fun s hs => (hworker s hs).2.1
  · rw [← htodo, List.flatMap_assoc]
    exact List.flatMap_congr fun s hs => (hworker s hs).2.2

end

/-! ## A processor on which everything traps -/

section
variable (csDisasmIter : List Byte → Bool) (sizeErr : InstrT → Bool)

/-- The lines for `x` on this processor. -/
def trapLines (x : Nat × InstrT) : List String :=
  if x.1 = 2 ∧ sizeErr x.2 = true then [] else verdict (recognised csDisasmIter x) x.2 5 1

theorem consistent_trap (data : Scanner) :
    Consistent csDisasmIter sizeErr (trapLines csDisasmIter sizeErr) (trapExecution sizeErr data)
      data := by
  have hraises := raises_trap sizeErr data
  refine ⟨fun _ _ _ => rfl, hraises, ?_⟩
  rw [outcomeLines, trapExecution, trapLines, executed_fst, executed_snd]
  by_cases h : data.currentInstructionSize = 2 ∧ sizeErr data.currentInstruction = true
  · rw [if_pos (hraises.2 h), if_pos h]
  · rw [if_neg (mt hraises.1 h), if_neg h]
    dsimp only
    rw [trap, if_neg h]
    rfl

end

/-- Two workers; the first ends with a parcel that begins a longer instruction. -/
theorem vle_whole_scan_two :
    let cfg := config (fun _ => true) disasmInst fun _ => false
    let es (s : Scanner) := Control.follow (executionStep cfg) (trapExecution (· == 0x13)) 5
      (workerEntry (fun _ => true) (fun _ => false) 4096 s)
    ∃ workers, ScannerManagerMC.create .rv64gc 2 0x12 0x15 = some workers ∧
      workers.flatMap (fun s => (workerSteps (fun _ => true) (fun _ => false) 4096 s (es s)).map
        fun p => executed p.2) = [(2, 0x12), (2, 0x13), (4, 0x13), (2, 0x14), (2, 0x15)] := by
  intro cfg es
  obtain ⟨workers, hcreate, hscan⟩ := vle_whole_scan (fun _ => true) (fun _ => false)
    (fun _ => 4096) (by decide : (0x12 : RegT) ≤ 0x15) (by decide)
    (by decide : 0 < (2 : BitVec 32).toInt) (.inl (by decide))
  have hfinals : workers.map (·.finalInstruction) = [0x13, 0x15] := by
    have heval : (ScannerManagerMC.create .rv64gc 2 0x12 0x15).map
        (·.map (·.finalInstruction)) = some [0x13, 0x15] := by decide
    rw [hcreate] at heval
    exact Option.some.inj heval
  have htodo : schedule (fun _ => false) (· == 0x13) [0x13, 0x15] 0x12 0x15 =
      [(2, 0x12), (2, 0x13), (4, 0x13), (2, 0x14), (2, 0x15)] := by decide +kernel
  obtain ⟨-, hmap, -⟩ := hscan (· == 0x13) (trapLines (fun _ => true) (· == 0x13)) es fun s _ => by
    refine ⟨?_, fun p hp => ?_⟩
    · rw [Control.length_follow, hfinals]
      exact Nat.le_of_eq (congrArg List.length htodo)
    · rw [Control.steps_follow _ 5 _ p hp]
      exact consistent_trap _ _ p.2
  refine ⟨workers, hcreate, hmap.trans ?_⟩
  rw [hfinals]
  exact htodo

end IScanU.RV64GC
