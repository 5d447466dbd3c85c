import IScanU.Aarch64
import IScanU.Verify.CompleteScan

/-! # What the two scan methods report

A memory cage worker and a ptrace worker execute the same instructions, but only
`ScannerManagerMC::localScannerInit` sets `currentInstructionSize`. The ptrace worker hands its
disassembler an empty buffer, so every instruction counts as invalid there. The findings of the
two methods therefore agree exactly when the range holds no valid instruction. -/

namespace IScanU

/-- The lines of the analysis stage. -/
def findings (data : Scanner) : List String :=
  data.outputFD.filterMap fun
    | .analysis text => some text
    | _ => none

section
variable (arch : ArchProperties) (search : InstrT → Bool) (analyse : AnalysisStage)

theorem findings_faultHandler (sig : Signal) (data : Scanner) :
    findings (faultHandler (.exhaustive arch search analyse) sig data).state =
      findings data ++ analyse.lines (recordSignal data sig) := by
  simp only [faultHandler, Config.exhaustive_fetchInstruction, Config.exhaustive_analyse,
    exhaustive_eq]
  generalize List.head? _ = next
  cases next <;> simp [findings, List.filterMap_append, List.filterMap_map]

theorem findings_ptraceStep (sig : Signal) (data : Scanner) :
    findings (ptraceStep (.exhaustive arch search analyse) sig data).state =
      findings data ++ analyse.lines
        (recordSignal (writeInstructionPtrace (.exhaustive arch search analyse) data) sig) := by
  simp only [ptraceStep, Config.exhaustive_fetchInstruction, Config.exhaustive_analyse,
    exhaustive_eq]
  generalize List.head? _ = next
  cases next <;> simp [findings, List.filterMap_append, List.filterMap_map]

/-- The memory cage keeps the current instruction where the disassembler reads it. -/
structure Caged (data : Scanner) : Prop where
  size : data.currentInstructionSize = 4
  bytes : readBytes data.mem data.instructionPointer 4 = instrBytes data.currentInstruction 4

theorem caged_enterInstruction {data : Scanner} (h : data.currentInstructionSize = 4) :
    Caged (enterInstruction data) := by
  refine ⟨h, ?_⟩
  have hread := readBytes_memcpy data.mem data.instructionPointer
    (instrBytes data.currentInstruction 4)
  simp only [enterInstruction, writeInstruction, h]
  rwa [length_instrBytes] at hread

theorem setCurrent_writeInstruction (data : Scanner) (instr : InstrT) :
    (writeInstruction data data.instructionPointer instr).setCurrent instr =
      enterInstruction (data.setCurrent instr) := rfl

theorem faultHandler_caged {data data' : Scanner} {sig : Signal}
    (hc : faultHandler (.exhaustive arch search analyse) sig data = .resume data')
    (h : data.currentInstructionSize = 4) : Caged data' := by
  simp only [faultHandler, Config.exhaustive_fetchInstruction, Config.exhaustive_analyse,
    exhaustive_eq] at hc
  generalize List.head? _ = next at hc
  cases next with
  | none => cases hc
  | some w =>
    simp only [setCurrent_writeInstruction] at hc
    cases hc
    exact caged_enterInstruction (by simpa using h)

theorem findings_ptraceEntry (data : Scanner) :
    findings (ptraceEntry (.exhaustive arch search analyse) data).state = findings data := by
  simp only [ptraceEntry, Config.exhaustive_fetchInstruction, exhaustive_eq]
  split
  · generalize List.head? _ = next
    cases next <;> simp [findings]
  · simp [findings]

/-- A ptrace worker never gets its `currentInstructionSize` set. -/
theorem ptraceStep_size {data data' : Scanner} {sig : Signal}
    (hc : ptraceStep (.exhaustive arch search analyse) sig data = .resume data') :
    data'.currentInstructionSize = data.currentInstructionSize := by
  simp only [ptraceStep, Config.exhaustive_fetchInstruction, Config.exhaustive_analyse,
    exhaustive_eq] at hc
  generalize List.head? _ = next at hc
  cases next with
  | none => cases hc
  | some w =>
    cases hc
    simp

theorem ptraceEntry_size {data data' : Scanner}
    (hc : ptraceEntry (.exhaustive arch search analyse) data = .resume data') :
    data'.currentInstructionSize = data.currentInstructionSize := by
  simp only [ptraceEntry, Config.exhaustive_fetchInstruction, exhaustive_eq] at hc
  split at hc
  · generalize List.head? _ = next at hc
    cases next with
    | none => cases hc
    | some w =>
      cases hc
      simp
  · cases hc
    simp

theorem findings_entryHandler (data : Scanner) :
    findings (entryHandler (.exhaustive arch search analyse) data).state = findings data := by
  rw [← findings_ptraceEntry arch search analyse data, entryHandler_eq]
  cases ptraceEntry (.exhaustive arch search analyse) data <;> rfl

theorem entryHandler_caged {data data' : Scanner}
    (hc : entryHandler (.exhaustive arch search analyse) data = .resume data')
    (h : data.currentInstructionSize = 4) : Caged data' := by
  rw [entryHandler_eq] at hc
  cases hentry : ptraceEntry (.exhaustive arch search analyse) data with
  | halt d =>
    rw [hentry] at hc
    cases hc
  | resume d =>
    rw [hentry] at hc
    cases hc
    exact caged_enterInstruction ((ptraceEntry_size arch search analyse hentry).trans h)

end

/-! ## The two runs -/

section
variable (csDisasmIter : List Byte → Bool) (search : InstrT → Bool)

/-- If every handler adds `f` of its instruction to the findings, the run adds it for the whole
worklist. -/
theorem run_findings {search : InstrT → Bool} {next : Scanner → Control Scanner} {J : Scanner → Prop}
    {f : InstrT → List String}
    (hstep : ∀ data, HandlerStep search false data (next data))
    (hadd : ∀ data, J data →
      findings (next data).state = findings data ++ f data.currentInstruction)
    (hJ : ∀ data data', J data → next data = .resume data' → J data')
    {data : Scanner} {c : Control Scanner} (hentry : EntryStep search data c)
    (hfind : findings c.state = findings data) (hc : ∀ d, c = .resume d → J d) :
    let todo := worklist search data.currentInstruction data.finalInstruction
    ∃ data', .run next todo.length c = Control.halt data' ∧
      findings data' = findings data ++ todo.flatMap f := by
  cases hentry with
  | last hw =>
    rw [hw]
    exact ⟨_, rfl, by simpa using hfind⟩
  | @next d ws hw he _ _ =>
    obtain ⟨data', hrun, -, hlog⟩ :=
      Control.run_queue (J := J) (Q := fun _ => True)
        (q := fun d => pending search d.currentInstruction d.finalInstruction)
        (i := Scanner.currentInstruction) (o := findings) (f := fun l w => l ++ f w)
        (fun d hd hq => by
          obtain ⟨d', hc, -⟩ := (hstep d).of_nil hq
          exact ⟨d', hc, trivial, by simpa [hc] using hadd d hd⟩)
        (fun d w ws hd hq => by
          obtain ⟨d', hc, hw, hws, -⟩ := (hstep d).of_cons hq
          exact ⟨d', hc, hJ d d' hd hc, hw, hws, by simpa [hc] using hadd d hd⟩) (hc d rfl)
    rw [he.final, worklist_tail hw, List.foldl_append_eq_append] at hlog
    rw [he.final, worklist_tail hw] at hrun
    rw [hw]
    exact ⟨data', hrun, hfind ▸ hlog⟩

/-- A memory cage worker reports a verdict on the bytes of each instruction. -/
theorem findings_workerLoop (oracle : InstrT → Signal) (page : Nat) (start final : InstrT) :
    let cfg := Aarch64.config csDisasmIter search
    let todo := worklist search start final
    ∃ data, workerLoop cfg (fun w => .fault (oracle w)) todo.length
        (workerMC .aarch64 page start final) = .halt data ∧
      findings data = todo.flatMap fun w =>
        verdict (csDisasmIter (instrBytes w 4)) w (oracle w).signo (oracle w).info.siCode := by
  refine run_findings (J := Caged) (fun data => faultHandler_step ..) (fun data hd => ?_)
    (fun data data' hd hc => faultHandler_caged _ _ _ hc hd.size)
    (entryHandler_step _ search _ (workerMC .aarch64 page start final))
    (findings_entryHandler ..) (fun d hc => entryHandler_caged _ _ _ hc rfl)
  refine (findings_faultHandler ..).trans ?_
  simp [Aarch64.disassemble, hd.size, hd.bytes]

/-- A ptrace worker reports every instruction that is not an illegal opcode. -/
theorem findings_ptraceLoop (hshort : ∀ buf, buf.length < 4 → csDisasmIter buf = false)
    (oracle : InstrT → Signal) (page : Nat) (start final : InstrT) :
    let cfg := Aarch64.config csDisasmIter search
    let todo := worklist search start final
    ∃ data, ptraceLoop cfg oracle todo.length (workerPtrace page start final) = .halt data ∧
      findings data = todo.flatMap fun w =>
        verdict false w (oracle w).signo (oracle w).info.siCode := by
  refine run_findings (J := fun data => data.currentInstructionSize = 0)
    (fun data => ptraceStep_step ..) (fun data hd => ?_)
    (fun data data' hd hc => (ptraceStep_size _ _ _ hc).trans hd)
    (ptraceEntry_step _ search _ (workerPtrace page start final)) (findings_ptraceEntry ..)
    (fun d hc => (ptraceEntry_size _ _ _ hc).trans rfl)
  refine (findings_ptraceStep ..).trans ?_
  have hempty := hshort [] (by decide)
  simp [Aarch64.disassemble, hd, readBytes, hempty]

end

/-! ## Comparing the verdicts -/

theorem findingLine_D_ne_H (w w' : InstrT) (signo siCode signo' siCode' : Int) :
    findingLine "D" w signo siCode ≠ findingLine "H" w' signo' siCode' := by
  intro h
  have hchars := congrArg String.toList h
  simp [findingLine] at hchars

/-- Lists of pieces of equal total length have pieces of equal length, if no piece of the first is
longer than its counterpart. -/
theorem length_eq_of_flatMap {f g : α → List β} {l : List α}
    (hle : ∀ a ∈ l, (f a).length ≤ (g a).length)
    (h : (l.flatMap f).length = (l.flatMap g).length) :
    ∀ a ∈ l, (f a).length = (g a).length := by
  have hsum : ∀ l : List α, (∀ a ∈ l, (f a).length ≤ (g a).length) →
      (l.flatMap f).length ≤ (l.flatMap g).length := by
    intro l hle
    induction l with
    | nil => simp
    | cons a l ih =>
      have h1 := hle a List.mem_cons_self
      have h2 := ih fun b hb => hle b (List.mem_cons_of_mem _ hb)
      simp only [List.flatMap_cons, List.length_append]
      omega
  induction l with
  | nil => simp
  | cons a l ih =>
    have h1 := hle a List.mem_cons_self
    have hle' : ∀ b ∈ l, (f b).length ≤ (g b).length := fun b hb => hle b (List.mem_cons_of_mem _ hb)
    have h2 := hsum l hle'
    simp only [List.flatMap_cons, List.length_append] at h
    refine List.forall_mem_cons.mpr ⟨by omega, ih hle' (by omega)⟩

/-- Judging every instruction invalid reports the same lines only if none of them is valid: the
valid ones lose their `D` lines or gain `H` lines. -/
theorem flatMap_verdict_eq_iff (valid : InstrT → Bool) (oracle : InstrT → Signal)
    (todo : List InstrT) :
    todo.flatMap (fun w => verdict (valid w) w (oracle w).signo (oracle w).info.siCode) =
        todo.flatMap (fun w => verdict false w (oracle w).signo (oracle w).info.siCode) ↔
      ∀ w ∈ todo, valid w = false := by
  constructor
  · intro h w hw
    by_contra hvalid
    rw [Bool.not_eq_false] at hvalid
    have hill : ∀ v ∈ todo, valid v = true →
        ¬((oracle v).signo = SIGILL ∧ (oracle v).info.siCode = ILL_ILLOPC) := by
      intro v hv hvalid hill
      have hD : findingLine "D" v (oracle v).signo (oracle v).info.siCode ∈
          todo.flatMap fun w => verdict false w (oracle w).signo (oracle w).info.siCode :=
        h ▸ List.mem_flatMap.mpr ⟨v, hv, by simp [verdict, hvalid, hill]⟩
      obtain ⟨u, -, hu⟩ := List.mem_flatMap.mp hD
      simp only [verdict, Bool.false_eq_true, and_false, if_false] at hu
      split at hu
      · exact findingLine_D_ne_H _ _ _ _ _ _ (List.mem_singleton.mp hu)
      · exact absurd hu List.not_mem_nil
    have hlen := length_eq_of_flatMap (fun v hv => ?_) (congrArg List.length h) w hw
    · simp [verdict, hvalid, hill w hw hvalid] at hlen
    · cases hv' : valid v with
      | false => exact le_rfl
      | true => simp [verdict, hill v hv hv']
  · intro h
    simp only [List.flatMap_def]
    rw [List.map_congr_left fun w hw => by rw [h w hw]]

/-- The two methods report the same findings exactly on the ranges without a valid instruction
that is not blacklisted. -/
theorem methods_agree_iff (csDisasmIter : List Byte → Bool)
    (hshort : ∀ buf, buf.length < 4 → csDisasmIter buf = false) (search : InstrT → Bool)
    (oracle : InstrT → Signal) (page page' : Nat) (start final : InstrT) :
    let cfg := Aarch64.config csDisasmIter search
    ∃ n data data', workerLoop cfg (fun w => .fault (oracle w)) n
        (workerMC .aarch64 page start final) = .halt data ∧
      ptraceLoop cfg oracle n (workerPtrace page' start final) = .halt data' ∧
      (findings data = findings data' ↔
        ∀ w ∈ Cyclic.icc start final, search w = false → csDisasmIter (instrBytes w 4) = false) := by
  obtain ⟨data, hrun, hfind⟩ := findings_workerLoop csDisasmIter search oracle page start final
  obtain ⟨data', hrun', hfind'⟩ :=
    findings_ptraceLoop csDisasmIter search hshort oracle page' start final
  refine ⟨_, data, data', hrun, hrun', ?_⟩
  rw [hfind, hfind', flatMap_verdict_eq_iff fun w => csDisasmIter (instrBytes w 4)]
  simp [worklist]

/-! A range of one `nop`, under a disassembler that knows this one instruction, with the SIGSEGV
that running on into the guard page raises. -/

def nop : InstrT := 0xD503201F

def decodesNop (buf : List Byte) : Bool := buf == instrBytes nop 4

def guardPageFault : Signal := ⟨SIGSEGV, ⟨2, 0⟩, ⟨0⟩⟩

theorem not_decodesNop_of_short : ∀ buf, buf.length < 4 → decodesNop buf = false := by
  intro buf h
  simp only [decodesNop, beq_eq_false_iff_ne]
  rintro rfl
  simp at h

theorem worklist_nop : worklist (fun _ => false) nop nop = [nop] := by
  simp [worklist_eq, pending]

/-- The memory cage reports nothing for `nop`, ptrace reports it as hidden. -/
theorem methods_disagree_nop :
    let cfg := Aarch64.config decodesNop fun _ => false
    ∃ data data', workerLoop cfg (fun _ => .fault guardPageFault) 1
        (workerMC .aarch64 4096 nop nop) = .halt data ∧
      ptraceLoop cfg (fun _ => guardPageFault) 1 (workerPtrace 4096 nop nop) = .halt data' ∧
      findings data = [] ∧ findings data' = ["H 3573751839 11 2\n"] := by
  obtain ⟨data, hrun, hfind⟩ := findings_workerLoop decodesNop (fun _ => false)
    (fun _ => guardPageFault) 4096 nop nop
  obtain ⟨data', hrun', hfind'⟩ := findings_ptraceLoop decodesNop (fun _ => false)
    not_decodesNop_of_short (fun _ => guardPageFault) 4096 nop nop
  rw [worklist_nop] at hrun hfind hrun' hfind'
  exact ⟨data, data', hrun, hrun', hfind.trans (by decide), hfind'.trans (by decide)⟩

/-- The range of the `nop`, and one without it, in which the methods agree. -/
theorem methods_agree_iff_nop :
    let cfg := Aarch64.config decodesNop fun _ => false
    (∃ n data data', workerLoop cfg (fun _ => .fault guardPageFault) n
        (workerMC .aarch64 4096 nop nop) = .halt data ∧
      ptraceLoop cfg (fun _ => guardPageFault) n (workerPtrace 4096 nop nop) = .halt data' ∧
      (findings data = findings data' ↔
        ∀ w ∈ Cyclic.icc nop nop, false = false → decodesNop (instrBytes w 4) = false)) ∧
    ∃ n data data', workerLoop cfg (fun _ => .fault guardPageFault) n
        (workerMC .aarch64 4096 0 9) = .halt data ∧
      ptraceLoop cfg (fun _ => guardPageFault) n (workerPtrace 4096 0 9) = .halt data' ∧
      findings data = findings data' := by
  refine ⟨methods_agree_iff decodesNop not_decodesNop_of_short (fun _ => false)
    (fun _ => guardPageFault) 4096 4096 nop nop, ?_⟩
  obtain ⟨n, data, data', hrun, hrun', hiff⟩ := methods_agree_iff decodesNop
    not_decodesNop_of_short (fun _ => false) (fun _ => guardPageFault) 4096 4096 0 9
  refine ⟨n, data, data', hrun, hrun', hiff.2 fun w hw _ => ?_⟩
  have hle := ((Cyclic.mem_icc_of_le (by decide : (0 : InstrT) ≤ 9)).1 hw).2
  rw [decodesNop, beq_eq_false_iff_ne]
  intro hbytes
  -- The first byte of `nop` is 31.
  have hbyte := congrArg (fun l => l.head?.map BitVec.toNat) hbytes
  change some ((w >>> 0).setWidth 8).toNat = some 31 at hbyte
  rw [Option.some.injEq, BitVec.ushiftRight_zero, BitVec.toNat_setWidth] at hbyte
  have hbound : w.toNat ≤ 9 := hle
  omega

end IScanU
