import IScanU.Verify.RVDisas.Operands
import IScanU.Verify.VleFindings

/-! # Direct jumps stay in the cage

`maxArchOffset` is the reach of a pc relative jump, and the guards around the instruction page are
that large. So wherever a direct jump or branch leads, it is in the mapping: in a guard, where
nothing can be executed, in the instruction itself, at its beginning or after two of its four bytes,
or at an even place of the page before it, where there is a breakpoint (`direct_jumps_caged`). -/

namespace IScanU.RV64GC

open RVDisas (ImmMissing decodeInst decodeInst_eq decodeInst_inRange decoded decoded_op
  decompressInst_of_decompresses opcode)

/-! ## The filler -/

theorem readBytes_add (mem : Memory) (a : Nat) {k m n : Nat} (h : k + m ≤ n) :
    readBytes mem (a + k) m = ((readBytes mem a n).drop k).take m := by
  refine List.ext_getElem ?_ fun i h₁ _ => ?_
  · simp only [length_readBytes, List.length_take, List.length_drop]
    omega
  · simp [readBytes, Nat.add_assoc]

theorem drop_flatten_replicate (l : List α) (c j : Nat) :
    (List.replicate c l).flatten.drop (j * l.length) = (List.replicate (c - j) l).flatten := by
  induction j generalizing c with
  | zero => simp
  | succ j ih =>
    cases c with
    | zero => simp
    | succ c =>
      rw [List.replicate_succ, List.flatten_cons, Nat.succ_mul, Nat.add_comm, ← List.drop_drop,
        List.drop_left, ih, Nat.add_sub_add_right]

/-- Every even place of the page begins a filler instruction. -/
theorem stdPage_even {j : Nat} (hj : 2 * j < ArchProperties.rv64gc.pageSize) :
    ((stdPage .rv64gc).drop (2 * j)).take 2 =
      instrBytes ArchProperties.rv64gc.fillerInstruction 2 := by
  have hdrop := drop_flatten_replicate (instrBytes ArchProperties.rv64gc.fillerInstruction 2) 2048 j
  rw [length_instrBytes, Nat.mul_comm] at hdrop
  have hpage : stdPage .rv64gc =
      (List.replicate 2048 (instrBytes ArchProperties.rv64gc.fillerInstruction 2)).flatten := rfl
  obtain ⟨c, hc⟩ : ∃ c, 2048 - j = c + 1 := ⟨2047 - j, by
    rw [ArchProperties.rv64gc_pageSize] at hj
    omega⟩
  rw [hpage, hdrop, hc, List.replicate_succ, List.flatten_cons]
  exact List.take_left' (length_instrBytes _ _)

/-- A breakpoint of two bytes. -/
def BreakAt (mem : Memory) (a : Nat) : Prop :=
  ∃ w : InstrT, readBytes mem a 2 = instrBytes w 2 ∧ RVDisas.instLength (w.setWidth 64) = 2 ∧
    ∀ pc, (decodeInst .rv64 pc (w.setWidth 64)).op = .ebreak

theorem decodeInst_filler (pc : BitVec 64) :
    (decodeInst .rv64 pc (ArchProperties.rv64gc.fillerInstruction.setWidth 64)).op = .ebreak := by
  have hop : opcode .rv64 (ArchProperties.rv64gc.fillerInstruction.setWidth 64) = .cEbreak := by
    decide
  have hdecoded := (decoded_op .rv64 pc _).trans hop
  have himm : ¬ImmMissing (decoded .rv64 pc (ArchProperties.rv64gc.fillerInstruction.setWidth 64)) := by
    rw [ImmMissing, hdecoded]
    exact fun h => absurd h.1 (by decide)
  rw [decodeInst_eq, decompressInst_of_decompresses (hdecoded ▸ by decide), if_neg himm, hdecoded]
  rfl

theorem Restored.breakAt {data : Scanner} (h : Restored data) {a : Nat}
    (hle : data.instructionPage ≤ a) (hlt : a < data.instructionPointer)
    (heven : 2 ∣ a - data.instructionPage) : BreakAt data.mem a := by
  obtain ⟨j, hj⟩ := heven
  have hsize := h.size
  have hpointer := h.pointer
  have hfiller := h.filler
  rw [ArchProperties.rv64gc_pageSize] at hpointer hfiller
  refine ⟨_, ?_, rfl, decodeInst_filler⟩
  have hbound : 2 * j + 2 ≤ 4096 - data.currentInstructionSize := by omega
  rw [show a = data.instructionPage + 2 * j by omega, readBytes_add _ _ hbound, hfiller,
    List.drop_take, List.take_take, Nat.min_eq_left (by omega)]
  exact stdPage_even (by rw [ArchProperties.rv64gc_pageSize]; omega)

/-! ## Direct jumps -/

/-- Where the current instruction leads, if it is a direct jump or a branch. -/
def jumpTarget (data : Scanner) : Option Int :=
  let dec := decodeInst .rv64 (BitVec.ofNat 64 data.instructionPointer)
    (data.currentInstruction.setWidth 64)
  if dec.op ≠ .illegal ∧ (dec.codec = .uj ∨ dec.codec = .sb) then
    some (data.instructionPointer + dec.imm.toInt)
  else none

theorem toInt_even {x : BitVec 32} (h : x.getLsbD 0 = false) : 2 ∣ x.toInt := by
  rw [← BitVec.testBit_toNat, Nat.testBit_zero, decide_eq_false_iff_not] at h
  rw [BitVec.toInt_eq_toNat_cond]
  split <;> omega

/-- The offset of a direct jump is even and within the reach of the architecture. -/
theorem offset_of_jumpTarget {data : Scanner} {t : Int} (h : jumpTarget data = some t) :
    ∃ offset : Int, t = data.instructionPointer + offset ∧ 2 ∣ offset ∧
      -Arch.rv64gc.maxArchOffset ≤ offset ∧ offset + 2 ≤ Arch.rv64gc.maxArchOffset := by
  simp only [jumpTarget, Option.ite_none_right_eq_some, Option.some.injEq] at h
  obtain ⟨⟨hop, hcodec⟩, rfl⟩ := h
  have himm := (decodeInst_inRange hop).2
  have hreach : (Arch.rv64gc.maxArchOffset : Int) = 2 ^ 20 := rfl
  generalize decodeInst .rv64 (BitVec.ofNat 64 data.instructionPointer)
    (data.currentInstruction.setWidth 64) = dec at hcodec himm
  refine ⟨_, rfl, ?_⟩
  rw [hreach]
  rcases hcodec with hcodec | hcodec
  all_goals
    rw [hcodec] at himm
    have hlow := le_toInt_of_signedFits (by decide) himm.1
    have hhigh := toInt_lt_of_signedFits (by decide) himm.1
    have heven := toInt_even himm.2
    refine ⟨heven, ?_, ?_⟩ <;> omega

/-- What there is at an address that the current instruction jumps to: a guard, the instruction
itself, the second half of one that is 4 bytes long, or a breakpoint. -/
def Contained (mapped : Nat) (data : Scanner) (t : Int) : Prop :=
  (mapped ≤ t ∧ t + 4 ≤ mapped + cageSize .rv64gc) ∧
    (t < data.instructionPage ∨ data.instructionPage + ArchProperties.rv64gc.pageSize ≤ t ∨
      t = data.instructionPointer ∨
      (data.currentInstructionSize = 4 ∧ t = data.instructionPointer + 2) ∨
      ∃ a : Nat, t = a ∧ BreakAt data.mem a)

theorem Restored.contained {data : Scanner} (h : Restored data) {mapped : Nat}
    (hpage : data.instructionPage = cagePage .rv64gc mapped) {t : Int}
    (ht : jumpTarget data = some t) : Contained mapped data t := by
  obtain ⟨offset, rfl, heven, hlow, hhigh⟩ := offset_of_jumpTarget ht
  have hsize := h.size
  have hpointer := h.pointer
  have hcage : cageSize .rv64gc = 2 * Arch.rv64gc.maxArchOffset + 4096 := rfl
  rw [ArchProperties.rv64gc_pageSize] at hpointer
  unfold cagePage at hpage
  refine ⟨⟨by omega, by omega⟩, ?_⟩
  by_cases hbelow : data.instructionPage ≤ (data.instructionPointer : Int) + offset ∧
      (data.instructionPointer : Int) + offset < data.instructionPointer
  · obtain ⟨a, ha⟩ := Int.eq_ofNat_of_zero_le (by omega : 0 ≤ data.instructionPointer + offset)
    exact .inr (.inr (.inr (.inr ⟨a, ha, h.breakAt (by omega) (by omega) (by omega)⟩)))
  · rw [ArchProperties.rv64gc_pageSize]
    omega

/-! ## Runs -/

section
variable {cfg : Config} (hfetch : ∀ d, (cfg.fetchInstruction d).2.instructionPage = d.instructionPage)
  {data data' : Scanner}
include hfetch

theorem entryHandler_page (hret : entryHandler cfg data = .resume data') :
    data'.instructionPage = data.instructionPage := by
  have hkeep := hfetch (writeOutput data [.timestamp, .startOfRun])
  simp only [entryHandler] at hret
  split at hret
  · rcases hf : cfg.fetchInstruction (writeOutput data [.timestamp, .startOfRun]) with ⟨_ | w, d⟩
    · simp only [hf, reduceCtorEq] at hret
    · simp only [hf, Control.resume.injEq] at hret hkeep
      exact hret ▸ hkeep
  · rw [Control.resume.injEq] at hret
    exact hret ▸ rfl

theorem workerStep_page (harch : cfg.arch = .rv64gc) {o : Outcome}
    (hret : workerStep cfg o data = .resume data') :
    data'.instructionPage = data.instructionPage := by
  cases o with
  | fault sig =>
    have hkeep := hfetch (cfg.analyse.call (recordSignal data sig))
    simp only [workerStep, faultHandler, restorePage_rv64gc harch] at hret
    rcases hf : cfg.fetchInstruction (cfg.analyse.call (recordSignal data sig)) with ⟨_ | w, d⟩
    · simp only [hf, reduceCtorEq] at hret
    · simp only [hf, Control.resume.injEq] at hret hkeep
      exact hret ▸ hkeep
  | hang sig =>
    simp only [workerStep, hangHandler] at hret
    generalize hcalled : cfg.analyse.call
      (recordSignal (writeHang data) { sig with signo := SIGSEGV }) = called at hret
    have hkeep := hfetch (writeStdPage cfg.arch called called.instructionPage)
    rcases hf : cfg.fetchInstruction (writeStdPage cfg.arch called called.instructionPage) with
      ⟨_ | w, d⟩
    · simp only [hf, reduceCtorEq] at hret
    · simp only [hf, Control.resume.injEq] at hret hkeep
      rw [← hcalled] at hkeep
      exact hret ▸ hkeep

end

theorem untouched_instructionPage : Untouched Scanner.instructionPage :=
  ⟨fun _ _ => rfl, fun _ _ => rfl, fun _ _ => rfl, fun _ _ => rfl⟩

/-- **Direct jumps stay in the cage.** Whatever instructions do outside their page, and however they
come out, the direct jumps and branches that are executed lead into the mapping. What is there to be
executed is the instruction, what begins with the second half of its four bytes, or a breakpoint. -/
theorem direct_jumps_caged (search : InstrT → Bool) (analyse : AnalysisStage) {fetch : FetchStage}
    (hfetch : fetch = vleExhaustive search ∨ fetch = exhaustive search) (mapped : Nat)
    (r : WorkRange) (es : List Execution) :
    let cfg : Config := ⟨.rv64gc, search, analyse, fetch⟩
    let steps := Control.steps (executionStep cfg)
      (entryHandler cfg (workerMC .rv64gc (cagePage .rv64gc mapped) r.start r.final)) es
    (∀ p ∈ steps, SparesPage p.1 p.2) →
      ∀ p ∈ steps, ∀ t, jumpTarget p.2 = some t → Contained mapped p.2 t := by
  intro cfg steps hspares p hp t ht
  have hrestores : FetchRestores cfg.fetchInstruction := by
    obtain rfl | rfl := hfetch
    · exact vleExhaustive_restores search
    · exact exhaustive_restores search
  have hkeeps : ∀ d, (cfg.fetchInstruction d).2.instructionPage = d.instructionPage := by
    obtain rfl | rfl := hfetch
    · exact untouched_instructionPage.vleExhaustive
    · intro d
      change (exhaustive search d).2.instructionPage = d.instructionPage
      rw [exhaustive_eq]
      rfl
  have hinv : ∀ p ∈ steps, Loaded p.2 ∧ p.2.instructionPage = cagePage .rv64gc mapped :=
    Control.steps_invariant
      (I := fun s => Loaded s ∧ s.instructionPage = cagePage .rv64gc mapped)
      (fun e s s' hok h hret =>
        ⟨workerStep_loaded hrestores rfl (h.1.toRestored.executed hok) hret,
          (workerStep_page hkeeps rfl hret).trans h.2⟩)
      hspares fun s hs =>
        ⟨entryHandler_loaded hrestores (workerMC_restored _ r.start r.final) hs,
          (entryHandler_page hkeeps hs).trans rfl⟩
  obtain ⟨hloaded, hpage⟩ := hinv p hp
  exact hloaded.contained hpage ht

/-- What is executed, where it is and where it leads. -/
def jump (data : Scanner) : (Nat × InstrT) × Nat × Option Int :=
  (executed data, data.instructionPointer, jumpTarget data)

theorem of_mem_jump {steps : List (Execution × Scanner)}
    (h : (x, a, some t) ∈ steps.map fun p => jump p.2) :
    ∃ p ∈ steps, executed p.2 = x ∧ p.2.instructionPointer = a ∧ jumpTarget p.2 = some t := by
  obtain ⟨p, hp, hjump⟩ := List.mem_map.1 h
  obtain ⟨hexec, hjump⟩ := Prod.mk.inj hjump
  exact ⟨p, hp, hexec, Prod.mk.inj hjump⟩

/-- `c.j -4` leads to the breakpoint before the last one. The parcel `0x6f` raises a size error, and
the `jal x0, 0` that it begins leads to itself. -/
theorem direct_jumps_caged_j :
    let step := executionStep (config (fun _ => true) disasmInst blacklist.search)
    let page := cagePage .rv64gc 0x10000
    let entry := singleEntry (fun _ => true) page
    let j := singleExecutions (fun _ => true) (fun _ => false) page 1 0xbff5
    let jal := singleExecutions (fun _ => true) (fun _ => true) page 2 0x6f
    (∃ p ∈ Control.steps step (entry 0xbff5) j, executed p.2 = (2, 0xbff5) ∧
      p.2.instructionPointer = 0x110ffe ∧ jumpTarget p.2 = some 0x110ffa ∧
      Contained 0x10000 p.2 0x110ffa) ∧
    ∃ p ∈ Control.steps step (entry 0x6f) jal, executed p.2 = (4, 0x6f) ∧
      p.2.instructionPointer = 0x110ffc ∧ jumpTarget p.2 = some 0x110ffc ∧
      Contained 0x10000 p.2 0x110ffc := by
  intro step page entry j jal
  have hj := direct_jumps_caged blacklist.search
    (basicAnalysisAndSizeCheckRiscv (fun _ => true) disasmInst) (.inl rfl) 0x10000
    (oneParcel 0xbff5) j (singleExecutions_spare _ _ _ _ _)
  have hjal := direct_jumps_caged blacklist.search
    (basicAnalysisAndSizeCheckRiscv (fun _ => true) disasmInst) (.inl rfl) 0x10000
    (oneParcel 0x6f) jal (singleExecutions_spare _ _ _ _ _)
  have hsteps : Control.steps step (entry 0xbff5) j = _ :=
    steps_singleExecutions (fun _ => true) (fun _ => false) page (by decide)
  have hjump : (Control.steps step (entry 0xbff5) j).map (fun p => jump p.2) =
      [((2, 0xbff5), 0x110ffe, some 0x110ffa)] := by
    rw [hsteps]
    decide +kernel
  have hjumps : (Control.steps step (entry 0x6f) jal).map (fun p => jump p.2) =
      [((2, 0x6f), 0x110ffe, some 0x110ffe), ((4, 0x6f), 0x110ffc, some 0x110ffc)] := by
    decide +kernel
  constructor
  · obtain ⟨p, hp, hexec, hpointer, htarget⟩ := of_mem_jump
      (hjump ▸ List.mem_singleton_self _)
    exact ⟨p, hp, hexec, hpointer, htarget, hj p hp _ htarget⟩
  · obtain ⟨p, hp, hexec, hpointer, htarget⟩ := of_mem_jump
      (hjumps ▸ List.mem_cons_of_mem _ List.mem_cons_self)
    exact ⟨p, hp, hexec, hpointer, htarget, hjal p hp _ htarget⟩

end IScanU.RV64GC
