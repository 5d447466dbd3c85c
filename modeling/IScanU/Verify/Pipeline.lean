import IScanU.Pipeline
import IScanU.Verify.PostFilter
import IScanU.Verify.WholeScan

/-! # From the scan to the hidden instructions

What `analysis.sh` makes of the findings depends on the range of the scan, on what its instructions
do and on the disassembler, up to the order of the lines: neither the number of threads nor the
order of their files matters (`analysis_scan`). -/

namespace IScanU

open RV64GC (recordedSignal)
open Text (Numeral unlines isBlank secondField)

/-! ## The words of a file -/

theorem toList_printAll (ws : List InstrT) :
    (printAll ws).toList = unlines true (ws.map fun w => (Numeral.ofNat w.toNat).digits) := by
  induction ws with
  | nil => rfl
  | cons w ws ih =>
    rw [printAll, String.toList_append, ih, List.map_cons, Text.unlines_true_cons, printWord,
      String.toList_append, Numeral.toList_toString, List.append_assoc]
    rfl

/-- A file that one filter prints is read by the next one. -/
theorem readFile_printAll {test : InstrT → Option Bool} {known : InstrT → Bool}
    (htest : ∀ w, test w = some (known w)) (ws : List InstrT) :
    readFile test (printAll ws) =
      if ws = [] then none else some (printAll (ws.filter fun w => !known w)) := by
  rw [readFile, toList_printAll]
  cases ws with
  | nil => rfl
  | cons w ws =>
    have hlt : ∀ w : InstrT, (Numeral.ofNat w.toNat).value < 2 ^ 32 := fun w => by
      rw [Numeral.value_ofNat]
      exact w.isLt
    have hword : ∀ w : InstrT, BitVec.ofNat 32 (Numeral.ofNat w.toNat).value = w := fun w => by
      rw [Numeral.value_ofNat, BitVec.ofNat_toNat, BitVec.setWidth_eq]
    have hget := Text.getline_unlines [] ((Numeral.ofNat w.toNat).not_mem rfl)
      (.inr rfl : ws.map (fun w => (Numeral.ofNat w.toNat).digits) ≠ [] ∨ true = true)
    have hlts : ∀ n ∈ ws.map (fun w => Numeral.ofNat w.toNat), n.value < 2 ^ 32 :=
      List.forall_mem_map.2 fun w _ => hlt w
    have hloop := readLoop_eq htest hlts true w (Numeral.ofNat w.toNat).digits
    rw [List.map_map, List.map_map] at hloop
    simp only [Function.comp_def, hword, List.map_id'] at hloop
    rw [List.map_cons, hget, if_neg (List.cons_ne_nil _ _)]
    simp only [readInt_numeral _ (hlt w), hword, Option.bind_eq_bind, Option.bind_some]
    exact hloop

theorem redirect_readFile (h : readFile test file = some out) :
    redirect (readFile test) file = some out := by
  cases hread : readInt (Text.getline ⟨file.toList, false⟩ []).1 with
  | none =>
    have hnone : readFile test file = none := by
      change (readInt (Text.getline ⟨file.toList, false⟩ []).1).bind _ = none
      rw [hread, Option.bind_none]
    cases hnone.symm.trans h
  | some insn => rw [redirect, hread, Option.isNone_some, if_neg Bool.false_ne_true, h]

/-- The script goes on with an empty file where a filter has nothing to read. -/
theorem redirect_printAll {test : InstrT → Option Bool} {known : InstrT → Bool}
    (htest : ∀ w, test w = some (known w)) (ws : List InstrT) :
    redirect (readFile test) (printAll ws) = some (printAll (ws.filter fun w => !known w)) := by
  cases ws with
  | nil => rfl
  | cons w ws =>
    apply redirect_readFile
    rw [readFile_printAll htest, if_neg (List.cons_ne_nil w ws)]

/-! ## The lines of a file -/

theorem Contents.append (h : Contents ls file) (h' : Contents ls' file') :
    Contents (ls ++ ls') (file ++ file') := by
  induction h with
  | nil => rwa [List.nil_append, String.empty_append]
  | cons now _ ih =>
    rw [List.cons_append, String.append_assoc]
    exact .cons now ih

/-- What `cat` prints. -/
theorem Contents.join {order : List Scanner} {files : List String}
    (h : List.Forall₂ (fun d file => Contents d.outputFD file) order files) :
    Contents (order.flatMap (·.outputFD)) (String.join files) := by
  induction h with
  | nil => exact .nil
  | cons hd _ ih =>
    rw [List.flatMap_cons, String.join_cons]
    exact hd.append ih

/-- The two kinds of findings. -/
def IsKind (c : Char) : Prop := c = 'D' ∨ c = 'H'

theorem isDigit_of_mem_toString {n : Nat} (h : c ∈ (toString n).toList) : c.isDigit = true := by
  rw [Numeral.toList_toString] at h
  exact (Numeral.ofNat n).isDigit c h

theorem of_mem_toString_int {z : Int} (h : c ∈ (toString z).toList) :
    c.isDigit = true ∨ c = '-' := by
  cases z with
  | ofNat n => exact .inl (isDigit_of_mem_toString h)
  | negSucc n =>
    rw [Int.toString_eq_repr, Int.repr, String.toList_append, List.mem_append] at h
    obtain h | h := h
    · exact .inr (by simpa using h)
    · exact .inl (isDigit_of_mem_toString (n := n.succ) h)

theorem not_mem_toString_int (z : Int) (h : c.isDigit = false) (hc : c ≠ '-') :
    c ∉ (toString z).toList := fun hmem => by
  obtain hd | hd := of_mem_toString_int hmem
  · rw [h] at hd
    cases hd
  · exact hc hd

/-- The text ends with its only newline. -/
def OneLine (text : String) : Prop := ∃ l, '\n' ∉ l ∧ text.toList = l ++ ['\n']

/-- The text of a line without its newline. -/
def chomp (text : String) : List Char := text.toList.dropLast

def OutputLine.finding? : OutputLine → Option String
  | .analysis text => some text
  | _ => none

/-- The characters of a time stamp, without its newline. -/
def stampChars (now : Int) : List Char := "time: ".toList ++ (toString now).toList

theorem toList_timestamp (now : Int) :
    (OutputLine.timestamp.text now).toList = stampChars now ++ ['\n'] := by
  rw [OutputLine.text, String.toList_append, String.toList_append]
  rfl

theorem not_mem_stampChars {now : Int} (h : c.isDigit = false) (hc : c ≠ '-')
    (htime : c ∉ "time: ".toList) : c ∉ stampChars now := by
  change c ∉ "time: ".toList ++ (toString now).toList
  rw [List.mem_append, not_or]
  exact ⟨htime, not_mem_toString_int now h hc⟩

/-- The lines around a run are of no kind. -/
theorem OutputLine.toList_text (hc : IsKind c) (now : Int) {line : OutputLine}
    (h : line.finding? = none) :
    ∃ l, '\n' ∉ l ∧ c ∉ l ∧ (line.text now).toList = l ++ ['\n'] := by
  cases line with
  | analysis text => cases h
  | startOfRun =>
    refine ⟨"======= start of run =======".toList, by decide, ?_, by rw [OutputLine.text]; decide⟩
    obtain rfl | rfl := hc <;> decide
  | endOfRun =>
    refine ⟨"======= end of run =======".toList, by decide, ?_, by rw [OutputLine.text]; decide⟩
    obtain rfl | rfl := hc <;> decide
  | timestamp =>
    refine ⟨stampChars now, not_mem_stampChars rfl (by decide) (by decide), ?_, toList_timestamp now⟩
    obtain rfl | rfl := hc <;> exact not_mem_stampChars rfl (by decide) (by decide)

/-- What `grep` finds are findings. -/
theorem Contents.filter_lines (hc : IsKind c) (h : Contents ls file)
    (hls : ∀ text ∈ ls.filterMap (·.finding?), OneLine text) :
    (Text.lines file.toList).filter (c ∈ ·) =
      ((ls.filterMap (·.finding?)).map chomp).filter (c ∈ ·) := by
  induction h with
  | nil => rfl
  | @cons ls file line now _ ih =>
    rw [String.toList_append]
    cases hf : line.finding? with
    | none =>
      obtain ⟨l, hnl, hcl, htext⟩ := OutputLine.toList_text hc now hf
      rw [List.filterMap_cons_none hf] at hls ⊢
      rw [htext, List.append_assoc, List.singleton_append, Text.lines_append hnl,
        List.filter_cons_of_neg (by simpa using hcl), ih hls]
    | some text =>
      have hline : line.text now = text := by
        cases line <;> cases hf
        rfl
      rw [List.filterMap_cons_some hf] at hls ⊢
      obtain ⟨l, hnl, htext⟩ := hls text List.mem_cons_self
      have hchomp : chomp text = l := by rw [chomp, htext, List.dropLast_concat]
      rw [hline, htext, List.append_assoc, List.singleton_append, Text.lines_append hnl,
        List.map_cons, hchomp, List.filter_cons, List.filter_cons,
        ih fun text ht => hls text (List.mem_cons_of_mem _ ht)]

/-! ## Findings -/

/-- The line of a finding, without its newline. -/
def findingChars (kind : Char) (w : InstrT) (signo siCode : Int) : List Char :=
  [kind] ++ ' ' :: ((toString w.toNat).toList ++
    ' ' :: ((toString signo).toList ++ ' ' :: (toString siCode).toList))

theorem toList_findingLine :
    (findingLine (String.singleton k) w signo siCode).toList =
      findingChars k w signo siCode ++ ['\n'] := by
  simp [findingLine, findingChars]

theorem mem_findingChars (hc : c.isDigit = false) (hminus : c ≠ '-') (hblank : c ≠ ' ') :
    c ∈ findingChars k w signo siCode ↔ c = k := by
  have hw : c ∉ (toString w.toNat).toList := fun h => by
    rw [isDigit_of_mem_toString h] at hc
    cases hc
  simp only [findingChars, List.cons_append, List.nil_append, List.mem_append, List.mem_cons,
    hblank, hw, not_mem_toString_int _ hc hminus, or_false]

theorem chomp_findingLine :
    chomp (findingLine (String.singleton k) w signo siCode) = findingChars k w signo siCode := by
  rw [chomp, toList_findingLine, List.dropLast_concat]

theorem oneLine_findingLine (hk : IsKind k) :
    OneLine (findingLine (String.singleton k) w signo siCode) := by
  refine ⟨_, ?_, toList_findingLine⟩
  rw [mem_findingChars rfl (by decide) (by decide)]
  obtain rfl | rfl := hk <;> decide

theorem isBlank_of_isDigit (h : c.isDigit = true) : isBlank c = false := by
  by_contra hb
  rw [Bool.not_eq_false, isBlank, Bool.or_eq_true, beq_iff_eq, beq_iff_eq] at hb
  obtain rfl | rfl := hb <;> cases h

theorem secondField_findingChars (hk : IsKind k) :
    secondField (findingChars k w signo siCode) = (Numeral.ofNat w.toNat).digits := by
  rw [findingChars, Numeral.toList_toString]
  refine Text.secondField_eq (List.cons_ne_nil _ _) ?_ (Numeral.ne_nil _) ?_ (by simp [isBlank])
  · rw [List.forall_mem_singleton]
    obtain rfl | rfl := hk <;> rfl
  · exact fun c hc => isBlank_of_isDigit ((Numeral.ofNat w.toNat).isDigit c hc)

section
variable (csDisasmIter : List Byte → Bool) (oracle : InstrT → Outcome)

/-- The processor does not recognise the instruction. -/
def refused (w : InstrT) : Bool :=
  decide ((recordedSignal (oracle w)).signo = SIGILL ∧
    (recordedSignal (oracle w)).info.siCode = ILL_ILLOPC)

/-- Executed although the disassembler does not know it (`H`). -/
def hidden (w : InstrT) : Bool := !refused oracle w && !csDisasmIter (instrBytes w 4)

/-- Refused although the disassembler knows it (`D`). -/
def disasOnly (w : InstrT) : Bool := refused oracle w && csDisasmIter (instrBytes w 4)

/-- The findings of a kind. -/
def ofKind (c : Char) (w : InstrT) : Bool :=
  if c = 'H' then hidden csDisasmIter oracle w else disasOnly csDisasmIter oracle w

theorem reported_eq (w : InstrT) :
    reported csDisasmIter oracle w =
      (['D', 'H'].filter fun k => ofKind csDisasmIter oracle k w).map fun k =>
        findingLine (String.singleton k) w (recordedSignal (oracle w)).signo
          (recordedSignal (oracle w)).info.siCode := by
  by_cases hr : (recordedSignal (oracle w)).signo = SIGILL ∧
      (recordedSignal (oracle w)).info.siCode = ILL_ILLOPC
  all_goals
    rw [reported, verdict]
    cases hv : csDisasmIter (instrBytes w 4) <;>
      simp [ofKind, hidden, disasOnly, refused, hr, hv]

theorem oneLine_of_mem_reported (h : text ∈ reported csDisasmIter oracle w) : OneLine text := by
  rw [reported_eq, List.mem_map] at h
  obtain ⟨k, hk, rfl⟩ := h
  exact oneLine_findingLine (by simpa [IsKind] using List.mem_of_mem_filter hk)

/-- The word of a finding is its second field. -/
theorem secondField_reported (hc : IsKind c) (w : InstrT) :
    (((reported csDisasmIter oracle w).map chomp).filter (c ∈ ·)).map secondField =
      if ofKind csDisasmIter oracle c w then [(Numeral.ofNat w.toNat).digits] else [] := by
  have hdigit : c.isDigit = false ∧ c ≠ '-' ∧ c ≠ ' ' := by
    obtain rfl | rfl := hc <;> decide
  have hkinds : (['D', 'H'].filter fun k => ofKind csDisasmIter oracle k w).filter (c = ·) =
      if ofKind csDisasmIter oracle c w then [c] else [] := by
    cases hd : ofKind csDisasmIter oracle 'D' w <;> cases hh : ofKind csDisasmIter oracle 'H' w <;>
      obtain rfl | rfl := hc <;> simp [hd, hh]
  rw [reported_eq, List.map_map, List.filter_map]
  simp only [Function.comp_def, chomp_findingLine,
    mem_findingChars hdigit.1 hdigit.2.1 hdigit.2.2, hkinds]
  cases ofKind csDisasmIter oracle c w with
  | true => simp [secondField_findingChars hc]
  | false => rfl

theorem secondField_flatMap_reported (hc : IsKind c) (ws : List InstrT) :
    (((ws.flatMap (reported csDisasmIter oracle)).map chomp).filter (c ∈ ·)).map secondField =
      (ws.filter (ofKind csDisasmIter oracle c)).map fun w => (Numeral.ofNat w.toNat).digits := by
  induction ws with
  | nil => rfl
  | cons w ws ih =>
    rw [List.flatMap_cons, List.map_append, List.filter_append, List.map_append, ih,
      secondField_reported csDisasmIter oracle hc, List.filter_cons]
    split <;> rfl

/-- The words of a kind are found in the file. -/
theorem secondFields_contents {ws : List InstrT} (hc : IsKind c) (h : Contents ls file)
    (hls : ls.filterMap (·.finding?) = ws.flatMap (reported csDisasmIter oracle)) :
    String.ofList (unlines true (secondFields (String.singleton c) file)) =
      printAll (ws.filter (ofKind csDisasmIter oracle c)) := by
  have hlines : ∀ text ∈ ls.filterMap (·.finding?), OneLine text := fun text ht => by
    rw [hls, List.mem_flatMap] at ht
    obtain ⟨w, -, hw⟩ := ht
    exact oneLine_of_mem_reported csDisasmIter oracle hw
  have hinfix : (Text.lines file.toList).filter ((String.singleton c).toList <:+: ·) =
      (Text.lines file.toList).filter (c ∈ ·) := by
    simp only [String.toList_singleton, List.singleton_infix_iff]
  rw [secondFields, hinfix, h.filter_lines hc hlines, hls,
    secondField_flatMap_reported csDisasmIter oracle hc, ← toList_printAll, String.ofList_toList]

theorem analysis_eq (results : String) :
    analysis results =
      (redirect ConstrainedFilter.main
        (String.ofList (unlines true (secondFields "H" results)))).bind
          (redirect DisasMistakes.main) := rfl

theorem ConstrainedFilter.main_eq (h : initFormatters = some formatters) :
    main = readFile (isUnpredictable formatters) := by
  funext file
  rw [main, h, Option.bind_eq_bind, Option.bind_some]

theorem DisasMistakes.main_eq (h : initFormatters = some formatters) :
    main = readFile (isUnpredictable formatters) := by
  funext file
  rw [main, h, Option.bind_eq_bind, Option.bind_some]

/-- The script, when the files together report on the words `ws`. -/
theorem analysis_contents {constrained mistakes : List Formatter} {ws : List InstrT}
    (hc : ConstrainedFilter.initFormatters = some constrained)
    (hcready : ∀ f ∈ constrained, Formatter.Ready f)
    (hm : DisasMistakes.initFormatters = some mistakes)
    (hmready : ∀ f ∈ mistakes, Formatter.Ready f) (h : Contents ls file)
    (hls : ls.filterMap (·.finding?) = ws.flatMap (reported csDisasmIter oracle)) :
    let found := ws.filter fun w => hidden csDisasmIter oracle w && !matchesSome constrained w
    analysis file = some (printAll (found.filter fun w => !matchesSome mistakes w)) ∧
      disas file = printAll (ws.filter (disasOnly csDisasmIter oracle)) := by
  intro found
  have hhidden := secondFields_contents csDisasmIter oracle (.inr rfl) h hls
  have hdisas := secondFields_contents csDisasmIter oracle (.inl rfl) h hls
  rw [show String.singleton 'H' = "H" from rfl] at hhidden
  rw [show String.singleton 'D' = "D" from rfl] at hdisas
  have hfound : (ws.filter (ofKind csDisasmIter oracle 'H')).filter
        (fun w => !matchesSome constrained w) = found := by
    rw [List.filter_filter]
    exact List.filter_congr fun w _ => Bool.and_comm ..
  have hconstrained := redirect_printAll (isUnpredictable_eq hcready)
    (ws.filter (ofKind csDisasmIter oracle 'H'))
  have hmistakes := redirect_printAll (isUnpredictable_eq hmready) found
  rw [hfound] at hconstrained
  refine ⟨?_, hdisas⟩
  rw [analysis_eq, hhidden, ConstrainedFilter.main_eq hc, DisasMistakes.main_eq hm, hconstrained,
    Option.bind_some, hmistakes]

/-- **From the scan to the hidden instructions.** In whatever order the files of the workers are
named, the script leaves the words of the range that are hidden and match no format of the two
filters, each once, also when there are none. Until its end it has those that only the disassembler
knows in `disas`. -/
theorem analysis_scan (search : InstrT → Bool) (page : Scanner → Nat) {numThreads : BitVec 32}
    {first last : RegT} (hle : first ≤ last) (hlast : last.toNat < 2 ^ 32)
    (hthreads : 0 < numThreads.toInt) (h : first < last ∨ numThreads = 1) :
    ∃ constrained mistakes workers done,
      ConstrainedFilter.initFormatters = some constrained ∧
      DisasMistakes.initFormatters = some mistakes ∧
      ScannerManagerMC.create .aarch64 numThreads first last = some workers ∧
      List.Forall₂ (fun s d => RunsTo csDisasmIter search oracle (page s) s d) workers done ∧
      ∀ order files, order.Perm done →
        List.Forall₂ (fun d file => Contents d.outputFD file) order files →
        ∃ ws : List InstrT, ws.Perm (worklist search (first.setWidth 32) (last.setWidth 32)) ∧
          let found := ws.filter fun w =>
            hidden csDisasmIter oracle w && !matchesSome constrained w
          analysis (String.join files) =
              some (printAll (found.filter fun w => !matchesSome mistakes w)) ∧
            disas (String.join files) = printAll (ws.filter (disasOnly csDisasmIter oracle)) := by
  obtain ⟨constrained, hc, hcready⟩ := ConstrainedFilter.exists_formatters
  obtain ⟨mistakes, hm, hmready⟩ := DisasMistakes.exists_formatters
  obtain ⟨workers, done, hcreate, htodo, hrun, hwritten⟩ :=
    workers_report csDisasmIter search oracle page hle hlast hthreads h
  refine ⟨constrained, mistakes, workers, done, hc, hm, hcreate, hrun, ?_⟩
  intro order files hperm hfiles
  -- The workers in the order of their files.
  obtain ⟨workers', hwritten', hperm'⟩ := List.perm_comp_forall₂ hperm hwritten.flip
  obtain ⟨-, -, hfindings⟩ := flatMap_written hwritten'.flip
  refine ⟨_, htodo ▸ hperm'.flatMap_right _,
    analysis_contents csDisasmIter oracle hc hcready hm hmready (.join hfiles) ?_⟩
  rw [List.filterMap_flatMap, ← hfindings]
  rfl

end

/-- Three workers, when the processor executes everything and the disassembler knows one word. -/
theorem analysis_scan_three :
    ∃ constrained mistakes workers done,
      ConstrainedFilter.initFormatters = some constrained ∧
      DisasMistakes.initFormatters = some mistakes ∧
      ScannerManagerMC.create .aarch64 3 0 9 = some workers ∧
      List.Forall₂ (fun s d => RunsTo decodesNop (fun _ => false)
        (fun _ => .fault guardPageFault) 4096 s d) workers done ∧
      ∀ order files, order.Perm done →
        List.Forall₂ (fun d file => Contents d.outputFD file) order files →
        ∃ ws : List InstrT, ws.Perm (worklist (fun _ => false) 0 9) ∧
          let found := ws.filter fun w =>
            hidden decodesNop (fun _ => .fault guardPageFault) w && !matchesSome constrained w
          analysis (String.join files) =
              some (printAll (found.filter fun w => !matchesSome mistakes w)) ∧
            disas (String.join files) =
              printAll (ws.filter (disasOnly decodesNop fun _ => .fault guardPageFault)) :=
  analysis_scan decodesNop (fun _ => .fault guardPageFault) (fun _ => false) (fun _ => 4096)
    (by decide) (by decide) (by decide) (.inl (by decide))

end IScanU
