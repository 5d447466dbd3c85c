import IScanU.PostFilter
import IScanU.Verify.Blacklist
import IScanU.Verify.Formatter

/-! # What the filters print

The loop reads one line ahead and ends when that `getline` has met the end of the file, also when it
has delivered a word. So the last word of a file is looked at only if there is a newline behind it
(`readFile_eq`). -/

namespace IScanU

open Text (InputStream getline unlines Numeral)

/-- A file of words, a decimal numeral on each line. -/
structure WordFile where
  lines : List Numeral
  two_le : 2 ≤ lines.length
  lt : ∀ n ∈ lines, n.value < 2 ^ 32
  /-- Is there a newline after the last line? -/
  newline : Bool

namespace WordFile

variable (file : WordFile)

def text : String := String.ofList (unlines file.newline (file.lines.map (·.digits)))

def words : List InstrT := file.lines.map fun n => BitVec.ofNat 32 n.value

theorem words_ne_nil : file.words ≠ [] := by
  have := file.two_le
  rw [words, Ne, List.map_eq_nil_iff, ← List.length_eq_zero_iff]
  omega

def last : InstrT := file.words.getLast file.words_ne_nil

end WordFile

def printAll : List InstrT → String
  | [] => ""
  | w :: ws => printWord w ++ printAll ws

theorem printAll_append : printAll (l ++ l') = printAll l ++ printAll l' := by
  induction l with
  | nil => rw [List.nil_append, printAll, String.empty_append]
  | cons w l ih => rw [List.cons_append, printAll, ih, printAll, String.append_assoc]

theorem printAll_snoc_ne : printAll (l ++ [w]) ≠ printAll l := by
  intro h
  have := congrArg String.length h
  rw [printAll_append, String.length_append, printAll, printAll, printWord] at this
  simp at this

/-- The program prints exactly the words of the file that are not known, in their order. -/
def PrintsUnknown (main : String → Option String) (known : InstrT → Bool) (file : WordFile) :
    Prop :=
  main file.text = some (printAll (file.words.filter fun w => !known w))

/-! ## The loop -/

theorem readInt_numeral (n : Numeral) (h : n.value < 2 ^ 32) :
    readInt n.digits = some (BitVec.ofNat 32 n.value) := by
  rw [readInt, Text.stoul_numeral n (by omega), Option.map_some]
  congr 1
  apply BitVec.eq_of_toNat_eq
  rw [BitVec.toNat_setWidth, BitVec.toNat_ofNat, BitVec.toNat_ofNat, Nat.mod_mod_of_dvd]
  decide

/-- The part of a list of lines that the loop looks at. -/
def processed (newline : Bool) (l : List α) : List α := if newline then l else l.dropLast

theorem processed_cons (h : l ≠ [] ∨ newline = true) :
    processed newline (a :: l) = a :: processed newline l := by
  cases newline with
  | true => rfl
  | false => exact List.dropLast_cons_of_ne_nil (h.resolve_right Bool.false_ne_true)

section
variable {test : InstrT → Option Bool} {known : InstrT → Bool}

theorem readLoop_of_eof (htest : ∀ w, test w = some (known w))
    (h : (getline insns line).2.eof = true) :
    readLoop test w line insns = some (printAll ([w].filter fun w => !known w)) := by
  rw [readLoop, htest, Option.bind_eq_bind, Option.bind_some, dif_pos h]
  cases hk : known w <;> simp [hk, printAll]

theorem readLoop_of_good (htest : ∀ w, test w = some (known w))
    (h : getline insns line = (line', insns')) (hgood : insns'.eof = false)
    (hread : readInt line' = some w')
    (hrest : readLoop test w' line' insns' = some (printAll (ws.filter fun w => !known w))) :
    readLoop test w line insns = some (printAll ((w :: ws).filter fun w => !known w)) := by
  rw [readLoop, htest, Option.bind_eq_bind, Option.bind_some, h, dif_neg (by simp [hgood]), hread,
    Option.bind_eq_bind, Option.bind_some, hrest, Option.bind_eq_bind, Option.bind_some]
  cases hk : known w with
  | true =>
    rw [List.filter_cons_of_neg (by simp [hk])]
    simp
  | false =>
    rw [List.filter_cons_of_pos (by simp [hk])]
    simp [printAll]

/-- From a line on, where `insns` holds those behind it. -/
theorem readLoop_eq (htest : ∀ w, test w = some (known w)) {lines : List Numeral}
    (hlt : ∀ n ∈ lines, n.value < 2 ^ 32) (newline : Bool) (w : InstrT) (line : List Char) :
    readLoop test w line ⟨unlines newline (lines.map (·.digits)), false⟩ =
      some (printAll ((w :: processed newline
        (lines.map fun n => BitVec.ofNat 32 n.value)).filter fun w => !known w)) := by
  induction lines generalizing w line with
  | nil =>
    rw [readLoop_of_eof htest rfl]
    cases newline <;> rfl
  | cons n lines ih =>
    have hnl : '\n' ∉ n.digits := n.not_mem rfl
    by_cases h : lines ≠ [] ∨ newline = true
    · have h' : lines.map (·.digits) ≠ [] ∨ newline = true := by simpa using h
      have hget := Text.getline_unlines line hnl h'
      have hread := readInt_numeral n (hlt n List.mem_cons_self)
      rw [List.map_cons, List.map_cons, processed_cons (by simpa using h)]
      exact readLoop_of_good htest hget rfl hread
        (ih (fun n hn => hlt n (List.mem_cons_of_mem _ hn)) _ _)
    · -- The last line, which is read together with the end of the file.
      simp only [not_or, not_not, Bool.not_eq_true] at h
      obtain ⟨rfl, rfl⟩ := h
      rw [readLoop_of_eof htest]
      · rfl
      · rw [List.map_cons, List.map_nil, Text.getline_unlines_last hnl]

/-- A whole run. Every word is decided but the last one, which needs a newline behind it. -/
theorem readFile_eq (htest : ∀ w, test w = some (known w)) (file : WordFile) :
    readFile test file.text =
      some (printAll ((processed file.newline file.words).filter fun w => !known w)) := by
  obtain ⟨lines, htwo, hlt, newline⟩ := file
  match lines with
  | n :: n' :: lines =>
    have hget := Text.getline_unlines [] (n.not_mem rfl)
      (.inl (by simp) : (n' :: lines).map (·.digits) ≠ [] ∨ newline = true)
    rw [readFile, WordFile.text, String.toList_ofList, List.map_cons, hget]
    simp only [readInt_numeral n (hlt n List.mem_cons_self), Option.bind_eq_bind, Option.bind_some]
    rw [readLoop_eq htest (fun n hn => hlt n (List.mem_cons_of_mem _ hn)), ← processed_cons]
    · rfl
    · exact .inl (by simp)

/-- The last word of the file is the only one that can be lost. -/
theorem printsUnknown_iff (htest : ∀ w, test w = some (known w)) (file : WordFile) :
    PrintsUnknown (readFile test) known file ↔ file.newline = true ∨ known file.last = true := by
  rw [PrintsUnknown, readFile_eq htest, Option.some.injEq]
  cases hn : file.newline with
  | true => simp [processed]
  | false =>
    have hwords : file.words = file.words.dropLast ++ [file.last] :=
      (List.dropLast_append_getLast file.words_ne_nil).symm
    rw [hwords, processed, if_neg Bool.false_ne_true, List.dropLast_concat, List.filter_append]
    cases hk : known file.last with
    | true => simp [hk]
    | false => simpa [hk] using printAll_snoc_ne.symm

end

/-! ## The formatters -/

/-- Some formatter accepts the word. -/
def matchesSome (formatters : List Formatter) (insn : InstrT) : Bool :=
  formatters.any fun f => f.satisfiesFormat insn == some true

theorem foldlM_satisfiesFormat (h : ∀ f ∈ formatters, Formatter.Ready f) (acc : Bool) :
    formatters.foldlM (fun acc f => return (← f.satisfiesFormat insn) || acc) acc =
      some (matchesSome formatters insn || acc) := by
  induction formatters generalizing acc with
  | nil => rfl
  | cons f formatters ih =>
    obtain ⟨b, hb⟩ := Option.isSome_iff_exists.1 (h f List.mem_cons_self insn)
    rw [List.foldlM_cons, hb]
    refine (ih (fun f hf => h f (List.mem_cons_of_mem _ hf)) (b || acc)).trans ?_
    rw [matchesSome, matchesSome, List.any_cons, hb, ← Bool.or_assoc, Bool.or_comm _ b]
    cases b <;> rfl

theorem isUnpredictable_eq (h : ∀ f ∈ formatters, Formatter.Ready f) (insn : InstrT) :
    isUnpredictable formatters insn = some (matchesSome formatters insn) := by
  rw [isUnpredictable, foldlM_satisfiesFormat h, Bool.or_false]

namespace ConstrainedFilter

theorem sameFields_over (ha : a ∈ names) (hb : b ∈ names) : (sameFields a b).Over names :=
  .fields (· == ·) ha hb

theorem baseNotSp_over (hn : "n" ∈ names) : baseNotSp.Over names := .field (· != 31) hn

theorem singleBase_over (ht : "t" ∈ names) (hn : "n" ∈ names) : singleBase.Over names :=
  (sameFields_over ht hn).and (baseNotSp_over hn)

theorem pairBase_over (ht : "t" ∈ names) (ht2 : "t2" ∈ names) (hn : "n" ∈ names) :
    pairBase.Over names :=
  ((sameFields_over ht hn).or (sameFields_over ht2 hn)).and (baseNotSp_over hn)

theorem pairSameWriteback_over (ht : "t" ∈ names) (ht2 : "t2" ∈ names) (hindex : "index" ∈ names)
    (hopc : "opc" ∈ names) : pairSameWriteback.Over names := by
  intro get h
  obtain ⟨index, hi⟩ := Option.isSome_iff_exists.1 (h "index" hindex)
  obtain ⟨opc, ho⟩ := Option.isSome_iff_exists.1 (h "opc" hopc)
  have hcond : Rule.Over (fun _ => pure ((index == 1 || index == 2 || index == 3) &&
      (opc == 0 || opc == 1 || opc == 2))) names := fun _ _ => rfl
  rw [pairSameWriteback, hi, ho]
  exact hcond.and (sameFields_over ht ht2) get h

theorem formats_over : ∀ format ∈ formats, ∀ rule ∈ format.rules,
    rule.Over (format.fields.map Formatter.fieldName) := by
  intro format hformat
  simp only [formats, List.mem_cons, List.not_mem_nil, or_false] at hformat
  -- One case for each list of rules.
  rcases hformat with rfl | rfl | rfl | rfl | rfl | rfl | rfl | rfl | rfl | rfl | rfl | rfl | rfl
  all_goals
    simp only [List.mem_cons, List.not_mem_nil, or_false, forall_eq_or_imp, forall_eq]
    first
    | exact singleBase_over (by decide) (by decide)
    | exact pairBase_over (by decide) (by decide) (by decide)
    | exact sameFields_over (by decide) (by decide)
    | exact pairSameWriteback_over (by decide) (by decide) (by decide) (by decide)
    | exact ⟨pairBase_over (by decide) (by decide) (by decide),
        sameFields_over (by decide) (by decide)⟩

theorem exists_formatters :
    ∃ formatters, initFormatters = some formatters ∧ ∀ f ∈ formatters, Formatter.Ready f :=
  Formatter.mapM_create (by decide) formats_over

end ConstrainedFilter

namespace DisasMistakes

theorem formats_over : ∀ format ∈ formats, ∀ rule ∈ format.rules,
    rule.Over (format.fields.map Formatter.fieldName) := by
  intro format hformat
  simp only [formats, List.mem_cons, List.not_mem_nil, or_false] at hformat
  rcases hformat with rfl | rfl | rfl
  all_goals
    simp only [List.mem_cons, List.not_mem_nil, or_false, forall_eq]
    exact .field (· != 0b10000) (by decide)

theorem exists_formatters :
    ∃ formatters, initFormatters = some formatters ∧ ∀ f ∈ formatters, Formatter.Ready f :=
  Formatter.mapM_create (by decide) formats_over

end DisasMistakes

namespace Filter

/-- Some entry stands for the word. -/
def isEntry (insn : InstrT) : Bool := entries.any fun m => insn ∈ m.pattern

theorem search_blacklist (insn : InstrT) : blacklist.search insn = isEntry insn := by
  rw [Bool.eq_iff_iff, blacklist, LowMemoryBlacklist.ofList_spec entries insn, isEntry,
    List.any_eq_true]
  simp

end Filter

/-- A program prints exactly the words it does not know unless the last line of the file has no
newline behind it and holds such a word. -/
theorem printsUnknown_main_iff (file : WordFile) :
    (∃ formatters, ConstrainedFilter.initFormatters = some formatters ∧
      (PrintsUnknown ConstrainedFilter.main (matchesSome formatters) file ↔
        file.newline = true ∨ matchesSome formatters file.last = true)) ∧
    (∃ formatters, DisasMistakes.initFormatters = some formatters ∧
      (PrintsUnknown DisasMistakes.main (matchesSome formatters) file ↔
        file.newline = true ∨ matchesSome formatters file.last = true)) ∧
    (PrintsUnknown Filter.main Filter.isEntry file ↔
      file.newline = true ∨ Filter.isEntry file.last = true) := by
  obtain ⟨fs, hfs, hready⟩ := ConstrainedFilter.exists_formatters
  obtain ⟨fs', hfs', hready'⟩ := DisasMistakes.exists_formatters
  refine ⟨⟨fs, hfs, ?_⟩, ⟨fs', hfs', ?_⟩, ?_⟩
  · rw [← printsUnknown_iff (isUnpredictable_eq hready) file, PrintsUnknown, PrintsUnknown,
      ConstrainedFilter.main, hfs]
    rfl
  · rw [← printsUnknown_iff (isUnpredictable_eq hready') file, PrintsUnknown, PrintsUnknown,
      DisasMistakes.main, hfs']
    rfl
  · exact printsUnknown_iff (fun w => congrArg some (Filter.search_blacklist w)) file

/-- Two unknown words without a newline at the end. -/
theorem last_word_lost :
    ∃ file : WordFile, file.text = "0\n1" ∧
      (∃ formatters, ConstrainedFilter.initFormatters = some formatters ∧
        ConstrainedFilter.main file.text = some "0\n" ∧
        ¬ PrintsUnknown ConstrainedFilter.main (matchesSome formatters) file) ∧
      (∃ formatters, DisasMistakes.initFormatters = some formatters ∧
        DisasMistakes.main file.text = some "0\n" ∧
        ¬ PrintsUnknown DisasMistakes.main (matchesSome formatters) file) ∧
      Filter.main file.text = some "0\n" ∧ ¬ PrintsUnknown Filter.main Filter.isEntry file := by
  have hmain : ∀ {main known} {file : WordFile}, main file.text = some "0\n" →
      printAll (file.words.filter fun w => !known w) = "0\n1\n" →
      ¬ PrintsUnknown main known file := by
    intro main known file h hall
    rw [PrintsUnknown, h, hall]
    decide
  have hc : ConstrainedFilter.main "0\n1" = some "0\n" := by decide +kernel
  have hd : DisasMistakes.main "0\n1" = some "0\n" := by decide +kernel
  have hf : Filter.main "0\n1" = some "0\n" := by decide +kernel
  refine ⟨⟨[.ofNat 0, .ofNat 1], by decide, by simp, false⟩, by decide,
    ⟨_, (Option.some_get (by decide)).symm, hc, hmain hc ?_⟩,
    ⟨_, (Option.some_get (by decide)).symm, hd, hmain hd ?_⟩, hf, hmain hf ?_⟩
  all_goals decide +kernel

end IScanU
