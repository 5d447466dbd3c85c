import IScanU.PostFilter
import IScanU.Verify.FirstPass
import IScanU.Verify.Pipeline
import IScanU.Verify.RangeCompress
import Mathlib.Algebra.Order.BigOperators.Group.List
import Mathlib.Data.Set.Card

/-! # The two compression passes as programs

The passes work on files: a word on each line, a base and a mask on each line, and a line of 32
characters for each record. Each file is read back as what was written to it, so the printed lines
can be compared with the words of the first file. -/

namespace IScanU

open FirstPass (readIntegers)
open RangeCompress (MaskedInstruction readLine readRecord readRecords maskedBinary weight NoLinks)
open Text (Numeral getline)
open Progression (Piece cut)

/-! ## Reading back -/

/-- The value of a word. -/
def value (w : InstrT) : Int := w.toNat

theorem readIntegers_printAll (ws : List InstrT) :
    readIntegers (printAll ws) = some (ws.map value) := by
  have hnl : ∀ l ∈ ws.map fun w => (Numeral.ofNat w.toNat).digits, '\n' ∉ l := fun l hl => by
    obtain ⟨w, -, rfl⟩ := List.mem_map.1 hl
    exact (Numeral.ofNat w.toNat).not_mem rfl
  have hint : Text.pyInt ∘ (fun w : InstrT => (Numeral.ofNat w.toNat).digits) =
      fun w => pure (value w) := by
    funext w
    exact (Text.pyInt_numeral _).trans (by rw [Numeral.value_ofNat]; rfl)
  rw [readIntegers, toList_printAll, Text.lines_unlines hnl, List.mapM_map, hint, List.mapM_pure]
  rfl

theorem setWidth_ofInt (z : Int) : (BitVec.ofInt 64 z).setWidth 32 = BitVec.ofInt 32 z := by
  apply BitVec.eq_of_toNat_eq
  rw [BitVec.toNat_setWidth, BitVec.toNat_ofInt, BitVec.toNat_ofInt]
  omega

/-- The numbers of a line fit in 64 bits. -/
structure Short (l : FirstPass.Line) : Prop where
  base : l.base.natAbs < 2 ^ 64
  mask : l.mask < 2 ^ 64

/-- The characters of a line, without its newline. -/
def lineChars (l : FirstPass.Line) : List Char :=
  (toString l.base).toList ++ ' ' :: (toString l.mask).toList

theorem toList_text (l : FirstPass.Line) : l.text.toList = lineChars l ++ ['\n'] := by
  simp [FirstPass.Line.text, lineChars]

theorem newline_not_mem_lineChars (l : FirstPass.Line) : '\n' ∉ lineChars l := by
  have hbase := not_mem_toString_int l.base (c := '\n') rfl (by decide)
  have hmask : '\n' ∉ (toString l.mask).toList := fun h =>
    absurd (isDigit_of_mem_toString h) (by decide)
  rw [lineChars, List.mem_append, List.mem_cons, not_or, not_or]
  exact ⟨hbase, by decide, hmask⟩

/-- A line of the first pass is read as it was written. -/
theorem readRecord_lineChars {l : FirstPass.Line} (h : Short l) :
    readRecord (lineChars l) = some (readLine l) := by
  have hblank := not_mem_toString_int l.base (c := ' ') rfl (by decide)
  have hsplit : (lineChars l).idxOf ' ' = (toString l.base).toList.length := by
    rw [lineChars, List.idxOf_append_of_notMem hblank, List.idxOf_cons_self, Nat.add_zero]
  have hfirst : (lineChars l).take ((lineChars l).idxOf ' ') = (toString l.base).toList := by
    rw [hsplit, lineChars, List.take_left]
  have hsecond : (lineChars l).drop ((lineChars l).idxOf ' ' + 1) = (toString l.mask).toList := by
    rw [hsplit, lineChars, ← List.drop_drop, List.drop_left, List.drop_one, List.tail_cons]
  have hlt : (lineChars l).idxOf ' ' < (lineChars l).length := by
    rw [List.idxOf_lt_length_iff, lineChars]
    simp
  have hmask : Text.stoul (toString l.mask).toList = some (BitVec.ofNat 64 l.mask) := by
    have hstoul := Text.stoul_numeral (.ofNat l.mask) (by simpa using h.mask)
    rwa [Numeral.value_ofNat, ← Numeral.toList_toString] at hstoul
  have hwidth : (BitVec.ofNat 64 l.mask).setWidth 32 = BitVec.ofNat 32 l.mask :=
    BitVec.setWidth_ofNat_of_le (by decide) _
  simp only [readRecord, hfirst, if_pos hlt, hsecond, Text.stoul_toString l.base h.base, hmask,
    Option.bind_eq_bind, Option.bind_some, setWidth_ofInt, hwidth]
  rfl

theorem readRecords_text {lines : List FirstPass.Line} (h : ∀ l ∈ lines, Short l)
    (line : List Char) :
    readRecords ⟨(String.join (lines.map FirstPass.Line.text)).toList, false⟩ line =
      some (lines.map readLine) := by
  induction lines generalizing line with
  | nil =>
    rw [readRecords]
    rfl
  | cons l lines ih =>
    rw [List.forall_mem_cons] at h
    rw [List.map_cons, String.join_cons, String.toList_append, toList_text, List.append_assoc,
      List.singleton_append, readRecords, Text.getline_cons (newline_not_mem_lineChars l)]
    simp only [Bool.false_eq_true, dite_false, readRecord_lineChars h.1, ih h.2,
      Option.bind_eq_bind, Option.bind_some, List.map_cons]
    rfl

/-! ## The printed lines -/

/-- The character of a bit. -/
def bitChar (b : Bool) : Char := if b then '1' else '0'

/-- The line stands for the word: where it has a digit, that is the bit of the word. -/
def Matches (chars : List Char) (w : InstrT) : Prop :=
  ∀ k c, chars[k]? = some c → c = 'x' ∨ c = bitChar (w.getLsbD (31 - k))

theorem bitChar_ne_x (b : Bool) : bitChar b ≠ 'x' := by cases b <;> decide

theorem bitChar_inj {b b' : Bool} : bitChar b = bitChar b' ↔ b = b' := by
  cases b <;> cases b' <;> decide

theorem and_shiftOne_ne (m : InstrT) {i : Nat} (hi : i < 32) :
    (m &&& 1#32 <<< i != 0) = m.getLsbD i := by
  have hne : BitVec.twoPow 32 i ≠ 0 := fun h => by
    have hbit := congrArg (BitVec.getLsbD · i) h
    simp [hi] at hbit
  rw [← BitVec.twoPow_eq, BitVec.and_twoPow]
  cases m.getLsbD i with
  | true => simpa using hne
  | false => rfl

theorem getElem?_maskedBinary (v m : InstrT) {k : Nat} (hk : k < 32) :
    (maskedBinary v m)[k]? =
      some (if m.getLsbD (31 - k) then 'x' else bitChar (v.getLsbD (31 - k))) := by
  rw [maskedBinary, List.getElem?_map, List.getElem?_range hk, Option.map_some]
  simp only [and_shiftOne_ne _ (by omega : 31 - k < 32)]
  rfl

theorem matches_maskedBinary (mi : MaskedInstruction) (w : InstrT) :
    Matches (maskedBinary mi.instr mi.mask) w ↔ w ∈ mi.pattern := by
  constructor
  · intro h i hi hfree
    have hchar := getElem?_maskedBinary mi.instr mi.mask (by omega : 31 - i < 32)
    rw [(by omega : 31 - (31 - i) = i), if_neg (by simpa using hfree)] at hchar
    have hdigit := (h _ _ hchar).resolve_left (bitChar_ne_x _)
    rw [bitChar_inj, (by omega : 31 - (31 - i) = i)] at hdigit
    exact hdigit.symm
  · intro h k c hc
    have hk : k < 32 := by
      have := (List.getElem?_eq_some_iff.1 hc).1
      simpa [maskedBinary] using this
    rw [getElem?_maskedBinary _ _ hk, Option.some.injEq] at hc
    split at hc
    · exact .inl hc.symm
    · rename_i hfree
      rw [h (31 - k) (by omega) (by simpa using hfree)]
      exact .inr hc.symm

theorem lines_print (output : List MaskedInstruction) :
    Text.lines (String.join (output.map fun mi =>
        RangeCompress.printAsMaskedBinary mi.instr mi.mask)).toList =
      output.map fun mi => maskedBinary mi.instr mi.mask := by
  induction output with
  | nil => rfl
  | cons mi output ih =>
    have hnl : '\n' ∉ maskedBinary mi.instr mi.mask := fun h => by
      obtain ⟨k, -, hk⟩ := List.mem_map.1 h
      simp only at hk
      split_ifs at hk <;> exact absurd hk (by decide)
    rw [List.map_cons, String.join_cons, String.toList_append, RangeCompress.printAsMaskedBinary,
      String.toList_append, String.toList_ofList, List.append_assoc]
    exact (Text.lines_append hnl).trans (congrArg _ ih)

/-! ## The number of words -/

/-- A mask of `n` bits in a row. -/
theorem weight_mask (b : InstrT) (n s : Nat) :
    weight ⟨b, BitVec.ofNat 32 ((2 ^ n - 1) <<< s)⟩ ≤ 2 ^ n := by
  induction n with
  | zero =>
    rw [weight, Nat.pow_zero, Finset.card_le_one]
    intro x hx y hy
    simp only [Pattern.mem_words, RangeCompress.MaskedInstruction.pattern,
      Nat.sub_self, Nat.zero_shiftLeft, Pattern.mem_zero] at hx hy
    rw [hx, hy]
  | succ n ih =>
    have hmask : BitVec.ofNat 32 ((2 ^ (n + 1) - 1) <<< s) =
        BitVec.ofNat 32 ((2 ^ n - 1) <<< s) ||| BitVec.twoPow 32 (n + s) := by
      apply BitVec.eq_of_getLsbD_eq
      intro i hi
      simp only [BitVec.getLsbD_or, BitVec.getLsbD_ofNat, BitVec.getLsbD_twoPow,
        Nat.testBit_shiftLeft, Nat.testBit_two_pow_sub_one]
      rw [Bool.eq_iff_iff]
      simp only [Bool.or_eq_true, Bool.and_eq_true, decide_eq_true_eq]
      omega
    rw [hmask, Nat.pow_succ, Nat.mul_comm]
    exact (Pattern.card_words_or_twoPow ..).trans (Nat.mul_le_mul_left 2 ih)

/-- The record that the second pass reads for a piece. -/
def record (p : Piece) : MaskedInstruction := readLine (FirstPass.line p)

theorem weight_record (p : Piece) : weight (record p) ≤ 2 ^ p.bits := weight_mask ..

/-- The records of a list stand for at most as many words as it has. -/
theorem sum_weight_cut (l : List Int) : ((cut l).map fun p => weight (record p)).sum ≤ l.length := by
  have hlen : ((cut l).map fun p => 2 ^ p.bits).sum = l.length := by
    conv_rhs => rw [← Progression.flatMap_elements_cut (l := l), List.length_flatMap]
    simp [Piece.elements]
  rw [← hlen]
  exact List.sum_le_sum fun p _ => weight_record p

/-! ## Both passes -/

theorem run_firstPass {ws : List InstrT} (h : 2 ≤ ws.length) :
    FirstPass.run (printAll ws) =
      some (String.join (((cut (ws.map value)).map FirstPass.line).map FirstPass.Line.text)) := by
  rw [FirstPass.run, readIntegers_printAll, Option.bind_eq_bind, Option.bind_some,
    FirstPass.firstPass_eq_cut (by simpa using h)]
  rfl

/-- The lines of a list of words are short. -/
theorem short_line {ws : List InstrT} (hp : p ∈ cut (ws.map value)) : Short (FirstPass.line p) := by
  have hvalues : ∀ a ∈ ws.map value, ∃ w : InstrT, a = (w.toNat : Int) := fun a ha => by
    obtain ⟨w, -, rfl⟩ := List.mem_map.1 ha
    exact ⟨w, rfl⟩
  obtain ⟨x, hfits, -⟩ := FirstPass.exists_fits hvalues hp
  have := x.isLt
  have hlast := hfits.last
  refine ⟨?_, ?_⟩
  · rw [FirstPass.line, hfits.base, Int.natAbs_natCast]
    omega
  · rw [FirstPass.line, Nat.shiftLeft_eq]
    change (2 ^ p.bits - 1) * 2 ^ p.shift < 2 ^ 64
    omega

/-- What the second pass prints for a file of the first. -/
theorem run_rangeCompress {pieces : List Piece} (h : ∀ p ∈ pieces, Short (FirstPass.line p)) :
    RangeCompress.run (String.join ((pieces.map FirstPass.line).map FirstPass.Line.text)) =
      (RangeCompress.main (pieces.map record)).map fun output =>
        String.join (output.map fun mi => RangeCompress.printAsMaskedBinary mi.instr mi.mask) := by
  have hread := readRecords_text (List.forall_mem_map.2 h) []
  rw [RangeCompress.run, hread, List.map_map, Option.bind_eq_bind, Option.bind_some,
    Option.map_eq_bind]
  rfl

theorem cut_ne_nil {l : List Int} (h : l ≠ []) : cut l ≠ [] := fun hc => h <| by
  rw [← Progression.flatMap_elements_cut (l := l), hc, List.flatMap_nil]

/-- The words that the printed lines stand for. -/
theorem denoted_eq (output : List MaskedInstruction) :
    {w | ∃ line ∈ Text.lines (String.join (output.map fun mi =>
        RangeCompress.printAsMaskedBinary mi.instr mi.mask)).toList, Matches line w} =
      ↑(Pattern.union (output.map (·.pattern))) := by
  ext w
  rw [lines_print, Set.mem_ofPred_eq, Finset.mem_coe, Pattern.mem_union]
  simp only [List.mem_map, exists_exists_and_eq_and, matches_maskedBinary]

/-- **What is printed for a file of words.** One line for each record that is left. The lines never
stand for more words than the file has, and exactly for these if every piece is aligned and no two
neighbours can be merged. -/
theorem compress_text (ws : List InstrT) (h : 2 ≤ ws.length) :
    let pieces := cut (ws.map value)
    ∃ file out, FirstPass.run (printAll ws) = some file ∧ RangeCompress.run file = some out ∧
      let denoted := {w | ∃ line ∈ Text.lines out.toList, Matches line w}
      denoted.ncard ≤ ws.length ∧
        ((∀ p ∈ pieces, FirstPass.Aligned p) → NoLinks (pieces.map record) →
          denoted = {w | w ∈ ws}) := by
  intro pieces
  have hvalues : ∀ a ∈ ws.map value, ∃ w : InstrT, a = (w.toNat : Int) := fun a ha => by
    obtain ⟨w, -, rfl⟩ := List.mem_map.1 ha
    exact ⟨w, rfl⟩
  have hpieces : pieces.map record ≠ [] := fun hnil => by
    refine cut_ne_nil (fun hws => ?_) (List.map_eq_nil_iff.1 hnil)
    rw [List.map_eq_nil_iff.1 hws] at h
    exact absurd h (by decide)
  obtain ⟨delta, hfresh, hmain⟩ := RangeCompress.main_eq_loop hpieces
  have hrun := @run_rangeCompress pieces fun p hp => short_line hp
  rw [hmain, Option.map_some] at hrun
  refine ⟨_, _, run_firstPass h, hrun, ?_⟩
  intro denoted
  have hpasses := RangeCompress.loop_passes hfresh
  rw [List.drop_zero] at hpasses
  have hdenoted : denoted = _ := denoted_eq _
  refine ⟨?_, fun haligned hlinks => ?_⟩
  · rw [hdenoted, Set.ncard_coe_finset]
    calc _ ≤ _ := Pattern.card_union_le _
      _ = ((RangeCompress.loop (pieces.map record) delta 0).map weight).sum := by
        rw [List.map_map]
        rfl
      _ ≤ ((pieces.map record).map weight).sum := hpasses.sum_weight.1
      _ = (pieces.map fun p => weight (record p)).sum := by
        rw [List.map_map]
        rfl
      _ ≤ (ws.map value).length := sum_weight_cut _
      _ = ws.length := List.length_map _
  · rw [hdenoted, hpasses.eq_self hlinks]
    ext w
    have hcovers := FirstPass.covers_iff_of_aligned hvalues haligned w
    rw [show (w.toNat : Int) ∈ ws.map value ↔ w ∈ ws from FirstPass.mem_values] at hcovers
    rw [Finset.mem_coe, Pattern.mem_union, Set.mem_ofPred_eq, ← hcovers]
    simp only [List.mem_map, exists_exists_and_eq_and]
    rfl

/-- Two aligned pieces in steps of 1 and of 4, and a file that the first pass makes one record of. -/
theorem compress_text_aligned :
    (∃ file out, FirstPass.run (printAll [2, 3, 16, 20, 24, 28]) = some file ∧
      RangeCompress.run file = some out ∧
      {w | ∃ line ∈ Text.lines out.toList, Matches line w} = {w | w ∈ [2, 3, 16, 20, 24, 28]}) ∧
    ∃ file out, FirstPass.run (printAll [4, 5, 6, 7]) = some file ∧
      RangeCompress.run file = some out ∧
      {w | ∃ line ∈ Text.lines out.toList, Matches line w} = {w | w ∈ [4, 5, 6, 7]} := by
  constructor
  · obtain ⟨file, out, hfile, hrun, -, hdenoted⟩ :=
      compress_text [2, 3, 16, 20, 24, 28] (by decide)
    refine ⟨file, out, hfile, hrun, hdenoted (by decide +kernel) ?_⟩
    unfold NoLinks
    decide +kernel
  · obtain ⟨file, out, hfile, hrun, -, hdenoted⟩ := compress_text [4, 5, 6, 7] (by decide)
    refine ⟨file, out, hfile, hrun, hdenoted (by decide +kernel) ?_⟩
    unfold NoLinks
    decide +kernel

end IScanU
