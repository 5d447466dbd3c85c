import IScanU.RangeCompress
import Mathlib.Data.List.Chain

/-! # The second pass

A pass of the loop that merges a run emits a record of at most half the words that the run had, and
one that cuts a run back leaves two linked records behind (`Pass`). Over a whole run of `main` the
output is therefore smaller than the input as soon as two neighbours are linked
(`Passes.sum_weight`); when none are, the records come out as they went in. -/

namespace IScanU.RangeCompress

open Progression (links walk_eq exists_of_lt_links)

/-- Two neighbours that the loop merges. -/
def Linked (a b : MaskedInstruction) : Prop :=
  isPower2 (b.instr - a.instr) = true ∧ a.mask = b.mask

instance : DecidableRel Linked := fun _ _ => inferInstanceAs (Decidable (_ ∧ _))

def NoLinks (l : List MaskedInstruction) : Prop := l.IsChain fun a b => ¬ Linked a b

/-- The number of words of a record. -/
def weight (r : MaskedInstruction) : Nat := r.pattern.words.card

theorem weight_pos {r : MaskedInstruction} : 0 < weight r := Pattern.card_words_pos

theorem weight_congr {a b : MaskedInstruction} (h : a.mask = b.mask) : weight a = weight b := by
  rw [weight, weight, MaskedInstruction.pattern, MaskedInstruction.pattern, h]
  exact Pattern.card_words_congr ..

/-- A mask bit more at most doubles the number of words, at whatever position it is. -/
theorem weight_rangeMask {r : MaskedInstruction} (delta : InstrT) (diff : Nat) :
    weight ⟨r.instr, r.mask ||| rangeMask delta diff⟩ ≤
      2 ^ (variableBits diff).toNat * weight r := by
  rw [rangeMask]
  generalize (variableBits diff).toNat = n
  induction n with
  | zero => simp
  | succ n ih =>
    rw [List.range_succ, List.foldl_append, List.foldl_cons, List.foldl_nil, ← BitVec.or_assoc,
      Nat.pow_succ]
    generalize (List.range n).foldl _ _ = m at ih ⊢
    have hbit : shiftOne (n + deltaBitShift delta) =
        BitVec.twoPow 32 ((n + deltaBitShift delta) % 32).toNat := (BitVec.twoPow_eq ..).symm
    have := Pattern.card_words_or_twoPow r.instr (r.mask ||| m)
      ((n + deltaBitShift delta) % 32).toNat
    rw [← hbit] at this
    calc weight ⟨r.instr, r.mask ||| m ||| shiftOne (n + deltaBitShift delta)⟩
        ≤ 2 * weight ⟨r.instr, r.mask ||| m⟩ := this
      _ ≤ 2 * (2 ^ n * weight r) := Nat.mul_le_mul_left _ ih
      _ = 2 ^ n * 2 * weight r := by rw [Nat.mul_comm (2 ^ n) 2, Nat.mul_assoc]

/-- A merged run emits at most as many words as it has steps. -/
theorem two_pow_variableBits_le (diff : Nat) : 2 ^ (variableBits (diff + 1)).toNat ≤ diff + 1 := by
  have hint : intLog2 (diff + 1) = (diff + 1).log2 := if_neg (Nat.succ_ne_zero _)
  have hle : (variableBits (diff + 1)).toNat ≤ (diff + 1).log2 := by
    rw [variableBits, hint]
    split <;> omega
  exact Nat.le_trans (Nat.pow_le_pow_right Nat.two_pos hle) (Nat.log2_self_le (Nat.succ_ne_zero _))

/-- A run that is cut back emits at most half as many. -/
theorem two_mul_two_pow_variableBits_le {diff : Nat}
    (h : ¬ isPower2 (BitVec.ofNat 32 (diff + 1 + 1)) = true) :
    2 * 2 ^ (variableBits (diff + 1)).toNat ≤ diff + 1 := by
  have hint : intLog2 (diff + 1) = (diff + 1).log2 := if_neg (Nat.succ_ne_zero _)
  -- A run of two records is a power of two, so the logarithm is at least 1.
  have hdiff : 1 ≤ diff := by
    apply Nat.pos_of_ne_zero
    rintro rfl
    exact h (by decide)
  have hlog : 1 ≤ (diff + 1).log2 := (Nat.le_log2 (Nat.succ_ne_zero _)).2 (by omega)
  have hbits : (variableBits (diff + 1)).toNat = (diff + 1).log2 - 1 := by
    rw [variableBits, if_neg h, hint]
    omega
  rw [hbits, ← Nat.pow_succ', Nat.succ_eq_add_one, Nat.sub_add_cancel hlog]
  exact Nat.log2_self_le (Nat.succ_ne_zero _)

/-! ## Runs of records -/

section
variable {delta : InstrT} {l : List MaskedInstruction}

/-- All records of a run have the words of the first. -/
theorem sum_weight_take (delta : InstrT) (hc : c ≤ links (inSameRange · · delta) (a :: l) + 1) :
    (((a :: l).take c).map weight).sum = c * weight a := by
  induction c generalizing a l with
  | zero => simp
  | succ c ih =>
    rw [List.take_succ_cons, List.map_cons, List.sum_cons, Nat.succ_mul, Nat.add_comm]
    congr 1
    cases c with
    | zero => simp
    | succ c =>
      obtain ⟨_, b, l, heq, hr, hc'⟩ := exists_of_lt_links (Nat.le_of_succ_le_succ hc)
      cases heq
      rw [inSameRange, Bool.and_eq_true, beq_iff_eq, beq_iff_eq] at hr
      rw [ih (Nat.succ_le_succ hc'), weight_congr hr.2]

theorem Linked.of_inSameRange (hp : isPower2 delta = true) (h : inSameRange a b delta = true) :
    Linked a b := by
  rw [inSameRange, Bool.and_eq_true, beq_iff_eq, beq_iff_eq] at h
  refine ⟨?_, h.2⟩
  rw [← h.1, BitVec.add_comm, BitVec.add_sub_cancel]
  exact hp

/-- What is left of a run of at least two records has a link. -/
theorem not_noLinks_drop (hp : isPower2 delta = true)
    (hc : c + 1 ≤ links (inSameRange · · delta) l) : ¬ NoLinks (l.drop c) := by
  induction c generalizing l with
  | zero =>
    obtain ⟨a, b, l, rfl, hr, -⟩ := exists_of_lt_links hc
    intro h
    exact (List.isChain_cons_cons.1 h).1 (.of_inSameRange hp hr)
  | succ c ih =>
    obtain ⟨_, _, _, rfl, -, hc'⟩ := exists_of_lt_links hc
    exact ih hc'

end

/-! ## One pass of the loop -/

/-- What a pass does with the list it has before it: the record it emits and the number of records
it passes over. -/
structure Pass (l : List MaskedInstruction) (e : MaskedInstruction) (c : Nat) : Prop where
  pos : 0 < c
  weight_le : weight e ≤ ((l.take c).map weight).sum
  /-- Words are lost, or there is still something to lose. -/
  lost : ¬ NoLinks l → weight e < ((l.take c).map weight).sum ∨ ¬ NoLinks (l.drop c)
  kept : NoLinks l → l.take c = [e]

/-- The record at the front is emitted as it is, when it is not linked to the next one. -/
theorem Pass.single (h : ∀ b, l.head? = some b → ¬ Linked a b) : Pass (a :: l) a 1 where
  pos := Nat.one_pos
  weight_le := Nat.le_of_eq List.sum_singleton.symm
  lost hl := by
    refine .inr fun hl' => hl ?_
    match l with
    | [] => exact .singleton a
    | b :: l => exact List.isChain_cons_cons.2 ⟨h b rfl, hl'⟩
  kept _ := rfl

/-- A run is merged, or cut back. -/
theorem Pass.run {diff : Nat} (hp : isPower2 delta = true)
    (hdiff : links (inSameRange · · delta) (a :: l) = diff + 1) :
    Pass (a :: l) ⟨a.instr, a.mask ||| rangeMask delta (diff + 1)⟩
      (if isPower2 (BitVec.ofNat 32 (diff + 1 + 1)) then diff + 1 + 1
        else 2 ^ (variableBits (diff + 1)).toNat) := by
  have hlink : ¬ NoLinks (a :: l) := not_noLinks_drop hp (c := 0) (by omega)
  have hw := weight_rangeMask (r := a) delta (diff + 1)
  split
  case isTrue h =>
    have hlt : weight ⟨a.instr, a.mask ||| rangeMask delta (diff + 1)⟩ <
        (((a :: l).take (diff + 1 + 1)).map weight).sum := by
      rw [sum_weight_take delta (by omega)]
      calc _ ≤ 2 ^ (variableBits (diff + 1)).toNat * weight a := hw
        _ ≤ (diff + 1) * weight a := Nat.mul_le_mul_right _ (two_pow_variableBits_le diff)
        _ < (diff + 1 + 1) * weight a := Nat.mul_lt_mul_of_pos_right (Nat.lt_succ_self _) weight_pos
    exact ⟨Nat.succ_pos _, Nat.le_of_lt hlt, fun _ => .inl hlt, fun h' => absurd h' hlink⟩
  case isFalse h =>
    have hhalf := two_mul_two_pow_variableBits_le h
    have hpos := Nat.two_pow_pos (variableBits (diff + 1)).toNat
    refine ⟨hpos, ?_, fun _ => .inr ?_, fun h' => absurd h' hlink⟩
    · rw [sum_weight_take delta (by omega)]
      exact hw
    · exact not_noLinks_drop hp (by omega)

/-! ## The whole loop -/

/-- Passes that use up a list, and what they emit. -/
inductive Passes : List MaskedInstruction → List MaskedInstruction → Prop
  | nil : Passes [] []
  | cons : Pass l e c → Passes (l.drop c) output → Passes l (e :: output)

/-- Without links the records come out as they went in. -/
theorem Passes.eq_self (h : Passes l output) (hl : NoLinks l) : output = l := by
  induction h with
  | nil => rfl
  | @cons l e c output hpass _ ih =>
    rw [ih (hl.drop c), ← List.singleton_append, ← hpass.kept hl, List.take_append_drop]

/-- The records emitted have no more words than those read, and fewer when there is a link. -/
theorem Passes.sum_weight (h : Passes l output) :
    (output.map weight).sum ≤ (l.map weight).sum ∧
      (¬ NoLinks l → (output.map weight).sum < (l.map weight).sum) := by
  induction h with
  | nil => exact ⟨Nat.le_refl _, fun h => absurd .nil h⟩
  | @cons l e c output hpass _ ih =>
    obtain ⟨hle, hlt⟩ := ih
    have hsum : (l.map weight).sum = ((l.take c).map weight).sum + ((l.drop c).map weight).sum := by
      rw [← List.sum_append, ← List.map_append, List.take_append_drop]
    have hw := hpass.weight_le
    rw [List.map_cons, List.sum_cons, hsum]
    refine ⟨Nat.add_le_add hw hle, fun hl => ?_⟩
    rcases hpass.lost hl with hlost | hleft
    · exact Nat.add_lt_add_of_lt_of_le hlost hle
    · exact Nat.add_lt_add_of_le_of_lt hw (hlt hleft)

section
variable {instructions : List MaskedInstruction} {delta : InstrT}

/-- `delta` is what the loop has computed for index `i`: the difference to the next instruction. At
the last one it may have any value. -/
def Fresh (instructions : List MaskedInstruction) (delta : InstrT) (i : Nat) : Prop :=
  ∀ h : i + 1 < instructions.length, delta = instructions[i + 1].instr - instructions[i].instr

theorem Fresh.next : Fresh instructions (nextDelta instructions delta i) (i + 1) := by
  intro h
  rw [nextDelta, dif_pos h]

/-- Where nothing starts a run, the neighbours are not linked. -/
theorem Fresh.not_linked (hd : Fresh instructions delta i) (hi : i < instructions.length)
    (hb : (instructions.drop (i + 1)).head? = some b)
    (hr : isPower2 delta = true → ¬ inSameRange instructions[i] b delta = true) :
    ¬ Linked instructions[i] b := by
  intro hlink
  rw [List.head?_drop, List.getElem?_eq_some_iff] at hb
  obtain ⟨h, rfl⟩ := hb
  obtain rfl := hd h
  apply hr hlink.1
  rw [inSameRange, Bool.and_eq_true, beq_iff_eq, beq_iff_eq]
  refine ⟨?_, hlink.2⟩
  rw [BitVec.add_comm, BitVec.sub_add_cancel]

/-- Each iteration is a pass over what is left. -/
theorem loop_step (hi : i < instructions.length) (hd : Fresh instructions delta i) :
    ∃ e c delta', Pass (instructions.drop i) e c ∧ Fresh instructions delta' (i + c) ∧
      loop instructions delta i = e :: loop instructions delta' (i + c) := by
  rw [loop, dif_pos hi, List.drop_eq_getElem_cons hi]
  by_cases hp : isPower2 delta = true
  · rw [if_neg (by simp [hp])]
    have hrun : runEnd instructions delta i - i =
        links (inSameRange · · delta) (instructions[i] :: instructions.drop (i + 1)) := by
      rw [runEnd, walk_eq, Nat.add_sub_cancel_left, List.drop_eq_getElem_cons hi]
    have hle : i ≤ runEnd instructions delta i := Progression.le_walk
    cases hdiff : links (inSameRange · · delta) (instructions[i] :: instructions.drop (i + 1)) with
    | zero =>
      -- The run is the record alone.
      rw [hdiff] at hrun
      have hend : runEnd instructions delta i = i := by omega
      refine ⟨_, 1, nextDelta instructions delta i,
        .single fun b hb => hd.not_linked hi hb fun _ hr => ?_, .next, ?_⟩
      · obtain ⟨l, hl⟩ := List.head?_eq_some_iff.1 hb
        rw [hl, links, if_pos hr] at hdiff
        omega
      · have hmask : rangeMask delta 0 = 0#32 := rfl
        have hback : stepBack 0 i = i := rfl
        simp only [hend, Nat.sub_self, hmask, hback, BitVec.or_zero]
    | succ diff =>
      rw [hdiff] at hrun
      have hend : runEnd instructions delta i = i + (diff + 1) := by omega
      have hnext : stepBack (diff + 1) (i + (diff + 1)) + 1 =
          i + if isPower2 (BitVec.ofNat 32 (diff + 1 + 1)) then diff + 1 + 1
            else 2 ^ (variableBits (diff + 1)).toNat := by
        have := two_pow_variableBits_le diff
        have := Nat.two_pow_pos (variableBits (diff + 1)).toNat
        rw [stepBack]
        split <;> omega
      refine ⟨_, _, nextDelta instructions delta (stepBack (diff + 1) (i + (diff + 1))),
        .run hp hdiff, hnext ▸ .next, ?_⟩
      simp only [hend, Nat.add_sub_cancel_left, hnext]
  · rw [if_pos (by simp [hp])]
    exact ⟨_, 1, _, .single fun b hb => hd.not_linked hi hb fun h => absurd h hp, .next, rfl⟩

/-- What the loop has done when it ends is a sequence of passes. -/
theorem loop_passes (hd : Fresh instructions delta i) :
    Passes (instructions.drop i) (loop instructions delta i) := by
  induction hn : instructions.length - i using Nat.strong_induction_on generalizing i delta with
  | _ n ih =>
    by_cases hi : i < instructions.length
    · obtain ⟨e, c, delta', hpass, hd', heq⟩ := loop_step hi hd
      have := hpass.pos
      have hrest := ih _ (by omega) hd' rfl
      rw [heq]
      rw [← List.drop_drop] at hrest
      exact .cons hpass hrest
    · rw [loop, dif_neg hi, List.drop_eq_nil_of_le (Nat.le_of_not_lt hi)]
      exact .nil

end

/-! ## The set of words -/

/-- The records printed stand for the words of the records read. -/
def Preserves (instructions : List MaskedInstruction) : Prop :=
  ∃ output, main instructions = some output ∧
    ∀ k, (∃ r ∈ output, k ∈ r.pattern) ↔ ∃ r ∈ instructions, k ∈ r.pattern

theorem main_eq_loop (h : instructions ≠ []) :
    ∃ delta, Fresh instructions delta 0 ∧ main instructions = some (loop instructions delta 0) := by
  obtain _ | ⟨a, _ | ⟨b, rest⟩⟩ := instructions
  · exact absurd rfl h
  · exact ⟨0, fun hlt => absurd hlt (by simp), rfl⟩
  · exact ⟨_, fun _ => rfl, rfl⟩

/-- A single record is printed as it is, whatever `delta` it is compared with. -/
theorem loop_singleton (a : MaskedInstruction) (delta : InstrT) : loop [a] delta 0 = [a] := by
  have hfresh : Fresh [a] delta 0 := fun hlt => absurd hlt (by simp)
  exact (loop_passes hfresh).eq_self (.singleton a)

/-- The set is preserved when no two neighbours have one mask and instructions that differ by a
power of two. For records that have no word in common there is no other case. -/
theorem preserves_iff (instructions : List MaskedInstruction) (h : 2 ≤ instructions.length) :
    (NoLinks instructions → Preserves instructions) ∧
      (instructions.Pairwise (fun a b => a.pattern.Apart b.pattern) →
        Preserves instructions → NoLinks instructions) := by
  obtain ⟨delta, hd, hmain⟩ := main_eq_loop (List.ne_nil_of_length_pos (Nat.lt_of_succ_lt h))
  have hpasses := loop_passes hd
  rw [List.drop_zero] at hpasses
  refine ⟨fun hl => ⟨_, hmain, fun k => ?_⟩, fun hapart ⟨output, hout, hk⟩ => ?_⟩
  · rw [hpasses.eq_self hl]
  · cases hmain.symm.trans hout
    by_contra hl
    have hlt := hpasses.sum_weight.2 hl
    have hunion : Pattern.union ((loop instructions delta 0).map (·.pattern)) =
        Pattern.union (instructions.map (·.pattern)) := by
      ext k
      rw [Pattern.mem_union, Pattern.mem_union]
      simpa only [List.mem_map, exists_exists_and_eq_and] using hk k
    -- Counted with its overlaps, the output is too small.
    have hle := Pattern.card_union_le ((loop instructions delta 0).map (·.pattern))
    rw [hunion, Pattern.card_union_eq (List.pairwise_map.2 hapart), List.map_map,
      List.map_map] at hle
    exact Nat.not_le_of_lt hlt hle

/-- Neighbours one apart whose masks differ, and two that differ by 6. -/
theorem preserves_unlinked : Preserves [⟨0, 0⟩, ⟨1, 0x100⟩, ⟨7, 0x100⟩] := by
  apply (preserves_iff _ (by decide)).1
  unfold NoLinks
  decide

/-- Of the words 0 and 1 only 0 is printed. -/
theorem not_preserves_pair : ¬ Preserves [⟨0, 0⟩, ⟨1, 0⟩] := by
  rintro ⟨output, hout, hk⟩
  have hrun : main [⟨0, 0⟩, ⟨1, 0⟩] = some [⟨0, 0⟩] := by decide +kernel
  cases hrun.symm.trans hout
  obtain ⟨r, hr, h1⟩ := (hk 1).2 ⟨⟨1, 0⟩, by simp, Pattern.base_mem⟩
  cases List.mem_singleton.1 hr
  exact absurd h1 (by decide)

end IScanU.RangeCompress
