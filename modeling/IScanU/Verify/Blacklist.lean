import IScanU.Blacklist
import IScanU.Theory.Pattern

/-! # The two blacklists

Each class stores a list of patterns. `Blacklist` stores their members one by one, built by
depositing a counter in the don't-care positions (`InstructionMask.fillDontCares_deposit`), and
`LowMemoryBlacklist` compares with the patterns themselves. -/

namespace IScanU

/-- The words an entry stands for. -/
@[simps] def InstructionMask.pattern (m : InstructionMask) : Pattern 32 where
  base := m.valueMask
  free := m.dontCareMask

def Add.pattern : Add → Pattern 32
  | .instr k => ⟨k, 0⟩
  | .mask m => m.pattern

/-! ## The deposit loop -/

namespace InstructionMask

variable {m : InstructionMask}

theorem isDontCare_eq (hi : i < 32) : m.isDontCare i = m.dontCareMask.getLsbD i := by
  change (m.dontCareMask &&& 1#32 <<< i != 0#32) = _
  rw [← BitVec.twoPow_eq, BitVec.and_twoPow]
  cases m.dontCareMask.getLsbD i with
  | true =>
    have hne : BitVec.twoPow 32 i ≠ 0#32 := by
      intro h
      have := congrArg (·.getLsbD i) h
      simp [hi] at this
    simpa using hne
  | false => rfl

theorem numDontCares_eq : m.numDontCares = m.pattern.width := by
  rw [Pattern.width, Pattern.rank_eq_countP, numDontCares]
  apply List.countP_congr
  intro i hi
  rw [isDontCare_eq (List.mem_range.1 hi), pattern_free]

/-- Everything before `k` that is free is skipped, and the positions skipped for `none` are not. -/
theorem nextDontCare_spec (hk : k ≤ 32) :
    match m.nextDontCare k with
    | some k' => k ≤ k' ∧ k' < 32 ∧ m.dontCareMask.getLsbD k' = true ∧
        Pattern.rank m.dontCareMask k' = Pattern.rank m.dontCareMask k
    | none => Pattern.rank m.dontCareMask 32 = Pattern.rank m.dontCareMask k := by
  cases h : m.nextDontCare k with
  | some k' =>
    obtain ⟨hp, hmem, hbefore⟩ := List.find?_range'_eq_some.1 h
    rw [List.mem_range'_1] at hmem
    have hk' : k' < 32 := by omega
    refine ⟨hmem.1, hk', isDontCare_eq hk' ▸ hp, ?_⟩
    apply Pattern.rank_eq_of_care hmem.1
    intro j hj hj'
    have := hbefore j hj hj'
    rwa [isDontCare_eq (by omega), Bool.not_eq_true'] at this
  | none =>
    have hall := List.find?_range'_eq_none.1 h
    apply Pattern.rank_eq_of_care hk
    intro j hj hj'
    have := hall j hj (by omega)
    rwa [isDontCare_eq hj', Bool.not_eq_true'] at this

/-- After `n` passes through the loop over `j`: the free positions below `k` are `n` many and hold
the low bits of `i`, the others are still clear. -/
structure Filling (m : InstructionMask) (i : InstrT) (n : Nat) (s : Nat × InstrT) : Prop where
  k_le : s.1 ≤ 32
  rank : Pattern.rank m.dontCareMask s.1 = n
  bits : ∀ p < 32, s.2.getLsbD p =
    if m.dontCareMask.getLsbD p then
      decide (p < s.1) && i.getLsbD (Pattern.rank m.dontCareMask p)
    else m.valueMask.getLsbD p

theorem Filling.init : m.Filling i 0 (0, m.valueMask &&& ~~~m.dontCareMask) where
  k_le := Nat.zero_le _
  rank := rfl
  bits p hp := by
    simp only [BitVec.getLsbD_and, BitVec.getLsbD_not, hp]
    cases m.dontCareMask.getLsbD p <;> simp

/-- The bit of the counter that one pass moves into place. -/
theorem getLsbD_moved (i : InstrT) (hj : j ≤ k) (hk : k < 32) :
    ((i &&& 1 <<< j) <<< (k - j)).getLsbD p = (decide (p = k) && i.getLsbD j) := by
  change ((i &&& 1#32 <<< j) <<< (k - j)).getLsbD p = _
  rw [← BitVec.twoPow_eq, BitVec.and_twoPow]
  rcases hb : i.getLsbD j with _ | _
  · simp
  · simp only [if_true, BitVec.getLsbD_shiftLeft, BitVec.getLsbD_twoPow, Bool.and_true]
    rw [Bool.eq_iff_iff]
    simp only [Bool.and_eq_true, Bool.not_eq_true', decide_eq_true_eq, decide_eq_false_iff_not]
    omega

theorem Filling.step (h : m.Filling i n s) (hn : n < m.pattern.width) :
    m.Filling i (n + 1) (m.fillDontCare i s n) := by
  obtain ⟨k, x⟩ := s
  obtain ⟨hk, hrank, hbits⟩ := h
  have hnext := m.nextDontCare_spec hk
  unfold fillDontCare
  cases hk' : m.nextDontCare k with
  | none =>
    simp only [hk'] at hnext
    exact absurd hn (by rw [Pattern.width, pattern_free, hnext, hrank]; exact Nat.lt_irrefl _)
  | some k' =>
    simp only [hk'] at hnext
    obtain ⟨hle, hlt, hfree, hrank'⟩ := hnext
    have hr : Pattern.rank m.dontCareMask k' = n := hrank'.trans hrank
    refine ⟨hlt, ?_, fun p hp => ?_⟩
    · rw [Pattern.rank_succ_of_free hfree, hr]
    · simp only [BitVec.getLsbD_or, hbits p hp,
        getLsbD_moved i (hr ▸ Pattern.rank_le : n ≤ k') hlt]
      cases hp' : m.dontCareMask.getLsbD p with
      | false =>
        have : p ≠ k' := by
          rintro rfl
          simp [hfree] at hp'
        simp [this]
      | true =>
        -- No free position lies between the old running index and the position found.
        have hgap : p < k' → p < k := fun hpk => Pattern.lt_of_rank_eq hp' hpk hrank'
        rcases Nat.lt_trichotomy p k' with hpk | rfl | hpk
        · have hpk0 := hgap hpk
          simp [hpk0, Nat.ne_of_lt hpk, Nat.lt_succ_of_lt hpk]
        · have : ¬ p < k := Nat.not_lt.2 hle
          simp [this, hr]
        · have h1 : ¬ p < k := by omega
          have h2 : ¬ p < k' + 1 := by omega
          have h3 : p ≠ k' := by omega
          simp [h1, h2, h3]

theorem Filling.run (n : Nat) (hn : n ≤ m.pattern.width) :
    m.Filling i n
      ((List.range n).foldl (m.fillDontCare i) (0, m.valueMask &&& ~~~m.dontCareMask)) := by
  induction n with
  | zero => exact .init
  | succ n ih =>
    rw [List.range_succ, List.foldl_append]
    exact (ih (Nat.le_of_succ_le hn)).step hn

/-- The word built for `i` is the deposit of `i` in the don't-care positions. -/
theorem fillDontCares_deposit (m : InstructionMask) (i : InstrT) :
    m.pattern.Deposit i.toNat (m.fillDontCares i) := by
  have h := Filling.run (m := m) (i := i) m.pattern.width (Nat.le_refl _)
  rw [fillDontCares, numDontCares_eq]
  generalize (List.range m.pattern.width).foldl (m.fillDontCare i) _ = s at h ⊢
  intro p hp
  rw [h.bits p hp, pattern_free, pattern_base]
  cases hf : m.dontCareMask.getLsbD p with
  | false => rfl
  | true =>
    -- A free position that the loop has not reached would make one more free position.
    have : p < s.1 := Pattern.lt_of_rank_eq hf hp h.rank.symm
    simp [this, BitVec.testBit_toNat]

theorem numInstructions_eq (h : m.numDontCares ≤ 31) :
    m.numInstructions = some (2 ^ m.pattern.width) := by
  rw [numInstructions, if_pos (Nat.lt_succ_of_le h), Nat.one_shiftLeft, numDontCares_eq]

theorem numDontCares_le_iff : m.numDontCares ≤ 31 ↔ m.dontCareMask ≠ BitVec.allOnes 32 := by
  have hle : m.pattern.width ≤ 32 := Pattern.rank_le
  rw [numDontCares_eq, ← pattern_free m, ne_eq, ← Pattern.width_eq_iff]
  omega

/-- The counter does not wrap. -/
theorem toNat_counter (h : m.numDontCares ≤ 31) (hi : i < 2 ^ m.pattern.width) :
    (BitVec.ofNat 32 i).toNat = i := by
  rw [BitVec.toNat_ofNat, Nat.mod_eq_of_lt]
  apply Nat.lt_of_lt_of_le hi
  rw [m.numDontCares_eq] at h
  exact Nat.pow_le_pow_right (by omega) (Nat.le_succ_of_le h)

theorem insertions_eq (h : m.numDontCares ≤ 31) (overflow : InstrT) : m.insertions overflow =
    (List.range (2 ^ m.pattern.width)).map fun i => m.fillDontCares (BitVec.ofNat 32 i) := by
  rw [insertions, m.numInstructions_eq h, Option.getD_some]

/-- The enumeration of the don't-care bits. -/
structure Enumerates (m : InstructionMask) (words : List InstrT) : Prop where
  length : words.length = 2 ^ m.dontCareMask.cpop.toNat
  distinct : words.Nodup
  /-- The words come in the order of the counter, and grow with it. -/
  increasing : words.Pairwise (· < ·)
  /-- The word for `i` has the binary digits of `i` in the don't-care positions. -/
  deposit : ∀ i x, words[i]? = some x → m.pattern.Deposit i x

theorem enumerates_insertions (h : m.numDontCares ≤ 31) (overflow : InstrT) :
    m.Enumerates (m.insertions overflow) := by
  rw [insertions_eq h]
  have hdeposit : ∀ i < 2 ^ m.pattern.width,
      m.pattern.Deposit i (m.fillDontCares (BitVec.ofNat 32 i)) := by
    intro i hi
    have := m.fillDontCares_deposit (BitVec.ofNat 32 i)
    rwa [toNat_counter h hi] at this
  have hincreasing : ((List.range (2 ^ m.pattern.width)).map fun i =>
      m.fillDontCares (BitVec.ofNat 32 i)).Pairwise (· < ·) := by
    rw [List.pairwise_map]
    refine List.Pairwise.imp_of_mem (fun {i j} hi hj hij => ?_) List.pairwise_lt_range
    rw [List.mem_range] at hi hj
    exact (hdeposit i hi).lt (hdeposit j hj) hij hj
  refine ⟨?_, hincreasing.imp fun h => BitVec.ne_of_lt h, hincreasing, fun i x hx => ?_⟩
  · rw [List.length_map, List.length_range, BitVec.toNat_cpop]
    rfl
  · rw [List.getElem?_map, Option.map_eq_some_iff] at hx
    obtain ⟨j, hj, rfl⟩ := hx
    obtain ⟨hlt, hji⟩ := List.getElem?_eq_some_iff.1 hj
    rw [List.length_range] at hlt
    rw [List.getElem_range] at hji
    exact hji ▸ hdeposit i hlt

/-- No value of the bound is enough for a mask without care bits. -/
theorem not_enumerates_of_allOnes (h : m.dontCareMask = BitVec.allOnes 32) (overflow : InstrT) :
    ¬ m.Enumerates (m.insertions overflow) := by
  intro henum
  have hundefined : m.numInstructions = none := if_neg fun hlt =>
    numDontCares_le_iff.1 (Nat.le_of_lt_succ hlt) h
  have hlength := henum.length
  have hcpop : (BitVec.allOnes 32).cpop.toNat = 32 := by decide
  rw [insertions, hundefined, Option.getD_none, List.length_map, List.length_range, h, hcpop]
    at hlength
  exact Nat.ne_of_lt overflow.isLt hlength

end InstructionMask

/-- The loop of `Blacklist::add(InstructionMask)` enumerates the don't-care bits of every mask but
the one without care bits, whatever the shift by 32 gives. -/
theorem insertions_enumerate_iff (m : InstructionMask) (overflow : InstrT) :
    m.Enumerates (m.insertions overflow) ↔ m.dontCareMask ≠ BitVec.allOnes 32 := by
  refine ⟨fun henum h => m.not_enumerates_of_allOnes h overflow henum, fun h => ?_⟩
  exact m.enumerates_insertions (InstructionMask.numDontCares_le_iff.2 h) overflow

/-- All 32 bits are don't-care: 2 ^ 32 words are never inserted. -/
theorem not_enumerates_all : ¬ ∃ overflow : InstrT,
    InstructionMask.Enumerates ⟨0, 0xFFFFFFFF⟩
      (InstructionMask.insertions ⟨0, 0xFFFFFFFF⟩ overflow) :=
  fun ⟨overflow, h⟩ => InstructionMask.not_enumerates_of_allOnes rfl overflow h

/-! ## What is stored -/

/-- `search` answers for the members of the patterns `ps`. -/
def Lists (search : InstrT → Bool) (ps : List (Pattern 32)) : Prop :=
  ∀ k, search k = true ↔ ∃ p ∈ ps, k ∈ p

theorem Lists.nil : Lists (fun _ => false) [] := by
  intro k
  simp

/-- One more pattern. -/
theorem Lists.snoc (h : Lists search ps)
    (hadd : ∀ k, search' k = true ↔ k ∈ p ∨ search k = true) : Lists search' (ps ++ [p]) := by
  intro k
  simp only [hadd, h k, List.mem_append, List.mem_singleton, or_and_right, exists_or,
    exists_eq_left]
  exact or_comm

/-- Two blacklists of the same patterns answer alike. -/
theorem Lists.unique (h : Lists search ps) (h' : Lists search' ps) (k : InstrT) :
    search k = search' k := by
  rw [Bool.eq_iff_iff, h k, h' k]

namespace Blacklist

theorem search_foldl_add {words : List InstrT} {b : Blacklist} :
    (words.foldl add b).search k = true ↔ k ∈ words ∨ b.search k = true := by
  induction words generalizing b with
  | nil => simp
  | cons x words ih =>
    rw [List.foldl_cons, ih, search_add, Bool.or_eq_true, beq_iff_eq, List.mem_cons, or_assoc,
      or_left_comm]

/-- `add(InstructionMask)` inserts one word after the other. -/
theorem addMask_eq (b : Blacklist) (m : InstructionMask) (overflow : InstrT) :
    b.addMask m = m.numInstructions.map fun _ => (m.insertions overflow).foldl add b := by
  rw [addMask, InstructionMask.insertions]
  cases m.numInstructions with
  | none => rfl
  | some n =>
    rw [Option.map_some, Option.map_some, Option.getD_some, List.foldl_map]

/-- The loop of `add(InstructionMask)` inserts the members of the pattern and nothing else. -/
theorem addMask_spec (h : m.numDontCares ≤ 31) (b : Blacklist) :
    ∃ b', b.addMask m = some b' ∧
      ∀ k, b'.search k = true ↔ k ∈ m.pattern ∨ b.search k = true := by
  rw [addMask_eq b m 0, m.numInstructions_eq h]
  refine ⟨_, rfl, fun k => ?_⟩
  rw [search_foldl_add, InstructionMask.insertions_eq h, List.mem_map]
  refine or_congr_left ⟨fun ⟨i, _, hk⟩ => hk ▸ (m.fillDontCares_deposit _).mem, fun hk => ?_⟩
  obtain ⟨i, hi, hdep⟩ := Pattern.exists_deposit hk
  have := m.fillDontCares_deposit (BitVec.ofNat 32 i)
  rw [InstructionMask.toNat_counter h hi] at this
  exact ⟨i, List.mem_range.2 hi, this.unique hdep⟩

/-- The calls that the class defines. -/
def Allowed : Add → Prop
  | .instr _ => True
  | .mask m => m.numDontCares ≤ 31

theorem call_spec (h : Allowed a) (hb : Lists (search b) ps) :
    ∃ b', b.call a = some b' ∧ Lists b'.search (ps ++ [a.pattern]) := by
  cases a with
  | instr k =>
    refine ⟨_, rfl, hb.snoc fun x => ?_⟩
    rw [search_add, Bool.or_eq_true, beq_iff_eq]
    exact or_congr_left Pattern.mem_zero.symm
  | mask m =>
    obtain ⟨b', hb', hspec⟩ := addMask_spec h b
    exact ⟨b', hb', hb.snoc hspec⟩

/-- A run of calls stores the patterns of all of them. -/
theorem calls_spec {calls : List Add} (h : ∀ a ∈ calls, Allowed a) (hb : Lists (search b) ps) :
    ∃ b', calls.foldlM call b = some b' ∧ Lists b'.search (ps ++ calls.map Add.pattern) := by
  induction calls generalizing b ps with
  | nil => exact ⟨b, rfl, by simpa using hb⟩
  | cons a calls ih =>
    obtain ⟨ha, hcalls⟩ := List.forall_mem_cons.1 h
    obtain ⟨b₁, h₁, hb₁⟩ := call_spec ha hb
    obtain ⟨b₂, h₂, hb₂⟩ := ih hcalls hb₁
    refine ⟨b₂, ?_, ?_⟩
    · rw [List.foldlM_cons, h₁]
      exact h₂
    · rw [List.map_cons, List.append_cons]
      exact hb₂

/-- The constructor is a run of calls. -/
theorem ofList_eq {startList : List InstructionMask} :
    ofList startList = (startList.map Add.mask).foldlM call ⟨[]⟩ := by
  rw [ofList, List.foldlM_map]
  rfl

theorem ofList_spec {startList : List InstructionMask} (h : ∀ m ∈ startList, m.numDontCares ≤ 31) :
    ∃ b, ofList startList = some b ∧ Lists b.search (startList.map (·.pattern)) := by
  have hallowed : ∀ a ∈ startList.map Add.mask, Allowed a := by
    intro a ha
    obtain ⟨m, hm, rfl⟩ := List.mem_map.1 ha
    exact h m hm
  obtain ⟨b, hb, hlists⟩ := calls_spec (b := ⟨[]⟩) hallowed .nil
  rw [List.map_map] at hlists
  exact ⟨b, ofList_eq.trans hb, hlists⟩

end Blacklist

namespace LowMemoryBlacklist

theorem search_addMask_iff {b : LowMemoryBlacklist} :
    (b.addMask m).search k = true ↔ k ∈ m.pattern ∨ b.search k = true := by
  rw [search_addMask, Bool.or_eq_true, beq_iff_eq, Pattern.mem_iff]
  rfl

theorem call_spec (hb : Lists (search b) ps) : Lists (b.call a).search (ps ++ [a.pattern]) := by
  cases a with
  | instr k => exact hb.snoc fun x => search_addMask_iff
  | mask m => exact hb.snoc fun x => search_addMask_iff

theorem calls_spec (calls : List Add) (hb : Lists (search b) ps) :
    Lists (calls.foldl call b).search (ps ++ calls.map Add.pattern) := by
  induction calls generalizing b ps with
  | nil => simpa using hb
  | cons a calls ih =>
    rw [List.foldl_cons, List.map_cons, List.append_cons]
    exact ih (call_spec hb)

theorem ofList_eq {startList : List InstructionMask} :
    ofList startList = (startList.map Add.mask).foldl call ⟨[]⟩ := by
  rw [ofList, List.foldl_map]
  rfl

theorem ofList_spec (startList : List InstructionMask) :
    Lists (ofList startList).search (startList.map InstructionMask.pattern) := by
  have hempty : Lists (search ⟨[]⟩) [] := .nil
  have := calls_spec (startList.map Add.mask) hempty
  rwa [← ofList_eq, List.nil_append, List.map_map] at this

end LowMemoryBlacklist

/-- The two classes answer alike whatever they are built from and whatever is added later: `true`
exactly for the words that agree with some entry on all of its care bits. -/
theorem search_interchangeable (startList : List InstructionMask) (calls : List Add)
    (hstart : ∀ m ∈ startList, m.numDontCares ≤ 31)
    (hcalls : ∀ m, Add.mask m ∈ calls → m.numDontCares ≤ 31) :
    ∃ b, (Blacklist.ofList startList).bind (calls.foldlM Blacklist.call) = some b ∧
      ∀ k, b.search k = (calls.foldl .call (LowMemoryBlacklist.ofList startList)).search k ∧
        (b.search k = true ↔
          (∃ m ∈ startList, k ∈ m.pattern) ∨ ∃ a ∈ calls, k ∈ a.pattern) := by
  have hallowed : ∀ a ∈ calls, Blacklist.Allowed a := by
    intro a ha
    cases a with
    | instr k => trivial
    | mask m => exact hcalls m ha
  obtain ⟨b₁, h₁, hb₁⟩ := Blacklist.ofList_spec hstart
  obtain ⟨b₂, h₂, hb₂⟩ := Blacklist.calls_spec hallowed hb₁
  have hlow := LowMemoryBlacklist.calls_spec calls (LowMemoryBlacklist.ofList_spec startList)
  refine ⟨b₂, ?_, fun k => ⟨hb₂.unique hlow k, ?_⟩⟩
  · rw [h₁]
    exact h₂
  · rw [hb₂ k]
    simp [Add.pattern, or_and_right, exists_or]

/-- The blacklist of `arch/RV64G`, a word, and a mask with gaps, bit 31 free and value bits under
the free ones. -/
theorem search_interchangeable_gaps :
    ∃ b, (Blacklist.ofList [⟨0b100010111, 0xFFFFF000⟩]).bind
        ([.instr 0, .mask ⟨0xFFFFFFFF, 0x80000110⟩].foldlM Blacklist.call) = some b ∧
      b.search 0x7FFFFEEF = true ∧ b.search 0x7FFFFEEE = false := by
  obtain ⟨b, hb, h⟩ := search_interchangeable [⟨0b100010111, 0xFFFFF000⟩]
    [.instr 0, .mask ⟨0xFFFFFFFF, 0x80000110⟩] (by decide) (by simp; decide)
  refine ⟨b, hb, ?_, ?_⟩
  · rw [(h _).1]
    decide
  · rw [(h _).1]
    decide

end IScanU
