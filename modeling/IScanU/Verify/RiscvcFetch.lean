import IScanU.RV64GC
import IScanU.Verify.Exhaustive

/-! # The fetch stage for compressed instructions

`riscvcOnlyFetch` yields the first word after the current one that is neither blacklisted nor the
beginning of a full-size instruction, as long as it does not lie beyond `lastExamined`. That is the
final instruction, or the word after it when the final instruction is one that is skipped; the
bound is tested only on blacklisted words. -/

namespace IScanU.RV64GC

/-- What is passed over: blacklisted words and beginnings of full-size instructions. -/
def skipped (search : InstrT → Bool) (w : InstrT) : Bool := search w || w &&& 0b11 == 0b11

theorem skipped_of_low {search : InstrT → Bool} {w : InstrT} (h : w &&& 0b11 = 0b11) :
    skipped search w = true := by
  rw [skipped, h, beq_self_eq_true, Bool.or_true]

theorem skipped_of_not_low {search : InstrT → Bool} {w : InstrT} (h : ¬ w &&& 0b11 = 0b11) :
    skipped search w = search w := by
  rw [skipped, beq_eq_false_iff_ne.2 h, Bool.or_false]

theorem skipped_iff {search : InstrT → Bool} {w : InstrT} :
    skipped search w = true ↔ search w = true ∨ w &&& 0b11 = 0b11 := by
  rw [skipped, Bool.or_eq_true, beq_iff_eq]

theorem skipped_eq_false {search : InstrT → Bool} {w : InstrT} :
    skipped search w = false ↔ search w = false ∧ w &&& 0b11 ≠ 0b11 := by
  rw [skipped, Bool.or_eq_false_iff, beq_eq_false_iff_ne]

/-- The last word that may be tested against the blacklist. -/
def lastExamined (final : InstrT) : InstrT := if final &&& 0b11 = 0b11 then final + 1#32 else final

theorem low_bits_iff {w : InstrT} : w &&& 0b11 = 0b11 ↔ w.toNat % 4 = 3 := by
  have hand : (w &&& 0b11).toNat = w.toNat % 4 := by
    rw [BitVec.toNat_and]
    exact Nat.and_two_pow_sub_one_eq_mod w.toNat 2
  rw [← BitVec.toNat_inj, hand]
  exact Iff.rfl

section
variable {search : InstrT → Bool} {final t : InstrT}

theorem lastExamined_low (final : InstrT) : ¬ lastExamined final &&& 0b11 = 0b11 := by
  rw [lastExamined]
  split
  case isTrue h =>
    rw [low_bits_iff] at h ⊢
    rw [BitVec.toNat_add, BitVec.toNat_one (by decide)]
    omega
  case isFalse h => exact h

theorem le_lastExamined (hfinal : final.toNat < 2 ^ 16) :
    final.toNat ≤ (lastExamined final).toNat ∧ (lastExamined final).toNat ≤ final.toNat + 1 := by
  rw [lastExamined]
  split
  · rw [BitVec.toNat_add, BitVec.toNat_one (by decide)]
    omega
  · omega

/-- A word that the loop tests and that is not below the final instruction is the last one. -/
theorem eq_lastExamined (hfinal : final.toNat < 2 ^ 16) (ht : ¬ t &&& 0b11 = 0b11)
    (hle : t ≤ lastExamined final) (hge : final ≤ t) : t = lastExamined final := by
  apply BitVec.eq_of_toNat_eq
  rw [BitVec.le_def] at hle hge
  rw [lastExamined] at hle ⊢
  split at hle
  case isTrue h =>
    rw [if_pos h]
    rw [low_bits_iff] at h ht
    rw [BitVec.toNat_add, BitVec.toNat_one (by decide)] at hle ⊢
    omega
  case isFalse h =>
    rw [if_neg h]
    omega

/-- Passing over the beginning of a full-size instruction does not change what comes first. -/
theorem head?_skipFullSize (search : InstrT → Bool) (data : Scanner) (ht : t ≤ lastExamined final) :
    ∃ t' k, skipFullSize t data = (t', data.count k) ∧ t ≤ t' ∧ t' ≤ lastExamined final ∧
      ¬ t' &&& 0b11 = 0b11 ∧
      ((Cyclic.icc t' (lastExamined final)).filter (!skipped search ·)).head? =
        ((Cyclic.icc t (lastExamined final)).filter (!skipped search ·)).head? := by
  rw [skipFullSize]
  split
  case isTrue h =>
    have hne : t ≠ lastExamined final := by
      rintro rfl
      exact lastExamined_low final h
    have hlt := Cyclic.lt_of_le_of_ne ht hne
    have hsucc := Cyclic.toNat_succ_of_lt hlt
    refine ⟨_, 1, rfl, ?_, Cyclic.succ_le_of_lt hlt, ?_, ?_⟩
    · rw [BitVec.le_def, hsucc]
      exact Nat.le_succ _
    · rw [low_bits_iff] at h ⊢
      omega
    · rw [Cyclic.icc_eq_cons t, Cyclic.ioc_of_ne hne, List.filter_cons, skipped_of_low h]
      rfl
  case isFalse h => exact ⟨_, 0, rfl, BitVec.le_refl _, ht, h, rfl⟩

/-- The loop, from a word that is not the beginning of a full-size instruction. -/
theorem riscvcOnlyLoop_eq (hfinal : final.toNat < 2 ^ 16) {data : Scanner}
    (hdata : data.finalInstruction = final) (ht : ¬ t &&& 0b11 = 0b11)
    (hle : t ≤ lastExamined final) :
    ∃ k, ∀ n, (lastExamined final).toNat - t.toNat < n → riscvcOnlyLoop search n t data =
      some (((Cyclic.icc t (lastExamined final)).filter (!skipped search ·)).head?,
        data.count k) := by
  induction hd : (lastExamined final).toNat - t.toNat using Nat.strong_induction_on
    generalizing t data with
  | _ d ih =>
    rw [Cyclic.icc_eq_cons, List.filter_cons, skipped_of_not_low ht]
    cases hs : search t with
    | false =>
      refine ⟨0, fun n hn => ?_⟩
      obtain ⟨n, rfl⟩ := Nat.exists_eq_succ_of_ne_zero (Nat.ne_of_gt (Nat.zero_lt_of_lt hn))
      rw [riscvcOnlyLoop, hs]
      rfl
    | true =>
      by_cases hge : final ≤ t
      · -- The last word is blacklisted.
        obtain rfl := eq_lastExamined hfinal ht hle hge
        refine ⟨0, fun n hn => ?_⟩
        obtain ⟨n, rfl⟩ := Nat.exists_eq_succ_of_ne_zero (Nat.ne_of_gt (Nat.zero_lt_of_lt hn))
        rw [riscvcOnlyLoop, hs, if_pos rfl, hdata, if_pos hge, Cyclic.ioc_self]
        rfl
      · have hlt : t < lastExamined final := by
          have := (le_lastExamined hfinal).1
          rw [BitVec.not_le, BitVec.lt_def] at hge
          rw [BitVec.lt_def]
          omega
        have hne : t ≠ lastExamined final := by
          rintro rfl
          exact BitVec.lt_irrefl _ hlt
        have hsucc := Cyclic.toNat_succ_of_lt hlt
        obtain ⟨t', k, hskip, hle₁, hle₂, hlow, hhead⟩ := head?_skipFullSize search
          (data.count 1) (Cyclic.succ_le_of_lt hlt)
        have hless : (lastExamined final).toNat - t'.toNat < d := by
          rw [BitVec.le_def, hsucc] at hle₁
          rw [BitVec.lt_def] at hlt
          omega
        have hdata' : ((data.count 1).count k).finalInstruction = final := hdata
        obtain ⟨k', hk'⟩ := ih _ hless hdata' hlow hle₂ rfl
        refine ⟨1 + k + k', fun n hn => ?_⟩
        obtain ⟨n, rfl⟩ := Nat.exists_eq_succ_of_ne_zero (Nat.ne_of_gt (Nat.zero_lt_of_lt hn))
        rw [riscvcOnlyLoop, hs, if_pos rfl, hdata, if_neg hge, hskip]
        simp only [Bool.not_true, Bool.false_eq_true, if_false]
        rw [hk' n (by omega), hhead, Cyclic.ioc_of_ne hne]
        simp [Nat.add_assoc]

end

/-- The spec of `riscvcOnlyFetch`: what is pending after the current instruction, up to the last
word examined, when nothing is handed out that is skipped. -/
theorem riscvcOnlyFetch_eq (search : InstrT → Bool) (data : Scanner)
    (hlt : data.currentInstruction < data.finalInstruction)
    (hfinal : data.finalInstruction.toNat < 2 ^ 16) :
    ∃ k, ∀ n, 2 ^ 16 < n → riscvcOnlyFetch search n data =
      some ((pending (skipped search) data.currentInstruction
        (lastExamined data.finalInstruction)).head?, data.count k) := by
  have hlast := le_lastExamined hfinal
  have hlt' : data.currentInstruction < lastExamined data.finalInstruction := by
    rw [BitVec.lt_def] at hlt ⊢
    omega
  have hne : data.currentInstruction ≠ lastExamined data.finalInstruction := by
    intro h
    exact BitVec.lt_irrefl _ (h ▸ hlt')
  obtain ⟨t, k, hskip, _, hle, hlow, hhead⟩ := head?_skipFullSize search data
    (Cyclic.succ_le_of_lt hlt')
  obtain ⟨k', hk'⟩ := riscvcOnlyLoop_eq hfinal (data.count_finalInstruction k) hlow hle
  refine ⟨k + k', fun n hn => ?_⟩
  rw [riscvcOnlyFetch, if_neg (BitVec.not_le.2 hlt), hskip]
  simp only []
  rw [hk' n (by omega), hhead, Scanner.count_count, pending, Cyclic.ioc_of_ne hne]

/-- The law of the next parcel: finished when everything up to the final instruction is skipped,
and otherwise on to the least word that is not. -/
structure NextParcel (search : InstrT → Bool) (current final : InstrT) (result : Option InstrT) :
    Prop where
  finished : result = none ↔
    ∀ w, current < w → w ≤ final → search w = true ∨ w &&& 0b11 = 0b11
  least : ∀ q, result = some q →
    (current < q ∧ q ≤ final ∧ search q = false ∧ q &&& 0b11 ≠ 0b11) ∧
      ∀ w, current < w → w ≤ final → search w = false → w &&& 0b11 ≠ 0b11 → q ≤ w

theorem nextParcel_pending (search : InstrT → Bool) {current final : InstrT} (h : current ≤ final) :
    NextParcel search current final (pending (skipped search) current final).head? where
  finished := by
    refine ⟨fun hq w hw hw' => skipped_iff.1 (search_of_head?_pending h hq w hw hw'), fun hall => ?_⟩
    rw [List.head?_eq_none_iff, pending, List.filter_eq_nil_iff]
    intro w hw
    obtain ⟨h1, h2⟩ := (Cyclic.mem_ioc_of_le h).1 hw
    simpa using skipped_iff.2 (hall w h1 h2)
  least q hq := by
    obtain ⟨⟨h1, h2, h3⟩, hleast⟩ := le_of_head?_pending h hq
    refine ⟨⟨h1, h2, skipped_eq_false.1 h3⟩, fun w hw hw' hs hlow => ?_⟩
    exact hleast w hw hw' (skipped_eq_false.2 ⟨hs, hlow⟩)

/-- Only one word can be yielded, or none. -/
theorem NextParcel.unique {search : InstrT → Bool} {current final : InstrT}
    {result result' : Option InstrT} (h : NextParcel search current final result)
    (h' : NextParcel search current final result') : result = result' := by
  cases result with
  | none => exact (h'.finished.2 (h.finished.1 rfl)).symm
  | some q =>
    obtain ⟨⟨h1, h2, h3, h4⟩, hleast⟩ := h.least q rfl
    cases result' with
    | none =>
      rcases h'.finished.1 rfl q h1 h2 with hs | hlow
      · rw [h3] at hs
        cases hs
      · exact absurd hlow h4
    | some q' =>
      obtain ⟨⟨h1', h2', h3', h4'⟩, hleast'⟩ := h'.least q' rfl
      rw [BitVec.le_antisymm (hleast q' h1' h2' h3' h4') (hleast' q h1 h2 h3 h4)]

/-- One more word at the end matters only when everything before it is skipped. -/
theorem head?_pending_succ {search : InstrT → Bool} {current final : InstrT}
    (h : current ≤ final) (hfinal : final.toNat < 2 ^ 16) :
    (pending (skipped search) current (final + 1#32)).head? =
        (pending (skipped search) current final).head? ↔
      (∃ w, current < w ∧ w ≤ final ∧ skipped search w = false) ∨
        skipped search (final + 1#32) = true := by
  have hne : final + 1#32 ≠ current := by
    rintro rfl
    rw [BitVec.le_def, BitVec.toNat_add, BitVec.toNat_one (by decide)] at h
    omega
  rw [pending, Cyclic.ioc_succ hne, List.filter_append, List.head?_append]
  change Option.or (pending (skipped search) current final).head? _ = _ ↔ _
  cases hq : (pending (skipped search) current final).head? with
  | some q =>
    obtain ⟨hw, _⟩ := le_of_head?_pending h hq
    exact iff_of_true rfl (.inl ⟨q, hw⟩)
  | none =>
    have hall := search_of_head?_pending h hq
    rw [Option.none_or]
    cases hs : skipped search (final + 1#32) with
    | true => simp [hs]
    | false =>
      refine iff_of_false (by simp [hs]) ?_
      rintro (⟨w, h1, h2, h3⟩ | h3)
      · rw [hall w h1 h2] at h3
        cases h3
      · cases h3

/-- On a range of parcels `riscvcOnlyFetch` always returns. What it returns is lawful, unless
everything up to the final instruction is skipped, the final instruction is itself the beginning of
a full-size one, and the word behind it is not blacklisted: that word is then yielded. -/
theorem riscvcOnlyFetch_lawful_iff (search : InstrT → Bool) (data : Scanner)
    (hlt : data.currentInstruction < data.finalInstruction)
    (hfinal : data.finalInstruction ≤ 0xFFFF) :
    ∃ n result data', (∀ m, n ≤ m → riscvcOnlyFetch search m data = some (result, data')) ∧
      (NextParcel search data.currentInstruction data.finalInstruction result ↔
        (∃ w, data.currentInstruction < w ∧ w ≤ data.finalInstruction ∧ search w = false ∧
          w &&& 0b11 ≠ 0b11) ∨
        data.finalInstruction &&& 0b11 ≠ 0b11 ∨ search (data.finalInstruction + 1) = true) := by
  have hfinal : data.finalInstruction.toNat < 2 ^ 16 := Nat.lt_succ_of_le hfinal
  obtain ⟨k, hk⟩ := riscvcOnlyFetch_eq search data hlt hfinal
  have hle := BitVec.le_of_lt hlt
  refine ⟨2 ^ 16 + 1, _, _, fun m hm => hk m hm, ?_⟩
  have hlaw := nextParcel_pending search hle
  have hiff : ∀ result, NextParcel search data.currentInstruction data.finalInstruction result ↔
      result = (pending (skipped search) data.currentInstruction data.finalInstruction).head? :=
    fun result => ⟨fun h => h.unique hlaw, fun h => h ▸ hlaw⟩
  rw [hiff, lastExamined]
  split
  case isTrue hlow =>
    have hsucc : ¬ (data.finalInstruction + 1#32) &&& 0b11 = 0b11 := by
      have := lastExamined_low data.finalInstruction
      rwa [lastExamined, if_pos hlow] at this
    rw [head?_pending_succ hle hfinal, skipped_of_not_low hsucc]
    simp only [skipped_eq_false, ne_eq, hlow, not_true_eq_false, false_or]
    rfl
  case isFalse hlow => exact iff_of_true rfl (.inr (.inl hlow))

/-- A worker on the parcels from `current` to `final`. -/
def parcelWorker (current final : InstrT) : Scanner :=
  { Scanner.zero with currentInstruction := current, finalInstruction := final }

/-- From 0x12 the stage goes on to 0x14, past the beginning of a full-size instruction. -/
theorem riscvcOnlyFetch_lawful_parcel : ∃ n result data',
    (∀ m, n ≤ m →
      riscvcOnlyFetch blacklist.search m (parcelWorker 0x12 0x15) = some (result, data')) ∧
    NextParcel blacklist.search 0x12 0x15 result := by
  obtain ⟨n, result, data', hrun, hlaw⟩ :=
    riscvcOnlyFetch_lawful_iff blacklist.search (parcelWorker 0x12 0x15) (by decide) (by decide)
  exact ⟨n, result, data', hrun, hlaw.2 (.inr (.inl (by decide)))⟩

/-- The range ends with the beginning of a full-size instruction: 4 is yielded, beyond 3. -/
theorem riscvcOnlyFetch_beyond_final :
    ∃ data', riscvcOnlyFetch blacklist.search 1 (parcelWorker 2 3) = some (some 4, data') ∧
      ¬ NextParcel blacklist.search 2 3 (some 4) := by
  refine ⟨_, rfl, fun h => ?_⟩
  have hle := (h.least 4 rfl).1.2.1
  exact absurd hle (by decide)

end IScanU.RV64GC
