import IScanU.Formatter
import IScanU.Theory.Pattern

/-! # Formats

A formatter stands for a pattern: the bits of its fields are free, the others are those of the
sample. The fields are read back from their declarations (`addField_text`), and what the formatter
accepts depends on neither their order nor the bits of the sample under them. -/

namespace IScanU

/-! ## Declarations -/

/-- What a well-formed argument of `addField` says. -/
structure Decl where
  name : String
  shift : Text.Numeral
  len : Text.Numeral
  name_blank : ' ' ∉ name.toList
  len_pos : 1 ≤ len.value
  len_lt : len.value ≤ 31
  fits : shift.value + len.value ≤ 32

namespace Decl

def text (d : Decl) : String :=
  String.ofList (d.name.toList ++ ' ' :: (d.shift.digits ++ ' ' :: d.len.digits))

/-- Position `i` is in the field. -/
def Covers (d : Decl) (i : Nat) : Prop := d.shift.value ≤ i ∧ i < d.shift.value + d.len.value

instance {d : Decl} : Decidable (d.Covers i) := inferInstanceAs (Decidable (_ ∧ _))

/-- The number that the field holds in `w`. -/
def value (d : Decl) (w : InstrT) : InstrT :=
  BitVec.ofNat 32 (w.toNat / 2 ^ d.shift.value % 2 ^ d.len.value)

def field (d : Decl) : Field where
  mask := Pattern.field 32 d.shift.value d.len.value
  shift := BitVec.ofNat 32 d.shift.value

def entry (d : Decl) : String × Field := (d.name, d.field)

theorem shift_lt (d : Decl) : d.shift.value < 32 := by
  have := d.len_pos
  have := d.fits
  omega

end Decl

/-- The values of the declared fields in `w`. -/
def fieldValues (decls : List Decl) (w : InstrT) (name : String) : Option InstrT :=
  (decls.find? (·.name == name)).map (·.value w)

/-- `w` differs from the sample in bits of declared fields only. -/
def SameForm (decls : List Decl) (sample w : InstrT) : Prop :=
  ∀ i < 32, w.getLsbD i ≠ sample.getLsbD i → ∃ d ∈ decls, d.Covers i

/-- The rule has a value as soon as the named fields have one. -/
def Rule.Over (rule : Rule) (names : List String) : Prop :=
  ∀ get, (∀ name ∈ names, (get name).isSome) → (rule get).isSome

namespace Rule.Over

theorem mono {rule : Rule} (h : rule.Over names) (hsub : ∀ n ∈ names, n ∈ names') :
    rule.Over names' :=
  fun get hget => h get fun name hname => hget name (hsub name hname)

theorem and {rule rule' : Rule} (h : rule.Over names) (h' : rule'.Over names) :
    Rule.Over (fun get => rule get <&&> rule' get) names := by
  intro get hget
  obtain ⟨b, hb⟩ := Option.isSome_iff_exists.1 (h get hget)
  change (rule get <&&> rule' get).isSome
  rw [hb]
  cases b with
  | true => exact h' get hget
  | false => rfl

theorem or {rule rule' : Rule} (h : rule.Over names) (h' : rule'.Over names) :
    Rule.Over (fun get => rule get <||> rule' get) names := by
  intro get hget
  obtain ⟨b, hb⟩ := Option.isSome_iff_exists.1 (h get hget)
  change (rule get <||> rule' get).isSome
  rw [hb]
  cases b with
  | true => rfl
  | false => exact h' get hget

/-- A condition on one field. -/
theorem field (p : InstrT → Bool) (h : name ∈ names) :
    Rule.Over (fun get => return p (← get name)) names := by
  intro get hget
  obtain ⟨v, hv⟩ := Option.isSome_iff_exists.1 (hget name h)
  simp [hv]

/-- A condition on two fields. -/
theorem fields (p : InstrT → InstrT → Bool) (ha : a ∈ names) (hb : b ∈ names) :
    Rule.Over (fun get => return p (← get a) (← get b)) names := by
  intro get hget
  obtain ⟨v, hv⟩ := Option.isSome_iff_exists.1 (hget a ha)
  obtain ⟨w, hw⟩ := Option.isSome_iff_exists.1 (hget b hb)
  simp [hv, hw]

end Rule.Over

/-! ## `addField` -/

theorem findIdx?_blank {l : List Char} (h : ' ' ∉ l) :
    (l ++ ' ' :: r).findIdx? (· == ' ') = some l.length := by
  rw [List.findIdx?_eq_some_of_exists ⟨' ', by simp, by decide⟩]
  change some (List.idxOf ' ' _) = _
  rw [List.idxOf_append_of_notMem h, List.idxOf_cons_self, Nat.add_zero]

theorem findIdx_reverse_blank {r : List Char} (h : ' ' ∉ r) :
    (l ++ ' ' :: r).reverse.findIdx (· == ' ') = r.length := by
  have hr : ' ' ∉ r.reverse := by rwa [List.mem_reverse]
  change List.idxOf ' ' _ = _
  rw [List.reverse_append, List.reverse_cons, List.append_assoc, List.idxOf_append_of_notMem hr,
    List.singleton_append, List.idxOf_cons_self, Nat.add_zero, List.length_reverse]

theorem fieldMask_eq (hlen : len < 32) (hshift : shift < 32) :
    Formatter.fieldMask (BitVec.ofNat 32 len) (BitVec.ofNat 32 shift) =
      some (Pattern.field 32 shift len) := by
  have hl : (BitVec.ofNat 32 len).toNat = len := Nat.mod_eq_of_lt (by omega)
  have hs : (BitVec.ofNat 32 shift).toNat = shift := Nat.mod_eq_of_lt (by omega)
  have hpow : 2 ^ len < 2 ^ 32 := Nat.pow_lt_pow_right (by decide) hlen
  have hone : 1#32 <<< BitVec.ofNat 32 len - 1 = BitVec.ofNat 32 (2 ^ len - 1) := by
    apply BitVec.eq_of_toNat_eq
    have := Nat.two_pow_pos len
    rw [BitVec.shiftLeft_eq', hl, ← BitVec.twoPow_eq, BitVec.toNat_sub_of_le,
      BitVec.toNat_twoPow_of_lt hlen, BitVec.toNat_ofNat, Nat.mod_eq_of_lt (by omega)]
    · rfl
    · rw [BitVec.le_def, BitVec.toNat_twoPow_of_lt hlen]
      exact this
  rw [Formatter.fieldMask, if_pos, hone, BitVec.shiftLeft_eq', hs]
  · congr 1
    apply BitVec.eq_of_toNat_eq
    rw [Pattern.field, BitVec.toNat_shiftLeft, BitVec.toNat_ofNat, BitVec.toNat_ofNat,
      Nat.mod_eq_of_lt (by omega : 2 ^ len - 1 < 2 ^ 32)]
  · rw [BitVec.lt_def, BitVec.lt_def, hl, hs]
    exact ⟨hlen, hshift⟩

namespace Formatter

variable {f : Formatter} {rules : List Rule} {decls : List Decl}

/-- A declaration is read back. -/
theorem addField_text (d : Decl) : f.addField d.text = some (f.insert d.name d.field) := by
  have hlen := d.len_lt
  have hfits := d.fits
  have hstoi := Text.stoi_numeral d.len (by omega) (s := []) nofun
  have hstoi' := Text.stoi_numeral d.shift (by omega) (s := [' ']) (by simp)
  have hblank : ' ' ∉ d.len.digits := d.len.not_mem rfl
  rw [List.append_nil] at hstoi
  have hrev := findIdx_reverse_blank (l := d.name.toList ++ ' ' :: d.shift.digits) hblank
  rw [List.append_assoc, List.cons_append] at hrev
  have hsplit2 : (d.name.toList ++ ' ' :: (d.shift.digits ++ ' ' :: d.len.digits)).length - 1 -
      d.len.digits.length = d.name.toList.length + (d.shift.digits.length + 1) := by
    simp only [List.length_append, List.length_cons]
    omega
  -- The string for the shift keeps the blank behind it.
  have hshift : ((d.name.toList ++ ' ' :: (d.shift.digits ++ ' ' :: d.len.digits)).drop
      (d.name.toList.length + 1)).take (d.shift.digits.length + 1) = d.shift.digits ++ [' '] := by
    rw [List.drop_length_add_append, List.drop_succ_cons, List.drop_zero,
      List.take_length_add_append, List.take_succ_cons, List.take_zero]
  have hlen' : (d.name.toList ++ ' ' :: (d.shift.digits ++ ' ' :: d.len.digits)).drop
      (d.name.toList.length + (d.shift.digits.length + 1) + 1) = d.len.digits := by
    rw [Nat.add_assoc, List.drop_length_add_append, List.drop_succ_cons,
      List.drop_length_add_append, List.drop_succ_cons, List.drop_zero]
  simp only [addField, Decl.text, String.toList_ofList, findIdx?_blank d.name_blank, hrev, hsplit2,
    Nat.add_sub_cancel_left, hshift, hlen', hstoi, hstoi', Option.bind_eq_bind, Option.bind_some,
    List.take_left, String.ofList_toList, BitVec.ofInt_natCast,
    fieldMask_eq (by omega : d.len.value < 32) d.shift_lt]
  rfl

theorem lookup_entries (decls : List Decl) (name : String) :
    (decls.map Decl.entry).lookup name = (decls.find? (·.name == name)).map Decl.field := by
  induction decls with
  | nil => rfl
  | cons d decls ih =>
    rw [List.map_cons, Decl.entry, List.lookup_cons, List.find?_cons, BEq.comm]
    cases d.name == name with
    | true => rfl
    | false => exact ih

/-- Fields with new names are added behind the old ones. -/
theorem foldlM_addField {decls : List Decl}
    (h : (f.fieldMap.map Prod.fst ++ decls.map Decl.name).Nodup) :
    (decls.map Decl.text).foldlM addField f =
      some { f with fieldMap := f.fieldMap ++ decls.map Decl.entry } := by
  induction decls generalizing f with
  | nil => simp
  | cons d decls ih =>
    have hnew : f.fieldMap.lookup d.name = none := by
      rw [List.lookup_eq_none_iff]
      intro p hp
      rw [bne_iff_ne]
      rintro heq
      have := (List.nodup_append.1 h).2.2 p.1 (List.mem_map_of_mem hp) d.name (by simp)
      exact this heq.symm
    have hinsert : f.insert d.name d.field =
        { f with fieldMap := f.fieldMap ++ [d.entry] } := by
      rw [insert, hnew]
      rfl
    rw [List.map_cons, List.foldlM_cons, addField_text, hinsert, Option.bind_eq_bind,
      Option.bind_some, ih]
    · simp
    · simpa [Decl.entry] using h

/-! ## The form -/

/-- The bits under declared fields. -/
def freeBits (decls : List Decl) : InstrT := decls.foldr (fun d m => d.field.mask ||| m) 0

theorem getLsbD_freeBits (hi : i < 32) :
    (freeBits decls).getLsbD i = decls.any fun d => d.Covers i := by
  induction decls with
  | nil => simp [freeBits]
  | cons d decls ih =>
    rw [freeBits, List.foldr_cons, ← freeBits, BitVec.getLsbD_or, ih, List.any_cons, Decl.field,
      Pattern.getLsbD_field hi]
    rfl

theorem significantMask_eq (decls : List Decl) (m : InstrT) :
    (decls.map Decl.entry).foldl (fun m field => m &&& ~~~field.2.mask) m =
      m &&& ~~~freeBits decls := by
  induction decls generalizing m with
  | nil =>
    change m = m &&& BitVec.allOnes 32
    rw [BitVec.and_allOnes]
  | cons d decls ih =>
    rw [List.map_cons, List.foldl_cons, ih, BitVec.and_assoc, ← BitVec.not_or]
    rfl

/-- The words of the form. -/
def form (decls : List Decl) (sample : InstrT) : Pattern 32 := ⟨sample, freeBits decls⟩

theorem mem_form_iff : w ∈ form decls sample ↔ SameForm decls sample w := by
  refine ⟨fun h i hi hne => ?_, fun h i hi hfree => ?_⟩
  · have : (freeBits decls).getLsbD i ≠ false := fun hf => hne (h i hi hf)
    rw [getLsbD_freeBits hi] at this
    simpa using this
  · by_contra hne
    obtain ⟨d, hd, hc⟩ := h i hi hne
    have hfree : (freeBits decls).getLsbD i = false := hfree
    rw [getLsbD_freeBits hi, List.any_eq_false] at hfree
    exact hfree d hd (decide_eq_true hc)

/-- What `initFormatters` builds from declarations. -/
def ofDecls (rules : List Rule) (decls : List Decl) (sample : InstrT) : Formatter where
  rules := rules
  fieldMap := decls.map Decl.entry
  significantMask := some (~~~freeBits decls)
  fixedForm := some (sample &&& ~~~freeBits decls)

theorem create_eq (h : (decls.map Decl.name).Nodup) :
    create ⟨rules, decls.map Decl.text, sample⟩ = some (ofDecls rules decls sample) := by
  have hones : (-1 : InstrT) = BitVec.allOnes 32 := by decide
  have hmask := significantMask_eq decls (-1)
  rw [hones, BitVec.allOnes_and] at hmask
  rw [create, foldlM_addField (by simpa using h)]
  simp only [Option.bind_eq_bind, Option.bind_some, List.nil_append, finish, ofDecls, hones, hmask]
  rfl

/-! ## `extractField` -/

theorem extractField_ofDecls :
    (ofDecls rules decls sample).extractField name w = fieldValues decls w name := by
  rw [extractField, ofDecls, lookup_entries, fieldValues, Option.map_map]
  congr 1
  funext d
  have hs : (BitVec.ofNat 32 d.shift.value).toNat = d.shift.value :=
    Nat.mod_eq_of_lt (by have := d.shift_lt; omega)
  have hlt : w.toNat / 2 ^ d.shift.value % 2 ^ d.len.value < 2 ^ 32 := by
    have := d.len_lt
    have hpow : 2 ^ d.len.value < 2 ^ 32 := Nat.pow_lt_pow_right (by decide) (by omega)
    exact Nat.lt_trans (Nat.mod_lt _ (Nat.two_pow_pos _)) hpow
  apply BitVec.eq_of_toNat_eq
  rw [Function.comp_apply, Decl.field, BitVec.ushiftRight_eq', hs, BitVec.toNat_ushiftRight,
    Pattern.toNat_and_field, Nat.shiftRight_eq_div_pow, Nat.shiftRight_eq_div_pow,
    Nat.mul_div_cancel _ (Nat.two_pow_pos _), Decl.value, BitVec.toNat_ofNat,
    Nat.mod_eq_of_lt hlt]

theorem fieldValues_eq_some_iff (h : (decls.map Decl.name).Nodup) :
    fieldValues decls w name = some v ↔ ∃ d ∈ decls, d.name = name ∧ d.value w = v := by
  induction decls with
  | nil => simp [fieldValues]
  | cons d decls ih =>
    rw [List.map_cons, List.nodup_cons] at h
    rw [fieldValues, List.find?_cons]
    by_cases hd : d.name = name
    · have hnot : ∀ d' ∈ decls, d'.name ≠ name := by
        rintro d' hd' rfl
        exact h.1 (hd ▸ List.mem_map_of_mem hd')
      simpa [hd] using fun d' hd' heq => absurd heq (hnot d' hd')
    · rw [beq_eq_false_iff_ne.2 hd, ← fieldValues, ih h.2]
      simp [hd]

theorem fieldValues_perm (hp : decls'.Perm decls) (h : (decls.map Decl.name).Nodup) :
    fieldValues decls' w = fieldValues decls w := by
  funext name
  ext v
  rw [fieldValues_eq_some_iff h, fieldValues_eq_some_iff ((hp.map _).nodup_iff.2 h)]
  simp only [hp.mem_iff]

theorem fieldValues_isSome (h : (decls.map Decl.name).Nodup) :
    ∀ name ∈ decls.map Decl.name, (fieldValues decls w name).isSome := by
  intro name hname
  obtain ⟨d, hd, rfl⟩ := List.mem_map.1 hname
  rw [(fieldValues_eq_some_iff h).2 ⟨d, hd, rfl, rfl⟩, Option.isSome_some]

/-! ## `satisfiesFormat` -/

theorem anyM_eq {p : Rule → Option Bool} (h : ∀ rule ∈ rules, (p rule).isSome) :
    rules.anyM p = some (rules.any fun rule => p rule == some true) := by
  induction rules with
  | nil => rfl
  | cons rule rules ih =>
    obtain ⟨b, hb⟩ := Option.isSome_iff_exists.1 (h rule List.mem_cons_self)
    have ih := ih fun r hr => h r (List.mem_cons_of_mem _ hr)
    cases b <;> simp [List.anyM, hb, ih]

/-- A formatter that is finished decides every word that its rules have a value for. -/
theorem satisfiesFormat_eq (hm : f.significantMask = some m) (hx : f.fixedForm = some x)
    (h : ∀ rule ∈ f.rules, (rule (f.extractField · w)).isSome) :
    f.satisfiesFormat w =
      some (w &&& m == x && f.rules.any fun rule => rule (f.extractField · w) == some true) := by
  simp only [satisfiesFormat, hm, hx, anyM_eq h, Option.bind_eq_bind, Option.bind_some]
  cases w &&& m == x <;> rfl

theorem satisfiesFormat_ofDecls (hnames : (decls.map Decl.name).Nodup)
    (hrules : ∀ rule ∈ rules, rule.Over (decls.map Decl.name)) :
    (ofDecls rules decls sample).satisfiesFormat w = some (decide (w ∈ form decls sample) &&
      rules.any fun rule => rule (fieldValues decls w) == some true) := by
  have hget : ((ofDecls rules decls sample).extractField · w) = fieldValues decls w :=
    funext fun _ => extractField_ofDecls
  rw [satisfiesFormat_eq rfl rfl]
  · rw [hget, beq_eq_decide]
    simp only [Pattern.mem_iff]
    rfl
  · intro rule hr
    rw [hget]
    exact hrules rule hr _ (fieldValues_isSome hnames)

/-- Samples that agree outside the fields have one form. -/
theorem mem_form_congr (hp : decls'.Perm decls)
    (hs : ∀ i < 32, (∀ d ∈ decls, ¬ d.Covers i) → sample'.getLsbD i = sample.getLsbD i) :
    w ∈ form decls' sample' ↔ w ∈ form decls sample := by
  have hfree : ∀ i < 32, (freeBits decls').getLsbD i = (freeBits decls).getLsbD i := by
    intro i hi
    rw [getLsbD_freeBits hi, getLsbD_freeBits hi]
    exact hp.any_eq
  have hsample : ∀ i < 32, (freeBits decls).getLsbD i = false →
      sample'.getLsbD i = sample.getLsbD i := by
    intro i hi hf
    rw [getLsbD_freeBits hi, List.any_eq_false] at hf
    exact hs i hi fun d hd hc => hf d hd (decide_eq_true hc)
  refine ⟨fun h i hi hf => ?_, fun h i hi hf => ?_⟩
  · exact (h i hi ((hfree i hi).trans hf)).trans (hsample i hi hf)
  · have hf : (freeBits decls).getLsbD i = false := (hfree i hi).symm.trans hf
    exact (h i hi hf).trans (hsample i hi hf).symm

theorem create_format (rules : List Rule) (decls : List Decl) (sample : InstrT)
    (hnames : (decls.map Decl.name).Nodup)
    (hrules : ∀ rule ∈ rules, rule.Over (decls.map Decl.name)) :
    ∃ f, create ⟨rules, decls.map Decl.text, sample⟩ = some f ∧
      (∀ w, ∃ b, f.satisfiesFormat w = some b ∧ (b = true ↔
        SameForm decls sample w ∧ ∃ rule ∈ rules, rule (fieldValues decls w) = some true)) ∧
      (∀ d ∈ decls, ∀ w, f.extractField d.name w =
        some (BitVec.ofNat 32 (w.toNat / 2 ^ d.shift.value % 2 ^ d.len.value))) ∧
      ∀ (decls' : List Decl) (sample' : InstrT), decls'.Perm decls →
        (∀ i < 32, (∀ d ∈ decls, ¬ d.Covers i) → sample'.getLsbD i = sample.getLsbD i) →
        ∃ f', create ⟨rules, decls'.map Decl.text, sample'⟩ = some f' ∧
          ∀ w, f'.satisfiesFormat w = f.satisfiesFormat w := by
  refine ⟨_, create_eq hnames, fun w => ?_, fun d hd w => ?_, fun decls' sample' hp hs => ?_⟩
  · refine ⟨_, satisfiesFormat_ofDecls hnames hrules, ?_⟩
    rw [Bool.and_eq_true, decide_eq_true_eq, mem_form_iff, List.any_eq_true]
    simp only [beq_iff_eq]
  · rw [extractField_ofDecls, (fieldValues_eq_some_iff hnames).2 ⟨d, hd, rfl, rfl⟩, Decl.value]
  · have hnames' := ((hp.map Decl.name).nodup_iff).2 hnames
    have hrules' : ∀ rule ∈ rules, rule.Over (decls'.map Decl.name) := fun rule hr =>
      (hrules rule hr).mono fun name hname => (hp.map _).mem_iff.2 hname
    refine ⟨_, create_eq hnames', fun w => ?_⟩
    rw [satisfiesFormat_ofDecls hnames hrules, satisfiesFormat_ofDecls hnames' hrules',
      fieldValues_perm hp hnames]
    simp only [mem_form_congr hp hs]

/-- Overlapping fields, one of them up to bit 31. -/
theorem create_format_overlap :
    ∃ f, create ⟨[fun get => return (← get "t") != 31], ["t 1 5", "imm 3 29"], 0x2b⟩ = some f ∧
      f.satisfiesFormat 0x80000009 = some true ∧
      f.extractField "imm" 0x80000009 = some 0x10000001 ∧
      ∃ f', create ⟨[fun get => return (← get "t") != 31], ["imm 3 29", "t 1 5"], 1⟩ = some f' ∧
        ∀ w, f'.satisfiesFormat w = f.satisfiesFormat w := by
  let t : Decl := ⟨"t", .ofNat 1, .ofNat 5, by decide, by simp, by simp, by simp⟩
  let imm : Decl := ⟨"imm", .ofNat 3, .ofNat 29, by decide, by simp, by simp, by simp⟩
  have hrule : Rule.Over (fun get => return (← get "t") != 31) ([t, imm].map Decl.name) :=
    .field (· != 31) (by simp [t])
  obtain ⟨f, hf, hsat, hext, hperm⟩ := create_format [fun get => return (← get "t") != 31] [t, imm]
    0x2b (by decide) (by simpa using hrule)
  have htext : [t, imm].map Decl.text = ["t 1 5", "imm 3 29"] := by decide
  have htext' : [imm, t].map Decl.text = ["imm 3 29", "t 1 5"] := by decide
  obtain ⟨f', hf', heq⟩ := hperm [imm, t] 1 (.swap ..) (by decide)
  rw [htext] at hf
  rw [htext'] at hf'
  refine ⟨f, hf, ?_, (hext imm (by simp) _).trans (by decide), f', hf', heq⟩
  obtain ⟨b, hb, hiff⟩ := hsat 0x80000009
  rw [hb, hiff.2]
  exact ⟨mem_form_iff.1 (by decide), _, List.mem_cons_self, by decide⟩

/-! ## Formatters that decide every word -/

/-- The name that `addField` takes from its argument. -/
def fieldName (fieldString : String) : String :=
  String.ofList (fieldString.toList.take (fieldString.toList.findIdx (· == ' ')))

/-- Every word has an answer. -/
def Ready (f : Formatter) : Prop := ∀ w, (f.satisfiesFormat w).isSome

theorem addField_eq_some (h : f.addField s = some f') :
    ∃ field, f' = f.insert (fieldName s) field := by
  simp only [addField, Option.bind_eq_bind, Option.bind_eq_some_iff] at h
  obtain ⟨split, hsplit, _, _, _, _, mask, _, h⟩ := h
  have hidx := (List.findIdx?_eq_some_iff_findIdx_eq.1 hsplit).2
  cases h
  exact ⟨⟨mask, _⟩, by rw [fieldName, hidx]⟩

theorem insert_rules : (f.insert name field).rules = f.rules := by
  rw [insert]
  split <;> rfl

/-- The field has an entry afterwards, and entries stay. -/
theorem lookup_insert (h : name' = name ∨ (f.fieldMap.lookup name').isSome) :
    ((f.insert name field).fieldMap.lookup name').isSome := by
  rw [insert]
  split
  case h_1 found =>
    rcases h with rfl | h
    · rw [found, Option.isSome_some]
    · exact h
  case h_2 found =>
    rw [List.lookup_append]
    rcases h with rfl | h
    · simp
    · simp [h]

theorem foldlM_addField_spec {fields : List String} (h : fields.foldlM addField f = some f') :
    f'.rules = f.rules ∧ ∀ name, name ∈ fields.map fieldName ∨ (f.fieldMap.lookup name).isSome →
      (f'.fieldMap.lookup name).isSome := by
  induction fields generalizing f with
  | nil =>
    cases h
    exact ⟨rfl, fun name h => h.resolve_left (by simp)⟩
  | cons s fields ih =>
    rw [List.foldlM_cons, Option.bind_eq_bind, Option.bind_eq_some_iff] at h
    obtain ⟨f₁, hf₁, h⟩ := h
    obtain ⟨field, rfl⟩ := addField_eq_some hf₁
    obtain ⟨hrules, hlookup⟩ := ih h
    refine ⟨hrules.trans insert_rules, fun name hname => hlookup name ?_⟩
    rw [List.map_cons, List.mem_cons, or_right_comm] at hname
    exact hname.symm.imp_right lookup_insert

/-- Rules over the fields that were added have a value for every word. -/
theorem ready_of_create {format : Format} (h : create format = some f)
    (hrules : ∀ rule ∈ format.rules, rule.Over (format.fields.map fieldName)) : f.Ready := by
  intro w
  rw [create, Option.bind_eq_bind, Option.bind_eq_some_iff] at h
  obtain ⟨f', hf', h⟩ := h
  cases h
  obtain ⟨hr, hlookup⟩ := foldlM_addField_spec hf'
  have hr : f'.rules = format.rules := hr
  rw [satisfiesFormat_eq rfl rfl, Option.isSome_some]
  intro rule hrule
  apply hrules rule (hr ▸ hrule)
  intro name hname
  rw [extractField, Option.isSome_map]
  exact hlookup name (.inl hname)

theorem mapM_create {formats : List Format} (hsome : ∀ format ∈ formats, (create format).isSome)
    (hrules : ∀ format ∈ formats, ∀ rule ∈ format.rules,
      rule.Over (format.fields.map fieldName)) :
    ∃ formatters, formats.mapM create = some formatters ∧ ∀ f ∈ formatters, Ready f := by
  induction formats with
  | nil => exact ⟨[], rfl, nofun⟩
  | cons format formats ih =>
    obtain ⟨f, hf⟩ := Option.isSome_iff_exists.1 (hsome format List.mem_cons_self)
    obtain ⟨formatters, heq, hready⟩ := ih (fun x hx => hsome x (List.mem_cons_of_mem _ hx))
      (fun x hx => hrules x (List.mem_cons_of_mem _ hx))
    refine ⟨f :: formatters, ?_, ?_⟩
    · rw [List.mapM_cons, hf, heq]
      rfl
    · rw [List.forall_mem_cons]
      exact ⟨ready_of_create hf (hrules format List.mem_cons_self), hready⟩

end Formatter

end IScanU
