import Mathlib.Data.List.TakeWhile
import Mathlib.Data.BitVec

/-! # Reading text

Numbers and lines at the front of a text, as the libraries of C and C++ take them from it. -/

namespace Text

/-! ## Numbers -/

/-- `isspace` -/
def isSpace (c : Char) : Bool := c == ' ' || (9 ≤ c.toNat && c.toNat ≤ 13)

/-- The number that the digits at the front spell. -/
def scanDigits (s : List Char) : Option Nat :=
  let digits := s.takeWhile Char.isDigit
  if digits.isEmpty then none else some (Nat.ofDigitChars 10 digits 0)

/-- The number that `strtol` and `strtoul` find: white space, a sign and digits. What stands after
the digits is ignored. -/
def scanInt (s : List Char) : Option Int :=
  match s.dropWhile isSpace with
  | '-' :: s => (scanDigits s).map fun n : Nat => -(n : Int)
  | '+' :: s => (scanDigits s).map fun n : Nat => (n : Int)
  | s => (scanDigits s).map fun n : Nat => (n : Int)

/-- `stoi`; `none` is one of its exceptions. -/
def stoi (s : List Char) : Option Int :=
  (scanInt s).filter fun n => -2 ^ 31 ≤ n ∧ n < 2 ^ 31

/-- `stoul`, where `unsigned long` has 64 bits. Only the magnitude can be out of range. -/
def stoul (s : List Char) : Option (BitVec 64) :=
  ((scanInt s).filter fun n => n.natAbs < 2 ^ 64).map (BitVec.ofInt 64)

/-- A number without a sign as it is spelled, possibly with zeros in front. -/
structure Numeral where
  digits : List Char
  ne_nil : digits ≠ []
  isDigit : ∀ c ∈ digits, c.isDigit = true

namespace Numeral

def value (n : Numeral) : Nat := Nat.ofDigitChars 10 n.digits 0

/-- The usual spelling. -/
def ofNat (n : Nat) : Numeral where
  digits := Nat.toDigits 10 n
  ne_nil := Nat.toDigits_ne_nil
  isDigit _ := Nat.isDigit_of_mem_toDigits (by decide) (by decide)

@[simp] theorem value_ofNat : (ofNat n).value = n := Nat.ofDigitChars_ten_toDigits

theorem toList_toString (n : Nat) : (toString n).toList = (ofNat n).digits := by
  rw [Nat.toString_eq_repr, Nat.toList_repr]
  rfl

theorem not_mem (n : Numeral) (h : c.isDigit = false) : c ∉ n.digits := by
  intro hc
  rw [n.isDigit c hc] at h
  cases h

end Numeral

theorem isSpace_of_isDigit (h : c.isDigit = true) : isSpace c = false := by
  rw [Char.isDigit_iff_toNat] at h
  have hblank : c ≠ ' ' := by
    rintro rfl
    exact absurd h.1 (by decide)
  have hlt : ¬ c.toNat ≤ 13 := by
    have : (48 : Nat) ≤ c.toNat := h.1
    omega
  simp [isSpace, hblank, hlt]

theorem scanDigits_numeral (n : Numeral) (h : ∀ c ∈ s.head?, c.isDigit = false) :
    scanDigits (n.digits ++ s) = some n.value := by
  have htake : (n.digits ++ s).takeWhile Char.isDigit = n.digits := by
    rw [List.takeWhile_append_of_pos n.isDigit]
    cases s with
    | nil => rw [List.takeWhile_nil, List.append_nil]
    | cons c s =>
      rw [List.takeWhile_cons_of_neg (by simp [h c rfl]), List.append_nil]
  rw [scanDigits, htake, if_neg (by simp [n.ne_nil])]
  rfl

/-- A numeral is read up to its end. -/
theorem scanInt_numeral (n : Numeral) (h : ∀ c ∈ s.head?, c.isDigit = false) :
    scanInt (n.digits ++ s) = some (n.value : Int) := by
  have hscan := scanDigits_numeral n h
  obtain ⟨c, cs, hds⟩ := List.exists_cons_of_ne_nil n.ne_nil
  have hc : c.isDigit = true := n.isDigit c (by rw [hds]; exact List.mem_cons_self)
  rw [hds, List.cons_append] at hscan ⊢
  rw [scanInt, List.dropWhile_cons_of_neg (by simp [isSpace_of_isDigit hc])]
  split
  case h_1 heq =>
    cases heq
    exact absurd hc (by decide)
  case h_2 heq =>
    cases heq
    exact absurd hc (by decide)
  case h_3 => rw [hscan, Option.map_some]

theorem stoi_numeral (n : Numeral) (hn : n.value < 2 ^ 31)
    (h : ∀ c ∈ s.head?, c.isDigit = false) : stoi (n.digits ++ s) = some (n.value : Int) := by
  rw [stoi, scanInt_numeral n h, Option.filter_some, if_pos]
  simp only [decide_eq_true_eq]
  omega

theorem stoul_numeral (n : Numeral) (hn : n.value < 2 ^ 64) :
    stoul n.digits = some (BitVec.ofNat 64 n.value) := by
  have hscan := scanInt_numeral n (s := []) nofun
  rw [List.append_nil] at hscan
  rw [stoul, hscan, Option.filter_some, if_pos (by simpa using hn), Option.map_some,
    BitVec.ofInt_natCast]

/-- The number that the digits spell when there is nothing else. -/
def digitsOnly (s : List Char) : Option Nat := if s.all Char.isDigit then scanDigits s else none

/-- Python's `int` of a text, which may have white space at both ends. -/
def pyInt (s : List Char) : Option Int :=
  match ((s.dropWhile isSpace).reverse.dropWhile isSpace).reverse with
  | '-' :: s => (digitsOnly s).map fun n : Nat => -(n : Int)
  | '+' :: s => (digitsOnly s).map fun n : Nat => (n : Int)
  | s => (digitsOnly s).map fun n : Nat => (n : Int)

theorem dropWhile_isSpace {s : List Char} (h : ∀ c ∈ s, isSpace c = false) : s.dropWhile isSpace = s := by
  cases s with
  | nil => rfl
  | cons c s => exact List.dropWhile_cons_of_neg (by simp [h c])

theorem pyInt_numeral (n : Numeral) : pyInt n.digits = some (n.value : Int) := by
  have hspace : ∀ c ∈ n.digits, isSpace c = false := fun c hc => isSpace_of_isDigit (n.isDigit c hc)
  have hstrip : ((n.digits.dropWhile isSpace).reverse.dropWhile isSpace).reverse = n.digits := by
    rw [dropWhile_isSpace hspace, dropWhile_isSpace fun c hc => hspace c (List.mem_reverse.1 hc),
      List.reverse_reverse]
  have hscan := scanDigits_numeral n (s := []) nofun
  rw [List.append_nil] at hscan
  have hall : n.digits.all Char.isDigit = true := List.all_eq_true.2 n.isDigit
  have hsign : ∀ c : Char, c.isDigit = false → ∀ s, n.digits ≠ c :: s := fun c hc s hs =>
    n.not_mem hc (hs ▸ List.mem_cons_self)
  rw [pyInt, hstrip]
  split
  case h_1 heq => exact absurd heq (hsign '-' rfl _)
  case h_2 heq => exact absurd heq (hsign '+' rfl _)
  case h_3 => rw [digitsOnly, if_pos hall, hscan, Option.map_some]

/-- The usual spelling of an integer is read up to its end. -/
theorem scanInt_toString (z : Int) (h : ∀ c ∈ s.head?, c.isDigit = false) :
    scanInt ((toString z).toList ++ s) = some z := by
  cases z with
  | ofNat n =>
    have hscan := scanInt_numeral (.ofNat n) h
    rw [Numeral.value_ofNat] at hscan
    rw [Int.toString_eq_repr, Int.repr, Nat.toList_repr]
    exact hscan
  | negSucc n =>
    have hscan := scanDigits_numeral (.ofNat n.succ) h
    rw [Numeral.value_ofNat] at hscan
    rw [Int.toString_eq_repr, Int.repr, String.toList_append, Nat.toList_repr]
    change scanInt ('-' :: ((Numeral.ofNat n.succ).digits ++ s)) = _
    rw [scanInt, List.dropWhile_cons_of_neg (by decide)]
    exact (congrArg (Option.map _) hscan).trans rfl

theorem stoul_toString (z : Int) (hz : z.natAbs < 2 ^ 64) :
    stoul (toString z).toList = some (BitVec.ofInt 64 z) := by
  have hscan := scanInt_toString z (s := []) nofun
  rw [List.append_nil] at hscan
  rw [stoul, hscan, Option.filter_some, if_pos (by simpa using hz), Option.map_some]

/-! ## Lines -/

/-- An input stream. Once an extraction has met its end it is no longer good. -/
structure InputStream where
  rest : List Char
  eof : Bool

/-- `getline`. A stream that is not good leaves the variable `line` as it is. -/
def getline (s : InputStream) (line : List Char) : List Char × InputStream :=
  if s.eof then (line, s)
  else
    (s.rest.takeWhile (· != '\n'),
      match s.rest.dropWhile (· != '\n') with
      | _ :: rest => ⟨rest, false⟩
      | [] => ⟨[], true⟩)

/-- A stream that stays good has given its delimiter. -/
theorem length_getline (h : (getline s line).2.eof = false) :
    (getline s line).2.rest.length < s.rest.length := by
  cases he : s.eof with
  | true => simp [getline, he] at h
  | false =>
    have hle := (List.dropWhile_suffix (· != '\n') (l := s.rest)).length_le
    simp only [getline, he, Bool.false_eq_true, if_false] at h ⊢
    split
    case h_1 rest heq =>
      rw [heq, List.length_cons] at hle
      exact hle
    case h_2 heq => simp [heq] at h

theorem ne_newline {l : List Char} (hl : '\n' ∉ l) : ∀ c ∈ l, (c != '\n') = true := by
  intro c hc
  rw [bne_iff_ne]
  rintro rfl
  exact hl hc

theorem getline_cons (hl : '\n' ∉ l) :
    getline ⟨l ++ '\n' :: rest, false⟩ line = (l, ⟨rest, false⟩) := by
  have hall := ne_newline hl
  simp [getline, List.takeWhile_append_of_pos hall, List.dropWhile_append_of_pos hall]

theorem getline_last (hl : '\n' ∉ l) : getline ⟨l, false⟩ line = (l, ⟨[], true⟩) := by
  have hall := ne_newline hl
  have htake : l.takeWhile (· != '\n') = l := List.takeWhile_eq_self_iff.2 hall
  have hdrop : l.dropWhile (· != '\n') = [] := List.dropWhile_eq_nil_iff.2 hall
  simp [getline, htake, hdrop]

/-- The text of some lines. `newline` says whether there is a newline after the last one. -/
def unlines (newline : Bool) : List (List Char) → List Char
  | [] => []
  | [l] => l ++ if newline then ['\n'] else []
  | l :: ls => l ++ '\n' :: unlines newline ls

/-- A line with a newline behind it. -/
theorem getline_unlines (line : List Char) (hl : '\n' ∉ l) (h : ls ≠ [] ∨ newline = true) :
    getline ⟨unlines newline (l :: ls), false⟩ line = (l, ⟨unlines newline ls, false⟩) := by
  have hcons : unlines newline (l :: ls) = l ++ '\n' :: unlines newline ls := by
    match ls with
    | [] =>
      obtain rfl := h.resolve_left fun hne => hne rfl
      rfl
    | _ :: _ => rfl
  rw [hcons, getline_cons hl]

/-- The last line is given although its delimiter is missing. -/
theorem getline_unlines_last (hl : '\n' ∉ l) :
    getline ⟨unlines false [l], false⟩ line = (l, ⟨[], true⟩) := by
  rw [unlines, if_neg Bool.false_ne_true, List.append_nil, getline_last hl]

theorem unlines_true_cons : unlines true (l :: ls) = l ++ '\n' :: unlines true ls := by
  cases ls <;> rfl

/-- The lines of a text. The last one may lack its newline. -/
def lines : List Char → List (List Char)
  | [] => []
  | c :: s =>
    if c = '\n' then [] :: lines s
    else (c :: (lines s).headD []) :: (lines s).tail

theorem lines_append (hl : '\n' ∉ l) : lines (l ++ '\n' :: s) = l :: lines s := by
  induction l with
  | nil => rw [List.nil_append, lines, if_pos rfl]
  | cons c l ih =>
    rw [List.mem_cons, not_or] at hl
    rw [List.cons_append, lines, if_neg (Ne.symm hl.1), ih hl.2]
    rfl

theorem lines_unlines_append (h : ∀ l ∈ ls, '\n' ∉ l) :
    lines (unlines true ls ++ s) = ls ++ lines s := by
  induction ls with
  | nil => rfl
  | cons l ls ih =>
    rw [List.forall_mem_cons] at h
    rw [unlines_true_cons, List.append_assoc, List.cons_append, lines_append h.1, ih h.2,
      List.cons_append]

theorem lines_unlines (h : ∀ l ∈ ls, '\n' ∉ l) : lines (unlines true ls) = ls := by
  have happend := lines_unlines_append (s := []) h
  rwa [List.append_nil, lines, List.append_nil] at happend

theorem unlines_true_append : unlines true (ls ++ ls') = unlines true ls ++ unlines true ls' := by
  induction ls with
  | nil => rfl
  | cons l ls ih =>
    rw [List.cons_append, unlines_true_cons, unlines_true_cons, ih, List.append_assoc,
      List.cons_append]

/-- The lines of a text as Python gives them, each with its newline, which the last one may lack. -/
def records (s : List Char) : List (List Char) :=
  if s.getLast? = some '\n' then (lines s).map (· ++ ['\n'])
  else (lines s).dropLast.map (· ++ ['\n']) ++ (lines s).getLast?.toList

theorem getLast?_unlines_cons : (unlines true (l :: ls)).getLast? = some '\n' := by
  induction ls generalizing l with
  | nil => simp [unlines]
  | cons l' ls ih => rw [unlines_true_cons, List.getLast?_append, List.getLast?_cons, ih]; rfl

theorem records_unlines (h : ∀ l ∈ ls, '\n' ∉ l) :
    records (unlines true ls) = ls.map (· ++ ['\n']) := by
  cases ls with
  | nil => rfl
  | cons l ls => rw [records, if_pos getLast?_unlines_cons, lines_unlines h]

/-! ## Fields -/

/-- The characters between the fields of `awk`. -/
def isBlank (c : Char) : Bool := c == ' ' || c == '\t'

/-- `$2` -/
def secondField (line : List Char) : List Char :=
  let rest := (line.dropWhile isBlank).dropWhile (!isBlank ·)
  (rest.dropWhile isBlank).takeWhile (!isBlank ·)

/-- The field behind the first blank. It ends at the next one. -/
theorem secondField_eq (hk : k ≠ []) (hkb : ∀ c ∈ k, isBlank c = false) (hw : w ≠ [])
    (hwb : ∀ c ∈ w, isBlank c = false) (hrest : ∀ c ∈ rest.head?, isBlank c = true) :
    secondField (k ++ ' ' :: (w ++ rest)) = w := by
  have hfirst : ∀ {l r : List Char}, l ≠ [] → (∀ c ∈ l, isBlank c = false) →
      (l ++ r).dropWhile isBlank = l ++ r := by
    intro l r hl hlb
    obtain ⟨c, cs, rfl⟩ := List.exists_cons_of_ne_nil hl
    exact List.dropWhile_cons_of_neg (by simp [hlb c])
  have hkn : ∀ c ∈ k, (!isBlank c) = true := fun c hc => by simp [hkb c hc]
  have hwn : ∀ c ∈ w, (!isBlank c) = true := fun c hc => by simp [hwb c hc]
  have hend : rest.takeWhile (!isBlank ·) = [] := by
    cases rest with
    | nil => rfl
    | cons c rest => exact List.takeWhile_cons_of_neg (by simp [hrest c rfl])
  rw [secondField, hfirst hk hkb, List.dropWhile_append_of_pos hkn,
    List.dropWhile_cons_of_neg (by decide), List.dropWhile_cons_of_pos (by decide), hfirst hw hwb,
    List.takeWhile_append_of_pos hwn, hend, List.append_nil]

end Text
