import Mathlib.Data.List.Basic
import Mathlib.Data.Nat.Bits
import Mathlib.Data.Nat.Size
import Mathlib.Tactic.Ring

/-! # Runs at the front of a list, and cutting into progressions

`links r l` says how far the neighbours at the front of `l` are related by `r`, and `walk` is the
loop that finds it out with an index. `cut` takes a list of integers apart into progressions
whose step and length are powers of two; put together again they are the list
(`flatMap_elements_cut`). -/

namespace Progression

/-! ## Runs -/

section
variable (r : α → α → Bool)

/-- The number of related neighbours that a list begins with. -/
def links : List α → Nat
  | a :: b :: l => if r a b then links (b :: l) + 1 else 0
  | _ => 0

/-- Walk up from index `i` as long as the next element is related to the current one. -/
def walk (l : List α) (i : Nat) : Nat :=
  if h : i + 1 < l.length then
    if r l[i] l[i + 1] then walk l (i + 1) else i
  else i
termination_by l.length - i

variable {r}

theorem walk_eq {l : List α} {i : Nat} : walk r l i = i + links r (l.drop i) := by
  fun_induction walk r l i with
  | case1 i h hr ih =>
    rw [ih, List.drop_eq_getElem_cons (Nat.lt_of_succ_lt h), List.drop_eq_getElem_cons h, links,
      if_pos hr]
    omega
  | case2 i h hr =>
    rw [List.drop_eq_getElem_cons (Nat.lt_of_succ_lt h), List.drop_eq_getElem_cons h, links,
      if_neg hr]
    rfl
  | case3 i h =>
    have hlen : (l.drop i).length ≤ 1 := by
      rw [List.length_drop]
      omega
    match hd : l.drop i, hlen with
    | [], _ => rfl
    | [_], _ => rfl

/-- A list with a link begins with two related elements. -/
theorem exists_of_lt_links {l : List α} (h : n < links r l) :
    ∃ a b l', l = a :: b :: l' ∧ r a b = true ∧ n ≤ links r (b :: l') := by
  rcases l with _ | ⟨a, _ | ⟨b, l⟩⟩
  · simp [links] at h
  · simp [links] at h
  · rw [links] at h
    split at h
    case isTrue hr => exact ⟨a, b, l, rfl, hr, Nat.le_of_lt_succ h⟩
    case isFalse => cases h

theorem le_walk {l : List α} {i : Nat} : i ≤ walk r l i := by
  rw [walk_eq]
  exact Nat.le_add_right ..

end

/-- A run in steps of `d` is a progression. -/
theorem take_eq_progression {d x : Int} {l : List Int}
    (hk : k ≤ links (fun a b => a + d == b) (x :: l) + 1) :
    (x :: l).take k = (List.range k).map fun j : Nat => x + j * d := by
  induction k generalizing x l with
  | zero => rfl
  | succ k ih =>
    cases k with
    | zero => simp
    | succ k =>
      obtain ⟨_, y, l, heq, hr, hk'⟩ := exists_of_lt_links (Nat.le_of_succ_le_succ hk)
      cases heq
      rw [beq_iff_eq] at hr
      rw [List.take_succ_cons, ih (Nat.succ_le_succ hk'), List.range_succ_eq_map (n := k + 1),
        List.map_cons, List.map_map]
      simp only [Function.comp_def, ← hr]
      congr 1
      · simp
      · apply List.map_congr_left
        intro j _
        push_cast
        ring

/-! ## Pieces -/

/-- The progression `base`, `base + 2 ^ shift`, ... of `2 ^ bits` elements. -/
structure Piece where
  base : Int
  shift : Nat
  bits : Nat
deriving DecidableEq, Repr

def Piece.elements (p : Piece) : List Int :=
  (List.range (2 ^ p.bits)).map fun k : Nat => p.base + k * 2 ^ p.shift

theorem Piece.mem_elements {p : Piece} :
    x ∈ p.elements ↔ ∃ k < 2 ^ p.bits, x = p.base + (k : Nat) * 2 ^ p.shift := by
  simp only [elements, List.mem_map, List.mem_range]
  exact exists_congr fun k => and_congr_right fun _ => eq_comm

/-- The piece at the front of `x :: l`: the longest one whose step is the first difference, when
this is a power of two. -/
def front (x : Int) : List Int → Piece
  | [] => ⟨x, 0, 0⟩
  | y :: l =>
    let s := (y - x).toNat.log2
    if y - x = 2 ^ s then
      ⟨x, s, (links (fun a b => a + 2 ^ s == b) (x :: y :: l) + 1).log2⟩
    else ⟨x, 0, 0⟩

/-- Take one piece after the other from the front. -/
def cut : List Int → List Piece
  | [] => []
  | x :: l => front x l :: cut (l.drop (2 ^ (front x l).bits - 1))
termination_by l => l.length
decreasing_by simp only [List.length_drop, List.length_cons]; omega

theorem front_of_step {s : Nat} (h : y - x = 2 ^ s) :
    front x (y :: l) = ⟨x, s, (links (fun a b => a + 2 ^ s == b) (x :: y :: l) + 1).log2⟩ := by
  have hlog : (y - x).toNat.log2 = s := by
    have : (y - x).toNat = 2 ^ s := by rw [h]; exact Int.toNat_natCast (2 ^ s)
    rw [this, Nat.log2_two_pow]
  rw [front, hlog, if_pos h]

theorem front_of_not_step (h : ∀ s : Nat, y - x ≠ 2 ^ s) : front x (y :: l) = ⟨x, 0, 0⟩ := by
  rw [front, if_neg (h _)]

/-- The number of elements taken is a power of two within the run. -/
theorem front_elements : (front x l).elements = (x :: l).take (2 ^ (front x l).bits) := by
  cases l with
  | nil => simp [front, Piece.elements, List.take]
  | cons y l =>
    rw [front]
    split
    case isTrue h => exact (take_eq_progression (Nat.log2_self_le (Nat.succ_ne_zero _))).symm
    case isFalse h => simp [Piece.elements, List.take]

theorem front_elements_append :
    (front x l).elements ++ l.drop (2 ^ (front x l).bits - 1) = x :: l := by
  have h : l.drop (2 ^ (front x l).bits - 1) = (x :: l).drop (2 ^ (front x l).bits) := by
    conv_rhs => rw [← Nat.sub_add_cancel (Nat.one_le_two_pow (n := (front x l).bits))]
    rw [List.drop_succ_cons]
  rw [h, front_elements, List.take_append_drop]

/-- The pieces put together are the list. -/
theorem flatMap_elements_cut {l : List Int} : (cut l).flatMap Piece.elements = l := by
  fun_induction cut l with
  | case1 => rfl
  | case2 x l ih => rw [List.flatMap_cons, ih, front_elements_append]

end Progression
