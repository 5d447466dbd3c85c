import IScanU.Theory.Progression
import IScanU.Theory.Text
import Mathlib.Data.Int.Bitwise

/-! # The first compression pass (`src/analysis/firstPass.py`)

A list of instruction words is written as lines of a base and a mask. -/

namespace IScanU.FirstPass

open Progression (walk)

def isPower2 (num : Int) : Bool := num != 0 && num.land (num - 1) == 0

/-- `num.bit_length()`. -/
def bitLength (num : Int) : Nat := num.natAbs.size

/-- A line of `fpOutput.txt`. -/
structure Line where
  base : Int
  mask : Nat
deriving DecidableEq, Repr

variable (inputData : List Int) (delta : Int)

/-- The inner `while`, and the index it leaves. -/
def runEnd (i : Nat) : Nat :=
  if isPower2 delta then walk (fun a b => a + delta == b) inputData i else i

/-- `variableBits`, as it stands after the `if`, for a run of `diff` steps. -/
def variableBits (diff : Nat) : Nat :=
  if isPower2 (diff + 1) then bitLength diff else bitLength diff - 1

/-- The index at the end of the loop body, after the step back and `i += 1`. -/
def nextIndex (i : Nat) : Nat :=
  let diff := runEnd inputData delta i - i
  let i := runEnd inputData delta i
  (if isPower2 (diff + 1) then i else i - (diff + 1 - 2 ^ variableBits diff)) + 1

/-- The loop over `k`. The shift count is not negative when `delta` is a power of two. -/
def lineMask (i : Nat) : Nat :=
  let diff := runEnd inputData delta i - i
  let deltaBitShift : Int := bitLength delta - 1
  (List.range (variableBits diff)).foldl
    (fun mask (k : Nat) => mask ||| 1 <<< (k + deltaBitShift).toNat) 0

theorem lt_nextIndex : i < nextIndex inputData delta i := by
  have hle : i ≤ runEnd inputData delta i := by
    rw [runEnd]
    split
    · exact Progression.le_walk
    · exact Nat.le_refl _
  have := Nat.one_le_two_pow (n := variableBits (runEnd inputData delta i - i))
  simp only [nextIndex]
  split <;> omega

/-- The outer `while`, from index `i` on. At the end of the list `delta` keeps its value. -/
def loop (delta : Int) (i : Nat) : List Line :=
  if h : i < inputData.length then
    let next := nextIndex inputData delta i
    ⟨inputData[i], lineMask inputData delta i⟩ ::
      loop (if h : next + 1 < inputData.length then inputData[next + 1] - inputData[next]
        else delta) next
  else []
termination_by inputData.length - i
decreasing_by
  have := lt_nextIndex inputData delta (i := i)
  omega

/-- The lines written; `none` is the `IndexError` of `inputData[1]`. -/
def firstPass : Option (List Line) :=
  match inputData with
  | a :: b :: _ => some (loop inputData (b - a) 0)
  | _ => none

/-! ## The files -/

def readIntegers (file : String) : Option (List Int) := (Text.lines file.toList).mapM Text.pyInt

def Line.text (l : Line) : String := toString l.base ++ " " ++ toString l.mask ++ "\n"

/-- The program: what it writes to `fpOutput.txt`. -/
def run (file : String) : Option String := do
  let lines ← firstPass (← readIntegers file)
  return String.join (lines.map Line.text)

end IScanU.FirstPass
