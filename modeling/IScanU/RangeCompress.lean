import IScanU.ArchProperties
import IScanU.FirstPass
import IScanU.Theory.Pattern
import IScanU.Theory.Text

/-! # The second compression pass (`src/analysis/rangeCompress.cpp`)

`main` reads the lines of the first pass as records and merges runs of records with one mask.
`log2` and `pow` are exact. Where the language leaves a value undefined the model has that of an
x86-64 machine: a conversion to `int` of a value that does not fit gives `INT_MIN`, and a shift
count is taken modulo 32. -/

namespace IScanU.RangeCompress

open Progression (walk)

def isPower2 (value : InstrT) : Bool := value != 0 && value &&& (value - 1) == 0

structure MaskedInstruction where
  instr : InstrT
  mask : InstrT
deriving DecidableEq, Repr

/-- The words a record stands for: its line is printed with `x` under the mask. -/
@[simps] def MaskedInstruction.pattern (mi : MaskedInstruction) : Pattern 32 where
  base := mi.instr
  free := mi.mask

/-- What `main` makes of a line; `stoul` and the assignment keep 32 bits. -/
def readLine (line : FirstPass.Line) : MaskedInstruction :=
  let mask := BitVec.ofNat 32 line.mask
  ⟨BitVec.ofInt 32 line.base &&& ~~~mask, mask⟩

def inSameRange (val other : MaskedInstruction) (delta : InstrT) : Bool :=
  val.instr + delta == other.instr && val.mask == other.mask

def intMin : Int := -2 ^ 31

/-- `(int)log2(n)`. -/
def intLog2 (n : Nat) : Int := if n = 0 then intMin else n.log2

/-- `(int)(log2(delta) - 1)`, where `delta` is an `int`. -/
def deltaBitShift (delta : InstrT) : Int :=
  if 0 < delta.toInt then delta.toInt.toNat.log2 - 1 else intMin

/-- `1 << count`. -/
def shiftOne (count : Int) : InstrT := 1 <<< (count % 32).toNat

/-- `variableBits`, as it stands after the `if`, for a run of `diff` steps. -/
def variableBits (diff : Nat) : Int :=
  if isPower2 (BitVec.ofNat 32 (diff + 1)) then intLog2 diff else intLog2 diff - 1

/-- The loop over `k`. -/
def rangeMask (delta : InstrT) (diff : Nat) : InstrT :=
  (List.range (variableBits diff).toNat).foldl
    (fun mask (k : Nat) => mask ||| shiftOne (k + deltaBitShift delta)) 0

variable (instructions : List MaskedInstruction) (delta : InstrT)

/-- The inner `while`, and the index it leaves. -/
def runEnd (i : Nat) : Nat := walk (inSameRange · · delta) instructions i

/-- The index after the step back, for a run of `diff` steps that ends at `i`. -/
def stepBack (diff i : Nat) : Nat :=
  if isPower2 (BitVec.ofNat 32 (diff + 1)) then i else i - (diff + 1 - 2 ^ (variableBits diff).toNat)

/-- The `delta` for the next pass; at the end of the list it keeps its value. -/
def nextDelta (i : Nat) : InstrT :=
  if h : i + 2 < instructions.length then instructions[i + 2].instr - instructions[i + 1].instr
  else delta

theorem le_stepBack : i ≤ stepBack (runEnd instructions delta i - i) (runEnd instructions delta i) := by
  have hle : i ≤ runEnd instructions delta i := Progression.le_walk
  have := Nat.one_le_two_pow (n := (variableBits (runEnd instructions delta i - i)).toNat)
  rw [stepBack]
  split <;> omega

/-- The `for` of `main`, from index `i` on: the records it appends to `output`. -/
def loop (delta : InstrT) (i : Nat) : List MaskedInstruction :=
  if h : i < instructions.length then
    if !isPower2 delta then
      instructions[i] :: loop (nextDelta instructions delta i) (i + 1)
    else
      let begin := instructions[i]
      let diff := runEnd instructions delta i - i
      let last := stepBack diff (runEnd instructions delta i)
      ⟨begin.instr, begin.mask ||| rangeMask delta diff⟩ ::
        loop (nextDelta instructions delta last) (last + 1)
  else []
termination_by instructions.length - i
decreasing_by
  · omega
  · have := le_stepBack instructions delta (i := i)
    omega

/-- The records that are printed; `none` when there is no first one. -/
def main : Option (List MaskedInstruction) :=
  match instructions with
  | [] => none
  -- What is read behind the only record makes no difference (`loop_singleton`).
  | [_] => some (loop instructions 0 0)
  | a :: b :: _ => some (loop instructions (b.instr - a.instr) 0)

/-! ## The files -/

open Text (InputStream getline)

/-- The body of the reading loop. Without a blank, `split + 1` is 0 and both parts are the line. -/
def readRecord (line : List Char) : Option MaskedInstruction := do
  let split := line.idxOf ' '
  let first := line.take split
  let second := if split < line.length then line.drop (split + 1) else line
  let instruction := (← Text.stoul first).setWidth 32
  let mask := (← Text.stoul second).setWidth 32
  return ⟨instruction &&& ~~~mask, mask⟩

/-- The reading loop; `none` is an exception. -/
def readRecords (insns : InputStream) (line : List Char) : Option (List MaskedInstruction) :=
  let next := getline insns line
  if _ : next.2.eof then some []
  else do
    let mi ← readRecord next.1
    return mi :: (← readRecords next.2 next.1)
termination_by insns.rest.length
decreasing_by exact Text.length_getline (Bool.eq_false_iff.2 ‹_›)

/-- The array `s`, the highest bit first. -/
def maskedBinary (value mask : InstrT) : List Char :=
  (List.range 32).map fun k =>
    let i := 31 - k
    if mask &&& 1#32 <<< i != 0 then 'x' else if value &&& 1#32 <<< i != 0 then '1' else '0'

def printAsMaskedBinary (value mask : InstrT) : String :=
  String.ofList (maskedBinary value mask) ++ "\n"

/-- The program: what it prints for the file `fpOutput.txt`. -/
def run (file : String) : Option String := do
  let output ← main (← readRecords ⟨file.toList, false⟩ [])
  return String.join (output.map fun mi => printAsMaskedBinary mi.instr mi.mask)

end IScanU.RangeCompress
