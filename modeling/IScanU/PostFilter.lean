import IScanU.Blacklist
import IScanU.Formatter

/-! # The filters of the findings (`analysis/constrainedFilter.cpp`,
`analysis/disasMistakes.cpp` and `analysis/filter.cpp`)

Each program reads a file of words, a line for each, and prints those it does not know. `none` is
what ends it early: an exception, or a value that is not defined. -/

namespace IScanU

open Text (InputStream getline)

def readInt (s : List Char) : Option InstrT := (Text.stoul s).map (·.setWidth 32)

/-- `printf("%u\n", insn)` -/
def printWord (insn : InstrT) : String := toString insn.toNat ++ "\n"

/-- The `while (true)` of `main`, the same in the three programs up to the test for a known word.
It returns what is printed from here on. -/
def readLoop (known : InstrT → Option Bool) (insn : InstrT) (line : List Char)
    (insns : InputStream) : Option String := do
  let printed := if ← known insn then "" else printWord insn
  let next := getline insns line
  if _ : next.2.eof then
    return printed
  else
    return printed ++ (← readLoop known (← readInt next.1) next.1 next.2)
termination_by insns.rest.length
decreasing_by exact Text.length_getline (Bool.eq_false_iff.2 ‹_›)

/-- `main`, from the opening of the file on. -/
def readFile (known : InstrT → Option Bool) (file : String) : Option String := do
  let (line, insns) := getline ⟨file.toList, false⟩ []
  readLoop known (← readInt line) line insns

/-- The loop over the formatters, with `isUnpredictable` as accumulator. -/
def isUnpredictable (formatters : List Formatter) (insn : InstrT) : Option Bool :=
  formatters.foldlM (fun acc f => return (← f.satisfiesFormat insn) || acc) false

namespace ConstrainedFilter

def sameFields (a b : String) : Rule := fun get => return (← get a) == (← get b)

/-- The base register is not `sp`. -/
def baseNotSp : Rule := fun get => return (← get "n") != 31

def singleBase : Rule := fun get => sameFields "t" "n" get <&&> baseNotSp get

def pairBase : Rule := fun get =>
  (sameFields "t" "n" get <||> sameFields "t2" "n" get) <&&> baseNotSp get

def pairSame : Rule := sameFields "t" "t2"

/-- Rule expanded to combine instructions. -/
def pairSameWriteback : Rule := fun get => do
  let index ← get "index"
  let opc ← get "opc"
  pure ((index == 1 || index == 2 || index == 3) && (opc == 0 || opc == 1 || opc == 2)) <&&>
    sameFields "t" "t2" get

def formats : List Format := [
  -- LDR
  ⟨[singleBase],
    ["indexPriv 10 2", "t 0 5", "n 5 5", "imm9 12 9", "size 30 2", "opcDC 22 1"], 3091203103⟩,
  -- LDP
  ⟨[pairBase, pairSame],
    ["t 0 5", "n 5 5", "t2 10 5", "imm7 15 7", "bitVariant 31 1", "prePostIndexed 24 1"],
    683671618⟩,
  -- LDP signed offset
  ⟨[pairSame], ["t 0 5", "n 5 5", "t2 10 5", "imm7 15 7", "bitVariant 31 1"], 692060160⟩,
  -- LDRS
  ⟨[singleBase], ["indexPriv 10 2", "t 0 5", "n 5 5", "imm9 12 9", "size 30 2"], 952108230⟩,
  -- STP
  ⟨[pairBase],
    ["t 0 5", "n 5 5", "t2 10 5", "imm7 15 7", "bitVariant 31 1", "prePostIndexed 24 1"],
    679477281⟩,
  -- LDPSW
  ⟨[pairBase, pairSame],
    ["t 0 5", "n 5 5", "t2 10 5", "imm7 15 7", "prePostIndexed 24 1"], 1757445151⟩,
  -- LDPSW signed offset
  ⟨[pairSame], ["t 0 5", "n 5 5", "t2 10 5", "imm7 15 7"], 1765801984⟩,
  -- LDNP
  ⟨[pairSame], ["t 0 5", "n 5 5", "t2 10 5", "imm7 15 7", "opc 31 1"], 675282944⟩,
  -- LDNP SIMD&FP 32&64
  ⟨[pairSame], ["t 0 5", "n 5 5", "t2 10 5", "imm7 15 7", "opc 30 1"], 742391808⟩,
  -- LDNP SIMD&FP 128
  ⟨[pairSame], ["t 0 5", "n 5 5", "t2 10 5", "imm7 15 7"], 2889875456⟩,
  -- LDP SIMD&FP pre post
  ⟨[pairSameWriteback],
    ["t 0 5", "n 5 5", "t2 10 5", "imm7 15 7", "index 23 2", "opc 30 2"], 2919235391⟩,
  -- LDAXP
  ⟨[pairSame], ["t 0 5", "n 5 5", "t2 10 5", "s 16 5", "sz 30 1"], 3363831711⟩,
  -- LDXP
  ⟨[pairSame], ["t 0 5", "n 5 5", "t2 10 5", "s 16 5", "sz 30 1"], 3363799007⟩]

def initFormatters : Option (List Formatter) := formats.mapM Formatter.create

def main (file : String) : Option String := do
  readFile (isUnpredictable (← initFormatters)) file

end ConstrainedFilter

namespace DisasMistakes

def imm5Rule : Rule := fun get => return (← get "imm5") != 0b10000

def formats : List Format := [
  -- INS
  ⟨[imm5Rule], ["imm5 16 5", "imm4 11 4", "regs 0 10"], 1847492607⟩,
  -- INS
  ⟨[imm5Rule], ["imm5 16 5", "imm4 11 4", "regs 0 10"], 1310658559⟩,
  -- INS
  ⟨[imm5Rule], ["imm5 16 5", "regs 0 10"], 236916735⟩]

def initFormatters : Option (List Formatter) := formats.mapM Formatter.create

def main (file : String) : Option String := do
  readFile (isUnpredictable (← initFormatters)) file

end DisasMistakes

namespace Filter

def entries : List InstructionMask :=
  [⟨0b10001000101000000111110000000000, 0b11000000010111111000001111111111⟩,
   ⟨0b00001000001000000111110000000000, 0b01000000010111111000001111111111⟩,
   ⟨0b01111000001000000000000000000000, 0b11000000110111110111001111111111⟩,
   ⟨0b00001000110000000000000000000000, 0b11000000000111110111111111111111⟩,
   ⟨0b01111111000000001101000000000000, 0b00000000111111110000101111111111⟩,
   ⟨0b00101111000000001101000000000000, 0b01000000111111110000101111111111⟩,
   ⟨0b01111110000000001000010000000000, 0b00000000110111110000001111111111⟩,
   ⟨0b00101110000000001000010000000000, 0b01000000110111110000001111111111⟩,
   ⟨0b01111111000000001111000000000000, 0b00000000111111110000101111111111⟩,
   ⟨0b00101111000000001111000000000000, 0b01000000111111110000101111111111⟩,
   ⟨0b01111110000000001000110000000000, 0b00000000110111110000001111111111⟩,
   ⟨0b00101110000000001000110000000000, 0b01000000110111110000001111111111⟩,
   ⟨0b00111000001000000000000000011111, 0b11000000010111110111001111100000⟩,
   ⟨0b00001000100000000000000000000000, 0b11000000000111110111111111111111⟩,
   ⟨0b00111000001000001000001111111111, 0b11000000110111110000001111111111⟩]

def blacklist : LowMemoryBlacklist := .ofList entries

def main (file : String) : Option String :=
  readFile (fun insn => some (blacklist.search insn)) file

end Filter

end IScanU
