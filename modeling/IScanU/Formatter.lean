import IScanU.ArchProperties
import IScanU.Theory.Text

/-! # Instruction formats (`Formatter` of `analysis/constrainedFilter.cpp` and
`analysis/disasMistakes.cpp`)

The two programs have the same class. `none` is an exception, or the use of a value that the
language leaves undefined or that was never set. -/

namespace IScanU

structure Field where
  mask : InstrT
  shift : BitVec 32
deriving DecidableEq, Repr

/-- A rule is a function of an instruction that calls `extractField` on it. -/
abbrev Rule := (String → Option InstrT) → Option Bool

/-- The entries of `fieldMap` are in the order of their insertion, which no function depends on. -/
structure Formatter where
  rules : List Rule := []
  fieldMap : List (String × Field) := []
  fixedForm : Option InstrT := none
  significantMask : Option InstrT := none

/-- The arguments of the calls that set up a formatter. -/
structure Format where
  rules : List Rule
  fields : List String
  insn : InstrT

namespace Formatter

variable (f : Formatter)

def finish (insn : InstrT) : Formatter :=
  let significantMask := f.fieldMap.foldl (fun m field => m &&& ~~~field.2.mask) (-1)
  { f with significantMask := some significantMask, fixedForm := some (insn &&& significantMask) }

/-- A name without an entry gets one whose mask and shift are not set. -/
def extractField (fieldName : String) (insn : InstrT) : Option InstrT :=
  (f.fieldMap.lookup fieldName).map fun field => (insn &&& field.mask) >>> field.shift

def satisfiesFormat (insn : InstrT) : Option Bool := do
  if insn &&& (← f.significantMask) == (← f.fixedForm) then
    f.rules.anyM fun rule => rule (f.extractField · insn)
  else
    return false

/-- `fieldMap.insert`, which keeps an entry that exists. -/
def insert (fieldName : String) (field : Field) : Formatter :=
  match f.fieldMap.lookup fieldName with
  | some _ => f
  | none => { f with fieldMap := f.fieldMap ++ [(fieldName, field)] }

/-- `((uint32_t)pow(2, len) - 1) << shift`. The conversion and the shift are defined below 32. -/
def fieldMask (len shift : BitVec 32) : Option InstrT :=
  if len < 32 ∧ shift < 32 then some ((1#32 <<< len - 1) <<< shift) else none

def addField (fieldString : String) : Option Formatter := do
  let s := fieldString.toList
  -- Without a blank the string for the shift is empty.
  let split ← s.findIdx? (· == ' ')
  let fieldName := String.ofList (s.take split)
  let split2 := s.length - 1 - s.reverse.findIdx (· == ' ')
  let shiftString := (s.drop (split + 1)).take (split2 - split)
  let lenString := s.drop (split2 + 1)
  let len := BitVec.ofInt 32 (← Text.stoi lenString)
  let shift := BitVec.ofInt 32 (← Text.stoi shiftString)
  return f.insert fieldName ⟨← fieldMask len shift, shift⟩

/-- What `initFormatters` does for a formatter: it adds the rules and the fields, and finishes. -/
def create (format : Format) : Option Formatter := do
  let f ← format.fields.foldlM addField { rules := format.rules }
  return f.finish format.insn

end Formatter

end IScanU
