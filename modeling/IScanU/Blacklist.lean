import IScanU.ArchProperties

/-! # Blacklists (`src/Blacklist.cpp`) -/

namespace IScanU

structure InstructionMask where
  valueMask : InstrT
  dontCareMask : InstrT
deriving DecidableEq, Repr

/-- An `add` of either class; both have one overload for a word and one for a mask. -/
inductive Add
  | instr (k : InstrT)
  | mask (m : InstructionMask)

/-! ## `Blacklist` -/

structure Blacklist where
  searchSet : List InstrT

/-- `m.dontCareMask & (mask << i)`, as a condition. -/
def InstructionMask.isDontCare (m : InstructionMask) (i : Nat) : Bool :=
  m.dontCareMask &&& 1 <<< i != 0

def InstructionMask.numDontCares (m : InstructionMask) : Nat :=
  (List.range 32).countP m.isDontCare

/-- The innermost loop over the running index `k`: the don't-care position it stops at. -/
def InstructionMask.nextDontCare (m : InstructionMask) (k : Nat) : Option Nat :=
  (List.range' k (32 - k)).find? m.isDontCare

/-- One pass through the loop over `j`. The running index stands behind the position found for the
previous `j`, and at the end of the word once there is none left. -/
def InstructionMask.fillDontCare (m : InstructionMask) (i : InstrT) (s : Nat × InstrT) (j : Nat) :
    Nat × InstrT :=
  match m.nextDontCare s.1 with
  | some k => (k + 1, s.2 ||| (i &&& 1 <<< j) <<< (k - j))
  | none => (32, s.2)

/-- The instruction built for the counter value `i`. -/
def InstructionMask.fillDontCares (m : InstructionMask) (i : InstrT) : InstrT :=
  ((List.range m.numDontCares).foldl (m.fillDontCare i) (0, m.valueMask &&& ~~~m.dontCareMask)).2

/-- `(instr_t)(1 << numDontCares)`, where the shift is defined. -/
def InstructionMask.numInstructions (m : InstructionMask) : Option Nat :=
  if m.numDontCares < 32 then some (1 <<< m.numDontCares) else none

/-- The words that the loop of `add(InstructionMask)` inserts, in this order. Where the shift is not
defined, `overflow` is what the implementation makes of it. -/
def InstructionMask.insertions (m : InstructionMask) (overflow : InstrT) : List InstrT :=
  (List.range (m.numInstructions.getD overflow.toNat)).map fun i =>
    m.fillDontCares (BitVec.ofNat 32 i)

namespace Blacklist

def search (b : Blacklist) (k : InstrT) : Bool := b.searchSet.contains k

/-- `add(instr_t)`. -/
def add (b : Blacklist) (k : InstrT) : Blacklist := ⟨b.searchSet.insert k⟩

/-- `add(InstructionMask)`. -/
def addMask (b : Blacklist) (m : InstructionMask) : Option Blacklist :=
  m.numInstructions.map fun n =>
    (List.range n).foldl (fun b i => b.add (m.fillDontCares (BitVec.ofNat 32 i))) b

/-- The constructor. -/
def ofList (startList : List InstructionMask) : Option Blacklist :=
  startList.foldlM addMask ⟨[]⟩

def call (b : Blacklist) : Add → Option Blacklist
  | .instr k => b.add k
  | .mask m => b.addMask m

@[simp] theorem search_add {b : Blacklist} : (b.add x).search k = (k == x || b.search k) := by
  rw [Bool.eq_iff_iff]
  simp [search, add]

end Blacklist

/-! ## `LowMemoryBlacklist` -/

/-- `searchSet` holds pairs of a reference instruction and a mask. The don't-care masks have been
inverted and are thus used as do-care masks. -/
structure LowMemoryBlacklist where
  searchSet : List (InstrT × InstrT)

namespace LowMemoryBlacklist

def search (b : LowMemoryBlacklist) (k : InstrT) : Bool :=
  b.searchSet.any fun entry => (k &&& entry.2) == entry.1

def addMask (b : LowMemoryBlacklist) (m : InstructionMask) : LowMemoryBlacklist :=
  let careMask := ~~~m.dontCareMask
  let processedRefInstruction := m.valueMask &&& careMask
  ⟨b.searchSet.insert (processedRefInstruction, careMask)⟩

def add (b : LowMemoryBlacklist) (k : InstrT) : LowMemoryBlacklist :=
  b.addMask ⟨k, 0⟩

/-- The constructor. -/
def ofList (startList : List InstructionMask) : LowMemoryBlacklist :=
  startList.foldl addMask ⟨[]⟩

def call (b : LowMemoryBlacklist) : Add → LowMemoryBlacklist
  | .instr k => b.add k
  | .mask m => b.addMask m

theorem search_addMask (b : LowMemoryBlacklist) (m : InstructionMask) (k : InstrT) :
    (b.addMask m).search k =
      ((k &&& ~~~m.dontCareMask) == (m.valueMask &&& ~~~m.dontCareMask) || b.search k) := by
  rw [Bool.eq_iff_iff]
  simp [search, addMask, List.any_eq_true]

end LowMemoryBlacklist

end IScanU
