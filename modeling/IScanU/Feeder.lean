import IScanU.Scanner
import IScanU.Theory.CyclicInterval

/-! # General fetch stages (`src/Feeder.cpp`)

A fetch stage returns `none` where the C++ function returns true (the worker is finished), and
the instruction it writes through `nextInstruction` where it returns false. It writes that
instruction as its last action, so a caller that passes the address of `currentInstruction` is a
caller that stores the result there. -/

namespace IScanU

abbrev FetchStage := Scanner → Option InstrT × Scanner

/-- The `while(blacklist.search(tempInstruction))` loop of `exhaustive`. -/
def exhaustiveLoop (search : InstrT → Bool) (tempInstruction : InstrT) (data : Scanner) :
    Option InstrT × Scanner :=
  if search tempInstruction then
    if tempInstruction = data.finalInstruction then
      (none, data)
    else
      exhaustiveLoop search (tempInstruction + 1#32) (data.count 1)
  else
    (some tempInstruction, data)
termination_by (data.finalInstruction - tempInstruction).toNat
decreasing_by
  rename_i h
  rw [Scanner.count_finalInstruction, Cyclic.toNat_sub_succ h]
  exact Nat.lt_succ_self _

/-- Next instruction is current + 1, unless blacklisted. -/
def exhaustive (search : InstrT → Bool) : FetchStage := fun data =>
  if data.currentInstruction = data.finalInstruction then
    (none, data)
  else
    exhaustiveLoop search (data.currentInstruction + 1#32) data

end IScanU
