import IScanU.Scanner

/-! # Analysis stages (`src/Analyser.cpp`)

All functions that `analyse` may point to do the same kind of thing: they write lines of their own
through `outputFD` and may change the `sizeError` flag. A stage is given by these two; it cannot
touch anything else. -/

namespace IScanU

structure AnalysisStage where
  /-- The lines written for the instruction that just came out. -/
  lines : Scanner → List String
  /-- The value left in `sizeError`. -/
  sizeError : Scanner → Bool

/-- Call `analyse` and record the call. -/
@[simps] def AnalysisStage.call (analyse : AnalysisStage) (data : Scanner) : Scanner :=
  { data with
    outputFD := data.outputFD ++ (analyse.lines data).map .analysis
    sizeError := analyse.sizeError data
    analysed := data.analysed ++ [data.currentInstruction] }

/-- The text of the `D` and `H` lines. -/
def findingLine (kind : String) (instr : InstrT) (signo siCode : Int) : String :=
  kind ++ " " ++ toString instr.toNat ++ " " ++ toString signo ++ " " ++ toString siCode ++ "\n"

/-- The line that `basicAnalysis` writes, if any. An instruction is not recognized when SIGILL is
delivered with `ILL_ILLOPC`. -/
def verdict (isValid : Bool) (instr : InstrT) (signo siCode : Int) : List String :=
  if signo = SIGILL ∧ siCode = ILL_ILLOPC ∧ isValid then
    [findingLine "D" instr signo siCode]
  else if ¬(signo = SIGILL ∧ siCode = ILL_ILLOPC) ∧ ¬isValid then
    [findingLine "H" instr signo siCode]
  else []

/-- Determines if the instruction is hidden based on disassembler and signal number analysis. -/
@[simps] def basicAnalysis (disassemble : Scanner → Bool) : AnalysisStage where
  lines data := verdict (disassemble data) data.currentInstruction data.lastSigno data.lastInfo.siCode
  sizeError data := data.sizeError

end IScanU
