import IScanU.Analyser
import IScanU.PostFilter
import Mathlib.Data.List.Infix

/-! # What the scripts make of the output files (`exp/`, `analysis/`) -/

namespace IScanU

/-- The characters that are written for a line, at time `now`. -/
def OutputLine.text (now : Int) : OutputLine → String
  | .timestamp => "time: " ++ toString now ++ "\n"
  | .startOfRun => "======= start of run =======\n"
  | .endOfRun => "======= end of run =======\n"
  | .analysis text => text

/-- A file that some lines have been written to. -/
inductive Contents : List OutputLine → String → Prop
  | nil : Contents [] ""
  | cons (now : Int) : Contents lines file → Contents (line :: lines) (line.text now ++ file)

/-! ## Hidden instructions (`exp/analysis.sh`) -/

/-- The lines that `grep pattern | awk '{ print $2 }'` prints. -/
def secondFields (pattern text : String) : List (List Char) :=
  ((Text.lines text.toList).filter (pattern.toList <:+: ·)).map Text.secondField

/-- The file `disas`. `results` is what `cat` prints for the output files of the workers, in the
order in which the shell names them. -/
def disas (results : String) : String :=
  String.ofList (Text.unlines true (secondFields "D" results))

/-- What a filter leaves in `temp`. When the first line of its file is no number, as in an empty
file, it dies with nothing printed, and the script goes on. `none` where it dies later, when part of
what it has printed is still in its buffer. -/
def redirect (filter : String → Option String) (file : String) : Option String :=
  if (readInt (Text.getline ⟨file.toList, false⟩ []).1).isNone then some "" else filter file

/-- The file `hiddens` that the script leaves in the input directory. Its other files, `disas` among
them, are removed at the end. -/
def analysis (results : String) : Option String := do
  let hiddens := String.ofList (Text.unlines true (secondFields "H" results))
  -- Filter out constrained unpredictable instructions
  let hiddens ← redirect ConstrainedFilter.main hiddens
  -- Filter out disassembler mistakes
  redirect DisasMistakes.main hiddens

/-! ## Throughput (`exp/coreScaling.sh`, `analysis/process.py`) -/

/-- The file `results/performance`: a time stamp follows each log. -/
inductive Performance : List String → String → Prop
  | nil : Performance [] ""
  | cons (now : Int) : Performance logs file →
    Performance (log :: logs) (log ++ OutputLine.timestamp.text now ++ file)

/-- What is measured, before the division by the length of an interval. -/
def totals (performance : String) : List (List Char) := secondFields "Total" performance

/-- The variables of the loop in `analysis/process.py`. -/
structure Clean where
  threads : Nat
  c : Nat
  /-- What has been written, without the newlines. -/
  o : List (List Char)

/-- The loop for a run with `i` threads. -/
def Clean.line (i : Nat) (s : Clean) (line : List Char) : Clean :=
  let threads := if "thread".toList.isPrefixOf line then s.threads + 1 else s.threads
  let threads := if "==".toList.isPrefixOf line then 0 else threads
  if "Total".toList.isPrefixOf line ∧ line.getLast? = some '\n' ∧ threads = i then
    { threads := threads
      c := s.c + 1
      o := if s.c ≠ 0 then s.o ++ [(line.drop 7).dropLast] else s.o }
  else { s with threads := threads }

/-- The file `totals_clean` for a run with `i` threads. -/
def totalsClean (i : Nat) (performance : String) : String :=
  .ofList (Text.unlines true ((Text.records performance.toList).foldl (Clean.line i) ⟨0, 0, []⟩).o)

end IScanU
