import BlockStudio.Json.Reader
import BlockStudio.Json.Writer
import BlockStudio.Number.Num

/-!
# Rounds of measurement

Every round leaves one line of JSON in a file. The lines of earlier rounds number the next one, tell
when it follows, and show when the count of slow benchmarks stops falling: `Plateau` follows the
least count and how many rounds ago it was first reached.
-/

namespace BlockStudio

/-- The least count so far, and the number of rounds since it was first reached. -/
structure Plateau where
  best : Int
  since : Nat
  deriving DecidableEq, Repr

namespace Plateau

/-- After one more count; only a lower one is an improvement. -/
def next (p : Plateau) (n : Int) : Plateau :=
  if n < p.best then ⟨n, 0⟩ else ⟨p.best, p.since + 1⟩

/-- After a first count and those that follow. -/
def of (first : Int) (rest : List Int) : Plateau :=
  rest.foldl next ⟨first, 0⟩

/-- After any counts; none at all have no plateau. -/
def of? : List Int → Option Plateau
  | [] => none
  | first :: rest => some (of first rest)

end Plateau

/-- What is read of an earlier round. -/
structure PastRound where
  ts : Option Num
  /-- How many benchmarks were slow, if known. -/
  below : Option Int
  coverage : Num
  deriving Inhabited

namespace PastRound

/-- The coverage that is enough, in percent. -/
def enough : Num := .int 60

/-- A number that may be missing; `null` counts as missing. -/
def number? : Option Json → Option (Option Num)
  | none | some .null => some none
  | some (.int n) => some (some (.int n))
  | some (.float x) => some (some (.float x))
  | some (.bool b) => some (some (.int (if b then 1 else 0)))
  | some _ => none

def count? (j : Option Json) : Option (Option Int) :=
  match j with
  | none | some .null => some none
  | some (.int n) => some (some n)
  | some _ => none

/-- The round of a line, unless the line is no object or has a field of another kind. -/
def ofLine? (line : String) : Option PastRound :=
  match Json.parse line with
  | .ok (.object fields) => do
    let ts ← number? (fields.lookup "ts")
    let below ← count? (fields.lookup "n_below_repo_time")
    let coverage ← number? (fields.lookup "coverage_pct")
    some ⟨ts, below, coverage.getD (.int 0)⟩
  | _ => none

end PastRound

namespace History

def isBlankLine (line : String) : Bool :=
  line.toList.all fun c => isAsciiBlank c || isWideBlank c

/-- The lines of a file that hold something. -/
def lines (file : String) : List String :=
  (file.splitOn "\n").filter fun line => !isBlankLine line

def nextRound (file : String) : Nat :=
  (lines file).length + 1

/-- The earlier rounds, unless a line cannot be read. -/
def rounds? (file : String) : Option (List PastRound) :=
  (lines file).mapM PastRound.ofLine?

def counts (rounds : List PastRound) : List Int :=
  rounds.filterMap (·.below)

/-- The number of the first round with enough coverage, or zero. -/
def firstCovered (rounds : List PastRound) : Nat :=
  match rounds.findIdx? fun r => PastRound.enough.le r.coverage with
  | some i => i + 1
  | none => 0

/-- The seconds since the round before, to two places; zero when its time is unknown. -/
def sincePrevious (now : Float) (rounds : List PastRound) : Float :=
  match rounds.getLast?.bind (·.ts) with
  | some ts => if ts.isZero then 0 else roundPlaces 2 (now - ts.toFloat)
  | none => 0

end History

end BlockStudio
