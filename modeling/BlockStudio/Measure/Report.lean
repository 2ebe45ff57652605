import BlockStudio.Measure.History
import BlockStudio.Measure.Verdict
import BlockStudio.Project.Saved

/-!
# The report of a measurement

A measurement starts programs, reads what they print, reports it and leaves one line in the file of
rounds. `measure` gives everything that can be seen of it: what is printed, the commands that were
started, the line that is appended, and how it ended.
-/

namespace BlockStudio

/-- What starting a program gives. -/
inductive Launch where
  /-- It ran: its exit code and what it printed. -/
  | done (code : Int) (out err : String)
  | failed (kind text : String)
  deriving Inhabited

/-- Everything around a measurement. -/
structure Surroundings where
  runner : Launch
  repotime : Option Launch
  semcheck : Option Launch
  git : Launch
  coverage : Option String
  microbench : Option String
  checkpoint : Option String
  /-- Whether the file of rounds cannot be written. -/
  readonly : Bool
  /-- The clock before and after coverage is measured. -/
  clock : Float × Float
  now : Float

inductive Ending where
  | normal
  | exit (code : Int)
  | failed (kind text : String)
  deriving Inhabited

structure Report where
  lines : List String := []
  err : String := ""
  appended : List String := []
  commands : List (List String) := []
  ending : Ending := .normal
  deriving Inhabited

namespace Report

def print (r : Report) (more : List String) : Report :=
  { r with lines := r.lines ++ more }

def complain (r : Report) (text : String) : Report :=
  { r with err := r.err ++ text }

def start (r : Report) (command : List String) : Report :=
  { r with commands := r.commands ++ [command] }

def text (r : Report) : String :=
  String.join (r.lines.map (· ++ "\n"))

end Report

/-! ### Commands -/

def leftOut : List String :=
  ["*/microbench.py", "*/_pti_*.py", "*/setup.py", "*/conftest.py", "*/test_*.py", "*/*_test.py",
    "*/tests/*", "*/test/*", "*/__tests__/*", "*/__fixtures__/*", "*/_version.py"]

def runnerCommand : List String :=
  ["/repo/_pti_cov_runner.py", "/repo", "microbench", "/repo/_pti_coverage.json",
    (Json.array (leftOut.map Json.text)).write]

def timeCommand : List String := ["/repo/_pti_repotime.py"]

def changesCommand : List String :=
  ["git", "-C", "/repo", "status", "--porcelain", "--", ".", ":!microbench.py", ":!_pti_*",
    ":!.pti_*", ":!.coverage"]

def checkCommand : List String := ["/repo/_pti_semcheck.py"]

/-! ### What the programs print -/

/-- The kind of an error on text that is not JSON. -/
def jsonErrorKind : String := "JSONDecodeError"

/-- The object that a program printed: nothing when it printed blanks only. -/
def readPrinted (out : String) : Except (String × String) (Option Json) :=
  if History.isBlankLine out then .ok none
  else
    match Json.parse out with
    | .ok j => .ok (some j)
    | .error e => .error (jsonErrorKind, e.message out)

/-- Start a helper program and read what it prints; failures are only complained about. -/
def runHelper (r : Report) (name : String) (command : List String) (launch : Launch) :
    Report × Option Json :=
  let r := r.start command
  let complaint (kind text : String) : String :=
    "[" ++ name ++ " runner: " ++ kind ++ ": " ++ text ++ "]\n"
  match launch with
  | .failed kind text => (r.complain (complaint kind text), none)
  | .done _ out err =>
    let r := r.complain err
    match readPrinted out with
    | .ok j => (r, j)
    | .error (kind, text) => (r.complain (complaint kind text), none)

def sharesOf (j : Option Json) : List (String × Float) :=
  (Json.fieldsOf (j.bind (Json.field? "repo_time_pct"))).map fun (name, v) =>
    (name, (Json.numberOr (.int 0) (some v)).toFloat)

def checksOf (j : Option Json) : List Checked :=
  (Json.fieldsOf (j.bind (Json.field? "semcheck"))).map fun (name, v) => Checked.ofJson name v

/-- Whether a character can stand in a name. -/
def isNameChar (c : Char) : Bool :=
  c.isAlphanum || c = '_'

/-- The number of benchmarks that a file defines: lines that begin with a definition of a name that
starts like a benchmark's and goes on. -/
def countBenches (file : String) : Nat :=
  (file.splitOn "\n").countP fun line =>
    let lead := "def bench_".toList
    lead.isPrefixOf line.toList && (line.toList.drop lead.length).head?.any isNameChar

/-! ### The last lines -/

structure Findings where
  round : Nat
  benches : Nat
  coverage : Coverage
  shares : List (String × Float)
  verdicts : List (String × Verdict)
  seconds : Float

namespace Findings

/-- The number of slow benchmarks, if times were measured. -/
def below (f : Findings) : Option Nat :=
  if f.shares.isEmpty then none else some (TimeShare.countBelow f.shares)

/-- The number of benchmarks with something to mend. -/
def toMend (f : Findings) : Nat :=
  f.verdicts.countP fun (_, v) => decide (v ≠ .ok)

def line (f : Findings) : String :=
  let times := match f.below with
    | some n =>
      ", " ++ Nat.repr n ++ "/" ++ Nat.repr f.shares.length ++ " below repo_time 45%"
    | none => ""
  let checks :=
    if f.verdicts.isEmpty then ""
    else ", " ++ Nat.repr f.toMend ++ "/" ++ Nat.repr f.verdicts.length ++ " not self-checking"
  "[round " ++ Nat.repr f.round ++ ": " ++ Nat.repr f.benches ++ " benches, " ++
    fixedText 1 f.coverage.percent.toFloat ++ "% covered" ++ times ++ checks ++ ", measured in " ++
    fixedText 1 f.seconds ++ "s]"

def entry (f : Findings) (now : Float) (past : List PastRound) : String :=
  let number : Num → Json
    | .int n => .int n
    | .float x => .float x
  (Json.object [
    ("round", .int f.round),
    ("ts", .float now),
    ("wall_since_prev_s", .float (History.sincePrevious now past)),
    ("coverage_pct", number f.coverage.percent),
    ("covered_lines", number f.coverage.covered),
    ("num_statements", number f.coverage.statements),
    ("n_bench_fns", .int f.benches),
    ("n_bench_errors", .int f.coverage.errors.length),
    ("cov_measure_s", .float (roundPlaces 3 f.seconds)),
    ("repo_time_pct", .object (f.shares.map fun (name, x) => (name, .float x))),
    ("n_below_repo_time", f.below.elim .null fun n => .int n),
    ("semcheck", .object (f.verdicts.map fun (name, v) => (name, .text v.name))),
    ("n_not_self_checking", .int f.toMend)]).write ++ "\n"

/-- The rounds without improvement after which measuring stops. -/
def patience : Nat := 3

/-- The reason to stop, if there is one: no benchmark is slow, or their number no longer falls. -/
def stopReason? (f : Findings) (counts : List Int) : Option String := do
  let n ← f.below
  if PastRound.enough.le f.coverage.percent then
    if n = 0 then some "0 below"
    else
      let p ← Plateau.of? (counts ++ [(n : Int)])
      if patience ≤ p.since then
        some ("no improvement in " ++ Nat.repr patience ++ " rounds; best " ++ Int.repr p.best ++
          " below")
      else none
  else none

def stopLines (f : Findings) (counts : List Int) : List String :=
  match f.stopReason? counts with
  | some why =>
    ["", ">>> STOP: repo_time converged (" ++ why ++ "). Finalize microbench.py now. <<<"]
  | none => []

end Findings

/-! ### The measurement -/

def reportOn (s : Surroundings) (coverage : Coverage) (r : Report) : Report :=
  let r := (r.print coverage.table).print coverage.errorLines
  let (r, times) := match s.repotime with
    | some launch => runHelper r "repotime" timeCommand launch
    | none => (r, none)
  let shares := sharesOf times
  let r := r.print (TimeShare.lines shares)
  let modified := match s.git with
    | .done _ out _ => !History.isBlankLine out
    | .failed .. => false
  let (r, checks) := match s.semcheck with
    | some launch => runHelper (r.start changesCommand) "semcheck" checkCommand launch
    | none => (r, none)
  let checks := checksOf checks
  let r := r.print (Checked.lines modified checks)
  let file := s.checkpoint.getD ""
  let findings : Findings := {
    round := History.nextRound file
    benches := (s.microbench.map countBenches).getD 0
    coverage
    shares
    verdicts := checks.map fun c => (c.name, c.verdict modified)
    seconds := s.clock.2 - s.clock.1 }
  let past := History.rounds? file
  let appended := match past with
    | some past => if s.readonly then [] else [findings.entry s.now past]
    | none => []
  let r := { r with appended }
  let counts := (past.map History.counts).getD []
  (r.print ["", findings.line]).print (findings.stopLines counts)

def measure (s : Surroundings) : Report :=
  let r : Report := ({} : Report).start runnerCommand
  match s.runner with
  | .failed kind text => { r with ending := .failed kind text }
  | .done code out err =>
    let r := r.complain err
    match code, s.coverage with
    | 0, some text =>
      match Json.parse text with
      | .error e => { r with ending := .failed jsonErrorKind (e.message text) }
      | .ok (.object fields) => reportOn s (Coverage.ofJson fields) r
      | .ok j =>
        { r with ending := .failed "AttributeError" (Fault.noAttribute j.kindName "get").message }
    | code, _ =>
      let r := r.print ["coverage measurement failed (exit " ++ Int.repr code ++ ")", out]
      { r with ending := .exit (if code = 0 then 1 else code) }

end BlockStudio
