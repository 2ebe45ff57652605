import BlockStudio.Measure.Coverage

/-!
# Verdicts on benchmarks

What a self-check says about each benchmark, and the lines that report it, with those that report
the share of time spent in measured code.
-/

namespace BlockStudio

inductive Verdict where
  | ok
  | error
  | returnsNone
  | unstable
  /-- It gives a parameter back. -/
  | returnsInput
  /-- Too little of its time is spent in measured code. -/
  | lowTime
  /-- Its result does not depend on its parameters. -/
  | paramInvariant
  /-- Measured files were changed. -/
  | modified
  deriving DecidableEq, Repr

namespace Verdict

def name : Verdict → String
  | ok => "ok"
  | error => "error"
  | returnsNone => "returns-none"
  | unstable => "unstable"
  | returnsInput => "returns-input"
  | lowTime => "low-repo-time"
  | paramInvariant => "param-invariant"
  | modified => "repo-modified"

/-- The advice on each finding. -/
def legend : List String :=
  ["  returns-none: run() has no return — collect and return the call results",
    "  unstable: seed RNG in setup; avoid time/uuid/id in the return",
    "  returns-input: return repo output, not the parameter value",
    "  low-repo-time: <50% of run() time is in repo code — move glue to setup",
    "  param-invariant: return something derived from run()'s work, not setup",
    "  repo-modified: revert edits to repo files (git checkout -- <path>)"]

end Verdict

/-- What a self-check notes of a benchmark, as it is read back. -/
structure Checked where
  name : String
  kind : String
  stable : List String
  byParams : List String
  times : List Float
  /-- The share of time spent in measured code. -/
  shares : List Float
  inputs : List String
  deriving Inhabited

namespace Checked

def texts (items : List Json) : List String :=
  items.filterMap fun
    | .text s => some s
    | _ => none

/-- The numbers among the fields of an object. -/
def numbers (j : Option Json) : List Float :=
  (Json.fieldsOf j).map fun (_, v) => (Json.numberOr (.int 0) (some v)).toFloat

def ofJson (name : String) (j : Json) : Checked where
  name := name
  kind := match j.field? "ret_type" with
    | some (.text s) => s
    | _ => ""
  stable := texts (Json.itemsOf (j.field? "fp_stable"))
  byParams := texts ((Json.fieldsOf (j.field? "fp_by_param")).map (·.2))
  times := numbers (j.field? "repo_tt_ms")
  shares := numbers (j.field? "repo_frac")
  inputs := texts (Json.itemsOf (j.field? "param_fps"))

def allEqual : List String → Bool
  | [] => true
  | a :: rest => rest.all (· == a)

/-- The least number of a list, or the one given. -/
def least (otherwise : Float) : List Float → Float
  | [] => otherwise
  | a :: rest => rest.foldl (fun m b => if b < m then b else m) a

/-- The verdict on a benchmark; the finding that stands first wins. -/
def verdict (modified : Bool) (c : Checked) : Verdict :=
  if c.kind.startsWith "<" then .error
  else if c.kind = "NoneType" then .returnsNone
  else if !allEqual c.stable then .unstable
  else if c.stable.head?.any (c.inputs.contains ·) then .returnsInput
  else if least 1 c.shares < 0.5 then .lowTime
  else if 2 ≤ c.byParams.length && allEqual c.byParams then .paramInvariant
  else if modified then .modified
  else .ok

/-- The middle of the numbers; of an even count, the mean of the two in the middle. -/
def median (xs : List Float) : Float :=
  let sorted := xs.mergeSort fun a b => !(b < a)
  let half := sorted.length / 2
  if sorted.isEmpty then 0
  else if sorted.length % 2 = 1 then sorted.getD half 0
  else (sorted.getD (half - 1) 0 + sorted.getD half 0) / 2

def line (modified : Bool) (c : Checked) : String :=
  let v := c.verdict modified
  let lead := "  " ++ (if v = .ok then " " else "*") ++ " " ++ leftAligned 32 c.name ++ " " ++
    leftAligned 16 v.name ++ " (" ++ c.kind
  if c.shares.isEmpty then lead ++ ")"
  else
    lead ++ ", repo " ++ fixedText 0 (least 0 c.shares * 100) ++ "%) " ++
      fixedText 1 (median c.times) ++ "ms"

def lines (modified : Bool) (rows : List Checked) : List String :=
  if rows.isEmpty then []
  else ["", "self-check (* = fix needed):"] ++ Verdict.legend ++ rows.map (line modified)

end Checked

namespace TimeShare

/-- The share below which a benchmark is slow, in percent. -/
def bound : Float := 45

/-- Whether a share is too low; a negative one is unknown. -/
def isBelow (x : Float) : Bool :=
  0 ≤ x && x < bound

def countBelow (shares : List (String × Float)) : Nat :=
  shares.countP fun (_, x) => isBelow x

def line (name : String) (x : Float) : String :=
  "  " ++ (if isBelow x then "*" else " ") ++ " " ++ leftAligned 32 name ++ " " ++
    rightAligned 5 (fixedText 1 x) ++ "%"

/-- The lines on all benchmarks, those with the lowest share first. -/
def lines (shares : List (String × Float)) : List String :=
  if shares.isEmpty then []
  else
    ["", "repo_time (target 50%; * = below 45%):"] ++
      (shares.mergeSort fun a b => !(b.2 < a.2)).map fun (name, x) => line name x

end TimeShare

end BlockStudio
