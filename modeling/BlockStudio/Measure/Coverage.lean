import BlockStudio.Json.Shown
import BlockStudio.Text.Column

/-!
# The coverage table

How much of each file the benchmarks reach: one row a file, those reached least first, and a row of
totals. Numbers that are missing count as zero.
-/

namespace BlockStudio

namespace Json

/-- The number that a value is, or zero. -/
def numberOr (otherwise : Num) : Option Json → Num
  | some (int n) => .int n
  | some (float x) => .float x
  | _ => otherwise

def fieldsOf (j : Option Json) : List (String × Json) :=
  (j.map fields).getD []

def itemsOf (j : Option Json) : List Json :=
  (j.map items).getD []

end Json

structure FileCover where
  name : String
  statements : Num
  missing : Num
  percent : Num
  lines : List Num
  deriving Inhabited

structure Coverage where
  percent : Num
  covered : Num
  statements : Num
  errors : List (String × Json)
  files : List FileCover
  deriving Inhabited

namespace FileCover

/-- The parts of a path below the root, without `.` and with `..` resolved. -/
def resolve (parts : List String) : List String :=
  (parts.foldl (fun done p =>
    if p = "" || p = "." then done else if p = ".." then done.drop 1 else p :: done) []).reverse

/-- The steps from one place to another: up to the last common part, then down. -/
def steps : List String → List String → List String
  | a :: up, b :: down =>
    if a = b then steps up down else (a :: up).map (fun _ => "..") ++ b :: down
  | up, down => up.map (fun _ => "..") ++ down

def home : String := "/repo"

/-- A path as seen from the measured directory. -/
def relative (path : String) : String :=
  let full := if path.startsWith "/" then path else home ++ "/" ++ path
  let parts := steps (resolve (home.splitOn "/")) (resolve (full.splitOn "/"))
  if parts.isEmpty then "." else "/".intercalate parts

/-- The greatest width of a name in the table. -/
def nameWidth : Nat := 60

def ofJson (path : String) (j : Json) : FileCover :=
  let summary := j.field? "summary"
  let number (name : String) : Num := Json.numberOr (.int 0) (summary.bind (Json.field? name))
  { name := String.ofList ((relative path).toList.take nameWidth)
    statements := number "num_statements"
    missing := number "missing_lines"
    percent := number "percent_covered"
    lines := (Json.itemsOf (j.field? "missing_lines")).map fun i => Json.numberOr (.int 0) (some i) }

/-- Whether a file stands before another: less of it is reached, or as much and more is missing. -/
def before (a b : FileCover) : Bool :=
  a.percent.lt b.percent || (a.percent.eq b.percent && b.missing.lt a.missing)

/-- How many lines a row names. -/
def shownLines : Nat := 12

/-- The lines not reached, as a row names them. -/
def linesText (f : FileCover) : String :=
  ",".intercalate ((f.lines.take shownLines).map Num.text) ++
    (if shownLines < f.lines.length then "…" else "")

end FileCover

namespace Coverage

def ofJson (fields : List (String × Json)) : Coverage :=
  let totals := fields.lookup "totals"
  let number (otherwise : Num) (name : String) : Num :=
    Json.numberOr otherwise (totals.bind (Json.field? name))
  { percent := number (.float 0) "percent_covered"
    covered := number (.int 0) "covered_lines"
    statements := number (.int 0) "num_statements"
    errors := Json.fieldsOf ((fields.lookup "meta").bind (Json.field? "_pti_bench_errors"))
    files := (Json.fieldsOf (fields.lookup "files")).map fun (path, j) => FileCover.ofJson path j }

def percentText (n : Num) : String :=
  fixedText 0 n.toFloat ++ "%"

def columns (width : Nat) (name statements missing cover : String) : String :=
  leftAligned width name ++ "  " ++ rightAligned 5 statements ++ "  " ++ rightAligned 4 missing ++
    "  " ++ rightAligned 5 cover

def width (c : Coverage) : Nat :=
  c.files.foldl (fun w f => max w f.name.length) 4

def sorted (c : Coverage) : List FileCover :=
  c.files.mergeSort fun a b => !b.before a

def table (c : Coverage) : List String :=
  let w := c.width
  let rule := String.ofList (List.replicate (w + 42) '-')
  [columns w "Name" "Stmts" "Miss" "Cover" ++ "  Missing", rule] ++
    c.sorted.map (fun f =>
      columns w f.name f.statements.text f.missing.text (percentText f.percent) ++ "  " ++
        f.linesText) ++
    [rule, columns w "TOTAL" c.statements.text (c.statements.sub c.covered).text
      (percentText c.percent)]

/-- How many failed benchmarks are named. -/
def shownErrors : Nat := 8

def errorLines (c : Coverage) : List String :=
  if c.errors.isEmpty then []
  else
    ["", Nat.repr c.errors.length ++ " bench error(s):"] ++
      (c.errors.take shownErrors).map fun (name, e) =>
        "  " ++ name ++ ": " ++ (match e with
          | .text s => s
          | other => other.shown)

end Coverage

end BlockStudio
