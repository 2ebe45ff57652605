import BlockStudio.Json.Shown
import BlockStudio.Measure.Fingerprint

/-!
# The self-check of benchmarks

Each benchmark is called twice without parameters and once with each of its sets of parameters, and
what it gives back is kept as fingerprints. Equal fingerprints of the first two calls say that the
result is stable; different ones of the others, that it depends on the parameters.
-/

namespace BlockStudio

/-- Named parameters of a call. -/
abbrev Params := List (String × Json)

/-- What calling a benchmark does. -/
inductive Behaviour where
  /-- The calls give these values in order, and the last one again when they run out. -/
  | gives (results : List Sample)
  /-- A call gives one of its parameters back, or a default when it is not there. -/
  | echoes (name : String) (otherwise : Sample)
  /-- A call fails with an error of this kind. -/
  | fails (kind : String)
  | overruns
  deriving Inhabited

structure Bench where
  name : String
  /-- The sets of parameters to call it with. -/
  params : List Params
  behaviour : Behaviour
  deriving Inhabited

/-- What the self-check notes of a benchmark. -/
structure CheckRow where
  /-- The kind of the first result, or the failure in angle brackets. -/
  kind : String
  /-- The fingerprints of the two calls without parameters. -/
  stable : List String
  /-- The fingerprint for each set of parameters, by its tag. -/
  byParams : List (String × String)
  tags : List String
  inputs : List String
  deriving Inhabited

namespace Params

/-- A parameter's value in a tag: a text stands without quotes. -/
def valueText : Json → String
  | .text s => s
  | j => j.shown

def tag (p : Params) : String :=
  if p.isEmpty then "-" else ",".intercalate (p.map fun (k, v) => k ++ "=" ++ valueText v)

def fingerprints (p : Params) : List String :=
  p.map fun (_, v) => (Sample.ofJson v).fingerprint

end Params

namespace Behaviour

/-- The result of call number `k`, from zero, or the failure in angle brackets. -/
def call (b : Behaviour) (k : Nat) (p : Params) : Except String Sample :=
  match b with
  | gives results => .ok ((results[k]?.or results.getLast?).getD .none)
  | echoes name otherwise => .ok ((p.lookup name).elim otherwise Sample.read)
  | fails kind => .error ("<" ++ kind ++ ">")
  | overruns => .error "<timeout>"

end Behaviour

namespace CheckRow

def failed (kind : String) : CheckRow := ⟨kind, [], [], [], []⟩

/-- Put a text under a name: a name that is there keeps its place and takes the new text. -/
def put (name value : String) : List (String × String) → List (String × String)
  | [] => [(name, value)]
  | (n, v) :: rest => if n = name then (n, value) :: rest else (n, v) :: put name value rest

/-- The fingerprints of the calls with parameters, the first of them call number `k`. -/
def callEach (b : Behaviour) : Nat → List (String × String) → List Params →
    Except String (List (String × String))
  | _, done, [] => .ok done
  | k, done, p :: rest => do
    let v ← b.call k p
    callEach b (k + 1) (put p.tag v.fingerprint done) rest

def ofBench (b : Bench) : CheckRow :=
  let row : Except String CheckRow := do
    let first ← b.behaviour.call 0 []
    let second ← b.behaviour.call 1 []
    let byParams ← callEach b.behaviour 2 [] b.params
    return {
      kind := first.kindName
      stable := [first.fingerprint, second.fingerprint]
      byParams
      tags := "<default>" :: byParams.map (·.1)
      inputs := b.params.flatMap Params.fingerprints }
  match row with
  | .ok r => r
  | .error kind => failed kind

end CheckRow

namespace CheckRow

/-- The printed form of a row; times that were not taken are zero. -/
def json (r : CheckRow) : Json :=
  let zeros := Json.object (r.tags.map fun t => (t, .float 0))
  let texts (xs : List String) : Json := .array (xs.map .text)
  .object [("ret_type", .text r.kind), ("fp_stable", texts r.stable),
    ("fp_by_param", .object (r.byParams.map fun (t, f) => (t, .text f))),
    ("ext_frac", texts r.tags), ("repo_frac", zeros), ("repo_tt_ms", zeros),
    ("param_fps", texts r.inputs)]

end CheckRow

/-- The text of an error of a kind: an unknown key is quoted. -/
def errorText (kind text : String) : String :=
  if kind = "KeyError" then quoted text else text

/-- What is printed when the benchmarks cannot be loaded. -/
def loadFailure (kind text : String) : Json :=
  .object [("_import_error", .text (kind ++ ": " ++ errorText kind text))]

/-- The beginning of the names of benchmarks. -/
def benchLead : String := "bench_"

def selfcheck (benches : List Bench) : List (String × CheckRow) :=
  let named := benches.filter fun b => benchLead.toList.isPrefixOf b.name.toList
  (named.mergeSort fun a b => !(decide (b.name < a.name))).map fun b =>
    (b.name, CheckRow.ofBench b)

end BlockStudio
