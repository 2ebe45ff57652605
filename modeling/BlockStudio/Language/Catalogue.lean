import BlockStudio.Language.Definition

/-!
# The catalogue of blocks

Every block that the palette offers, by category. A block without a colour of its own takes the
colour of its category. Saved blocks find their definition by name, the first one that matches.
-/

namespace BlockStudio

/-- The empty stack that an unfilled body stands for. -/
def blankStack : StackId := ⟨0⟩

namespace Component

/-- The value of an unfilled slot that was given none of its own. -/
def kindDefault : SlotKind → Value
  | .boolean => .bool false
  | .statement => .stack blankStack
  | _ => .text ""

/-- A component with a default of its own, unless that is no value. -/
def make (kind : SlotKind) (default : Value) (text : Option String) : Component where
  kind := kind
  default := match default with
    | .none => kindDefault kind
    | v => v
  text := text

def label (text : String) : Component :=
  make .label .none (some text)

/-- A slot with the default of its kind. -/
def slot (kind : SlotKind) : Component :=
  make kind .none none

/-- A slot with a default of its own. -/
def slotWith (kind : SlotKind) (default : Value) : Component :=
  make kind default none

end Component

open Component

/-- A block of a category, before it has a place in the catalogue. -/
structure Blueprint where
  id : String
  blockType : BlockType
  components : List Component
  action : Action
  outputType : DataType := .nil

structure Category where
  name : String
  description : String
  color : Paint
  blocks : List Definition

/-- A category whose first block stands at place `first` of the catalogue. -/
def Category.make (first : Nat) (name description : String) (red green blue : Int)
    (blueprints : List Blueprint) : Category :=
  let color : Paint := .parts [.int red, .int green, .int blue]
  { name, description, color
    blocks := blueprints.zipIdx.map fun (b, i) =>
      { origin := .catalogue (first + i), id := b.id, blockType := b.blockType,
        components := b.components, color, outputType := b.outputType, action := b.action } }

namespace Catalogue

def control : Category :=
  .make 0 "Control" "Controls how the program runs." 255 229 158
    [⟨"start", .hat, [label "when the program starts"], .start, .nil⟩,
      ⟨"sleep", .statement,
        [label "wait for", slotWith .number (.int 1), label "seconds"], .sleep, .nil⟩,
      ⟨"repeat", .statement,
        [label "repeat", slotWith .number (.int 10), label "times", slot .statement],
        .repeatTimes, .nil⟩,
      ⟨"for", .statement,
        [label "for each", slot .varName, label "in", slot .varName, slot .statement],
        .forEach, .nil⟩,
      ⟨"while", .statement,
        [label "repeat while", slotWith .boolean (.bool true), label "is true", slot .statement],
        .whileTrue, .nil⟩,
      ⟨"if", .statement,
        [label "if", slot .boolean, label "then", slot .statement], .ifThen, .nil⟩,
      ⟨"if-else", .statement,
        [label "if", slot .boolean, label "then", slot .statement, label "else", slot .statement],
        .ifElse, .nil⟩,
      ⟨"try", .statement,
        [label "try to do", slot .statement, label "except on error", slot .statement],
        .attempt, .nil⟩,
      ⟨"break", .cap, [label "stop the current loop"], .breakLoop, .nil⟩,
      ⟨"continue", .cap, [label "skip to next iteration"], .continueLoop, .nil⟩,
      ⟨"quit", .cap, [label "quit the program"], .quit, .nil⟩]

def input : Category :=
  .make 11 "Input" "Gathers input from the user." 158 168 255
    [⟨"input", .reporter,
        [label "ask", slotWith .text (.text "What's your name? ")], .ask, .text⟩,
      ⟨"read-file", .reporter,
        [label "read from file", slotWith .text (.text "input.txt")], .readFile, .text⟩]

def output : Category :=
  .make 13 "Output" "How the program outputs information." 255 158 182
    [⟨"print", .statement, [label "say", slotWith .text (.text "Hello world!")], .say, .nil⟩,
      ⟨"write-file", .statement,
        [label "write to file", slotWith .text (.text "output.txt"), label "contents",
          slotWith .text (.text "Hello world!")], .writeFile, .nil⟩]

/-- A reporter of two numbers with a sign between them. -/
def arithmetic (id sign : String) (action : Action) : Blueprint :=
  ⟨id, .reporter, [slot .number, label sign, slot .number], action, .number⟩

/-- A reporter of one number after a word. -/
def unary (id word : String) (action : Action) : Blueprint :=
  ⟨id, .reporter, [label word, slot .number], action, .number⟩

def number : Category :=
  .make 15 "Number" "Manipulates numbers and does calculations." 164 255 158
    [arithmetic "+" "+" .add, arithmetic "-" "-" .subtract, arithmetic "*" "×" .multiply,
      arithmetic "/" "÷" .divide, arithmetic "^" "^" .power, arithmetic "%" "mod" .remainder,
      ⟨"rand", .reporter,
        [label "random number between", slotWith .number (.int 1), label "and",
          slotWith .number (.int 10)], .random, .number⟩,
      ⟨"parse-number", .reporter,
        [label "parse", slotWith .text (.text "-17.25"), label "as a number"],
        .parseNumber, .number⟩,
      ⟨"convert-base", .reporter,
        [label "convert", slotWith .text (.text "2A"), label "from base",
          slotWith .number (.int 16)], .convertBase, .number⟩,
      unary "round" "round" .round, unary "floor" "round down" .floor,
      unary "ceil" "round up" .ceiling, unary "pos" "positive of" .absolute,
      unary "neg" "negative of" .negate,
      ⟨"root", .reporter,
        [slotWith .number (.int 2), label "th root of", slot .number], .root, .number⟩,
      ⟨"log", .reporter,
        [label "log base", slotWith .number (.int 10), label "of", slot .number],
        .logarithm, .number⟩]

/-- A reporter that compares what stands in two slots of a kind. -/
def comparing (kind : SlotKind) (id sign : String) (action : Action) : Blueprint :=
  ⟨id, .reporter, [slot kind, label sign, slotWith kind (.int 50)], action, .boolean⟩

def comparison : Category :=
  .make 31 "Compare" "Compare and contrasts different values." 158 245 255
    [comparing .any "=" "=" .equal, comparing .any "!=" "≠" .unequal,
      comparing .number ">" ">" .greater, comparing .number ">=" "≥" .greaterEqual,
      comparing .number "<" "<" .less, comparing .number "<=" "≤" .lessEqual]

/-- A reporter of two truth values with a word between them. -/
def connective (id word : String) (action : Action) : Blueprint :=
  ⟨id, .reporter, [slot .boolean, label word, slot .boolean], action, .boolean⟩

def boolean : Category :=
  .make 37 "Boolean" "Manipulates booleans for decision making." 158 255 207
    [⟨"bool", .reporter, [slot .boolean], .truth, .boolean⟩,
      ⟨"not", .reporter, [label "not", slot .boolean], .not, .boolean⟩,
      connective "and" "and" .and, connective "or" "or" .or, connective "xor" "xor" .xor,
      ⟨"convert-bool", .reporter, [label "truthiness of", slot .any], .truthOf, .boolean⟩]

/-- A reporter of two texts with a word between them. -/
def examining (id word : String) (second : String) (action : Action) : Blueprint :=
  ⟨id, .reporter,
    [slotWith .text (.text "Hello world!"), label word, slotWith .text (.text second)],
    action, .boolean⟩

def text : Category :=
  .make 43 "Text" "Manipulates different sorts of text." 255 158 232
    [⟨"join", .reporter,
        [label "join", slotWith .text (.text "Hello "), label "with",
          slotWith .text (.text "world!")], .join, .text⟩,
      ⟨"parse-text", .reporter,
        [label "turn", slotWith .any (.int 21), label "into text"], .toText, .text⟩,
      ⟨"char-at", .reporter,
        [label "character", slotWith .number (.int 1), label "of",
          slotWith .text (.text "Hello world!")], .charAt, .text⟩,
      ⟨"str-len", .reporter,
        [label "length of", slotWith .text (.text "Hello world!")], .textLength, .number⟩,
      examining "str-in" "contains" "world" .textContains,
      examining "startswith" "starts with" "H" .startsWith,
      examining "endswith" "ends with" "!" .endsWith,
      ⟨"str-remove", .reporter,
        [label "remove all", slotWith .text (.text "o"), label "from",
          slotWith .text (.text "Hello world!")], .removeAll, .text⟩,
      ⟨"str-replace", .reporter,
        [label "replace all", slotWith .text (.text "o"), label "with",
          slotWith .text (.text "a"), label "of", slotWith .text (.text "Hello world!")],
        .inert, .text⟩]

def variableUse : Category :=
  .make 52 "Variable" "Stores and change variables." 255 198 158
    [⟨"get-var", .reporter, [label "get", slot .varName], .getVariable, .any⟩,
      ⟨"set", .statement,
        [label "set variable", slot .varName, label "to", slot .any], .setVariable, .nil⟩,
      ⟨"increment", .statement,
        [label "increment", slot .varName, label "by", slotWith .number (.int 1)],
        .increment, .nil⟩,
      ⟨"decrement", .statement,
        [label "decrement", slot .varName, label "by", slotWith .number (.int 1)],
        .decrement, .nil⟩]

/-- The categories from top to bottom of the palette. -/
def categories : List Category :=
  [control, input, output, number, comparison, boolean, text, variableUse]

/-- All blocks, category after category. -/
def blocks : List Definition :=
  categories.flatMap (·.blocks)

def ellipsis : Definition where
  origin := .ellipsis
  id := "ellipsis"
  blockType := .statement
  components := [label "..."]
  color := .parts [.int 160, .int 160, .int 160]
  outputType := .nil
  action := .inert

/-- The stand-in for a saved block whose definition is not known. -/
def retired (index : Nat) : Definition where
  origin := .retired index
  id := "deprecated"
  blockType := .statement
  components := [label "deprecated code"]
  color := .parts [.int 255, .int 0, .int 0]
  outputType := .nil
  action := .inert

def find? (definitions : List Definition) (id : String) : Option Definition :=
  definitions.find? (·.id = id)

end Catalogue

end BlockStudio
