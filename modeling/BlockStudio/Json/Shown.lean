import BlockStudio.Json.Basic
import BlockStudio.Number.Num

/-!
# JSON values in messages

`Json.shown` shows a value in fault messages and captions: words with capitals, texts in quotes.
-/

namespace BlockStudio

namespace Json

def shown : Json → String
  | null => "None"
  | bool b => if b then "True" else "False"
  | int n => Int.repr n
  | float x => floatText x
  | text s => quoted s
  | array items => "[" ++ ", ".intercalate (shownItems items) ++ "]"
  | object fields => "\x7b" ++ ", ".intercalate (shownFields fields) ++ "\x7d"
where
  shownItems : List Json → List String
    | [] => []
    | v :: rest => shown v :: shownItems rest
  shownFields : List (String × Json) → List String
    | [] => []
    | (k, v) :: rest => (quoted k ++ ": " ++ shown v) :: shownFields rest

end Json

end BlockStudio
