/-!
# Columns

Texts set to a width for tables: shorter ones are filled with blanks, longer ones stay as they are.
-/

namespace BlockStudio

def blanks (n : Nat) : String :=
  String.ofList (List.replicate n ' ')

def leftAligned (width : Nat) (s : String) : String :=
  s ++ blanks (width - s.length)

def rightAligned (width : Nat) (s : String) : String :=
  blanks (width - s.length) ++ s

end BlockStudio
