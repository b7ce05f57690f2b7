import CherryLang.Text.Quoted

namespace CherryLang.Text

inductive Record where
  | atom (text : String)
  | fields (name : String) (entries : List (String × Record))
  | tuple (name : String) (items : List Record)
  | list (items : List Record)

namespace Record

def number (n : Nat) : Record := .atom (toString n)

def string (text : String) : Record := .atom (quoteString text)

def optional : Option Record → Record
  | none => .atom "None"
  | some inner => .tuple "Some" [inner]

mutual

/-- Write a record behind `out`; its further lines start with `margin`. -/
def write (margin : String) (out : String) : Record → String
  | .atom text => out ++ text
  | .fields name entries =>
    writeEntries (margin ++ "    ") (out ++ name ++ " \x7b\n") entries ++ margin ++ "\x7d"
  | .tuple name items =>
    writeItems (margin ++ "    ") (out ++ name ++ "(\n") items ++ margin ++ ")"
  | .list items =>
    if items.isEmpty then out ++ "[]"
    else writeItems (margin ++ "    ") (out ++ "[\n") items ++ margin ++ "]"

def writeItems (margin : String) (out : String) : List Record → String
  | [] => out
  | item :: rest => writeItems margin (write margin (out ++ margin) item ++ ",\n") rest

def writeEntries (margin : String) (out : String) : List (String × Record) → String
  | [] => out
  | (name, value) :: rest =>
    writeEntries margin (write margin (out ++ margin ++ name ++ ": ") value ++ ",\n") rest

end

def text (r : Record) : String := write "" "" r

end Record

end CherryLang.Text
