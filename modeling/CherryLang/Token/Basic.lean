import CherryLang.Token.Kind

namespace CherryLang

/-- The number by which the tokens and the tree of an input file refer to it. -/
structure FileId where
  number : Nat := 0
  deriving DecidableEq, Repr

def FileId.text (file : FileId) : String := "#" ++ toString file.number

/-- Source location for diagnostics. Both fields count from one. -/
structure Span where
  line : Nat := 1
  column : Nat := 1
  deriving DecidableEq, Repr

def Span.le (a b : Span) : Bool := a.line < b.line || (a.line == b.line && a.column ≤ b.column)

def Span.suffix (span : Span) : String :=
  s!" at line {span.line}, column {span.column}"

structure Token where
  kind : Kind
  lexeme : String
  file : FileId
  span : Span
  deriving DecidableEq, Repr

def Token.empty (file : FileId) : Token := ⟨.undefined, "", file, {}⟩

end CherryLang
