import CherryLang.Token.Basic

namespace CherryLang.Syntax

inductive Expectation where
  | token (kind : Kind)
  | name
  | type
  | expression
  | declaration
  deriving DecidableEq, Repr

def Expectation.text : Expectation → String
  | .token kind => "'" ++ kind.surface ++ "'"
  | .name => "identifier"
  | .type => "type"
  | .expression => "expression"
  | .declaration => "declaration"

/-- Deepest nesting of statements and expressions. Every nested statement, parenthesis, operator and
suffix takes a level, so a flat chain of operators takes one for each of them. -/
def nestingLimit : Nat := 256

inductive ErrorKind where
  | expected (what : Expectation) (found : Option String)
  | invalidAssignmentTarget
  | nestingTooDeep
  deriving DecidableEq, Repr

def ErrorKind.message : ErrorKind → String
  | .expected what none => s!"expected {what.text} before end of input"
  | .expected what (some found) => s!"expected {what.text}, got '{found}'"
  | .invalidAssignmentTarget => "invalid assignment target"
  | .nestingTooDeep => s!"nesting deeper than {nestingLimit} levels"

structure Error where
  kind : ErrorKind
  span : Span
  deriving DecidableEq, Repr

def Error.message (e : Error) : String := e.kind.message ++ e.span.suffix

end CherryLang.Syntax
