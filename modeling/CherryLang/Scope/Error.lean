import CherryLang.Token.Basic

namespace CherryLang.Scope

inductive ErrorKind where
  | undeclaredName (name : String)
  /-- A second declaration of a name in one scope; `previous` is the first. -/
  | duplicateDeclaration (name : String) (previous : Span)
  | breakOutsideLoop
  | continueOutsideLoop
  | returnValueInVoid
  | missingReturnValue
  | assignToConst (name : String)
  | unknownType (name : String)
  | unknownBaseClass (name : String)
  /-- The class appears in its own chain of bases. -/
  | cyclicInheritance (name : String)
  | thisOutsideClass
  deriving DecidableEq, Repr

def ErrorKind.message : ErrorKind → String
  | .undeclaredName name => s!"use of undeclared name '{name}'"
  | .duplicateDeclaration name previous => s!"'{name}' is already declared" ++ previous.suffix
  | .breakOutsideLoop => "'break' outside of a loop"
  | .continueOutsideLoop => "'continue' outside of a loop"
  | .returnValueInVoid => "void function cannot return a value"
  | .missingReturnValue => "non-void function must return a value"
  | .assignToConst name => s!"cannot assign to const '{name}'"
  | .unknownType name => s!"unknown type '{name}'"
  | .unknownBaseClass name => s!"unknown base class '{name}'"
  | .cyclicInheritance name => s!"class '{name}' inherits from itself"
  | .thisOutsideClass => "'this' used outside of a class"

structure Error where
  kind : ErrorKind
  span : Span
  deriving DecidableEq, Repr

def Error.message (e : Error) : String := e.kind.message ++ e.span.suffix

end CherryLang.Scope
