import CherryLang.Lexical.Scan
import CherryLang.Scope.Check
import CherryLang.Syntax.File

namespace CherryLang

/-- Where a file stands on its way from text to a checked tree. -/
inductive Stage where
  | created | scanning | parsing | checking | done | failed
  deriving DecidableEq, Repr

def Stage.name : Stage → String
  | .created => "created"
  | .scanning => "scanning"
  | .parsing => "parsing"
  | .checking => "semantic check"
  | .done => "done"
  | .failed => "failed"

inductive Failure where
  | unreadable (e : ReadError)
  | lexical (errors : List Lexical.Error)
  | unparsed (e : Syntax.Error)
  | rejected (errors : List Scope.Error)
  deriving DecidableEq, Repr

namespace Failure

def message : Failure → String
  | .unreadable e => "cannot read file: " ++ e.message
  | .lexical errors => s!"{errors.length} lexical error(s)"
  | .unparsed e => e.message
  | .rejected errors => s!"{errors.length} semantic error(s)"

def stage : Failure → Stage
  | .unreadable _ | .lexical _ => .scanning
  | .unparsed _ => .parsing
  | .rejected _ => .checking

def diagnostics : Failure → List (Option Span × String)
  | .unreadable e => [(none, e.message)]
  | .lexical errors => errors.map fun e => (some e.span, e.kind.message)
  | .unparsed e => [(some e.span, e.kind.message)]
  | .rejected errors => errors.map fun e => (some e.span, e.kind.message)

end Failure

def treeOfTokens (tokens : List Token) : Except Failure Tree :=
  match Syntax.parse tokens with
  | .error e => .error (.unparsed e)
  | .ok tree =>
    match Scope.check tree with
    | [] => .ok tree
    | errors => .error (.rejected errors)

end CherryLang
