import CherryLang.Outcome.Failure

namespace CherryLang

inductive TextError where
  | unreadable (e : ReadError)
  | lexical (e : Lexical.Error)
  | unparsed (e : Syntax.Error)
  | rejected (errors : List Scope.Error)
  deriving DecidableEq, Repr

def TextError.message : TextError → String
  | .unreadable e => e.message
  | .lexical e => e.message
  | .unparsed e => e.message
  | .rejected errors => (errors.head?.map (·.message)).getD ""

def tokenize (text : String) : Except ReadError Lexical.Scanned :=
  Lexical.scan {} (.ofText text)

/-- The tree of a text without any error. -/
def parseText (text : String) : Except TextError Tree :=
  match tokenize text with
  | .error e => .error (.unreadable e)
  | .ok scanned =>
    match scanned.errors with
    | e :: _ => .error (.lexical e)
    | [] =>
      match Syntax.parse scanned.tokens with
      | .error e => .error (.unparsed e)
      | .ok tree =>
        match Scope.check tree with
        | [] => .ok tree
        | errors => .error (.rejected errors)

end CherryLang
