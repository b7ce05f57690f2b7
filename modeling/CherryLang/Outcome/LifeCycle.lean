import CherryLang.Outcome.Basic

namespace CherryLang

inductive UsageError where
  | notDone (stage : Stage)
  | alreadyRan (stage : Stage)
  deriving DecidableEq, Repr

def UsageError.message : UsageError → String
  | .notDone stage => "no parse tree: pipeline is " ++ stage.name
  | .alreadyRan stage => s!"pipeline already ran and is {stage.name}"

structure Pipeline where
  source : SourceFile
  strict : Bool := false
  keepTokens : Bool := false
  stage : Stage := .created
  tokens : List Token := []
  warnings : List Lexical.Error := []
  result : Option (Except Failure Tree) := none

namespace Pipeline

def setStrict (p : Pipeline) (on : Bool) : Pipeline := { p with strict := on }

def setKeepTokens (p : Pipeline) (on : Bool) : Pipeline := { p with keepTokens := on }

def execute (p : Pipeline) (disk : Disk) : Pipeline :=
  let o := process disk p.strict p.source
  { p with
    stage := if o.isOk then .done else .failed
    tokens := if p.keepTokens then o.tokens else []
    warnings := o.warnings
    result := some o.result }

def run (p : Pipeline) (disk : Disk) : Except UsageError Unit × Pipeline :=
  if p.stage = .created then (.ok (), p.execute disk) else (.error (.alreadyRan p.stage), p)

def tree (p : Pipeline) : Except UsageError Tree :=
  match p.result with
  | some (.ok tree) => .ok tree
  | _ => .error (.notDone p.stage)

def failure? (p : Pipeline) : Option Failure :=
  match p.result with
  | some (.error failure) => some failure
  | _ => none

def outcome (p : Pipeline) : Except UsageError Outcome :=
  match p.result with
  | none => .error (.notDone p.stage)
  | some result => .ok ⟨p.source, p.tokens, p.warnings, result⟩

def complete (p : Pipeline) (disk : Disk) : Outcome :=
  match p.result with
  | some result => ⟨p.source, p.tokens, p.warnings, result⟩
  | none =>
    let o := process disk p.strict p.source
    { o with tokens := if p.keepTokens then o.tokens else [] }

end Pipeline

end CherryLang
