import CherryLang.Syntax.Expression

/-! Statements. Each nested one takes a level, and the rules recurse on `fuel` as those of
expressions do: there are at most three of them between two levels. -/
namespace CherryLang.Syntax

def initializer : Rule (Option Expr) := do
  if ← eat (.symbol .assign) then return some (← expression)
  else return none

def unlessNext (close : Kind) : Rule (Option Expr) := do
  if ← isNext close then return none
  else return some (← expression)

def condition : Rule Expr := do
  let _ ← expect (.symbol .leftParen)
  let e ← expression
  let _ ← expect (.symbol .rightParen)
  return e

def semicolon : Rule Unit := do
  let _ ← expect (.symbol .semicolon)

/-- Whether a statement that starts like this declares a variable: with a modifier or the word of a
type, or with a name and behind it another name or a pair of brackets. -/
def startsDeclaration : List Token → Bool
  | [] => false
  | first :: rest =>
    isTypeWord first.kind || (modifier? first).isSome ||
      (first.kind == .identifier &&
        match rest with
        | [] => false
        | second :: rest =>
          second.kind.isName ||
            (second.kind == .symbol .leftBracket &&
              rest.head?.map (·.kind) == some (.symbol .rightBracket)))

def localVariable (span : Span) : Rule VariableDecl := do
  let words ← modifiers
  let type ← typeRef
  let name ← expectName
  let init ← initializer
  semicolon
  return ⟨words, type, name.lexeme, init, span⟩

def simpleStatement : Rule Stmt := do
  match startsDeclaration (← get).rest, ← peek? with
  | true, some first => return .declare (← localVariable first.span)
  | _, _ =>
    let e ← expression
    semicolon
    return .eval e

def forInit : Rule (Option Stmt) := do
  if ← eat (.symbol .semicolon) then return none
  else return some (← simpleStatement)

mutual

def statementRule : Nat → Rule Stmt
  | 0 => tooDeep
  | fuel + 1 => do
    descend
    let s ← bareStatementRule fuel
    ascend
    return s

/-- A statement whose level of nesting has been entered. -/
def bareStatementRule : Nat → Rule Stmt
  | 0 => tooDeep
  | fuel + 1 => do
    match ← peek? with
    | none => simpleStatement
    | some first =>
      match first.kind with
      | .symbol .leftBrace =>
        let block ← blockRule fuel
        return .block block.span block.statements
      | .keyword .kwIf =>
        advance
        let test ← condition
        let onTrue ← statementRule fuel
        if ← eat (.keyword .kwElse) then
          let onFalse ← statementRule fuel
          return .branch first.span test onTrue (some onFalse)
        else return .branch first.span test onTrue none
      | .keyword .kwWhile =>
        advance
        let test ← condition
        let body ← statementRule fuel
        return .whileLoop first.span test body
      | .keyword .kwDo =>
        advance
        let body ← statementRule fuel
        let _ ← expect (.keyword .kwWhile)
        let test ← condition
        semicolon
        return .doLoop first.span body test
      | .keyword .kwFor =>
        advance
        let _ ← expect (.symbol .leftParen)
        let init ← forInit
        let test ← unlessNext (.symbol .semicolon)
        semicolon
        let step ← unlessNext (.symbol .rightParen)
        let _ ← expect (.symbol .rightParen)
        let body ← statementRule fuel
        return .forLoop first.span init test step body
      | .keyword .kwReturn =>
        advance
        let value ← unlessNext (.symbol .semicolon)
        semicolon
        return .ret first.span value
      | .keyword .kwBreak =>
        advance
        semicolon
        return .breakLoop first.span
      | .keyword .kwContinue =>
        advance
        semicolon
        return .continueLoop first.span
      | _ => simpleStatement

def blockRule : Nat → Rule Block
  | 0 => tooDeep
  | fuel + 1 => do
    let brace ← expect (.symbol .leftBrace)
    let statements ← untilBrace (statementRule fuel)
    return ⟨statements, brace.span⟩

end

def block : Rule Block := blockRule ruleFuel

def statement : Rule Stmt := statementRule ruleFuel

end CherryLang.Syntax
