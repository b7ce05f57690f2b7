import CherryLang.Syntax.Rule

/-! Expressions: an assignment, right associative, over binary operators by precedence climbing,
over operators before and suffixes behind a primary. A level of nesting is entered for an
expression, for an operator before its operand, for each binary operator and for each suffix.

The rules recurse on `fuel`. Between two levels of nesting there are at most seven of them, so that
the fuel of `expression` lasts until the limit is reported. -/
namespace CherryLang.Syntax

mutual

def exprRule : Nat → Rule Expr
  | 0 => tooDeep
  | fuel + 1 => do
    descend
    let e ← assignmentRule fuel
    ascend
    return e

def assignmentRule : Nat → Rule Expr
  | 0 => tooDeep
  | fuel + 1 => do
    let target ← binaryRule fuel 1
    match (← peekKind?).bind Kind.assignOp? with
    | none => return target
    | some op =>
      if target.isAssignable then
        advance
        let value ← exprRule fuel
        return .assign target.span op target value
      else throw ⟨.invalidAssignmentTarget, some target.span⟩

def binaryRule : Nat → Nat → Rule Expr
  | 0, _ => tooDeep
  | fuel + 1, least => do
    let lhs ← unaryRule fuel
    keepingDepth (operatorRule fuel least lhs)

def operatorRule : Nat → Nat → Expr → Rule Expr
  | 0, _, _ => tooDeep
  | fuel + 1, least, lhs => do
    match (← peekKind?).bind Kind.binaryOp? with
    | none => return lhs
    | some op =>
      if op.precedence < least then return lhs
      else
        descend
        advance
        let rhs ← binaryRule fuel (op.precedence + 1)
        operatorRule fuel least (.binary lhs.span op lhs rhs)

def unaryRule : Nat → Rule Expr
  | 0 => tooDeep
  | fuel + 1 => do
    match ← peek? with
    | none => suffixedRule fuel
    | some first =>
      match first.kind.unaryOp? with
      | none => suffixedRule fuel
      | some op =>
        descend
        advance
        let operand ← unaryRule fuel
        ascend
        return .unary first.span op operand

def suffixedRule : Nat → Rule Expr
  | 0 => tooDeep
  | fuel + 1 => do
    let e ← primaryRule fuel
    keepingDepth (suffixRule fuel e)

/-- Suffixes behind `e`; each is read before its level is entered. -/
def suffixRule : Nat → Expr → Rule Expr
  | 0, _ => tooDeep
  | fuel + 1, e => do
    match ← peekKind? with
    | some (.symbol .leftParen) =>
      let args ← parenthesized (exprRule fuel)
      descend
      suffixRule fuel (.call e.span e args)
    | some (.symbol .leftBracket) =>
      advance
      let index ← exprRule fuel
      let _ ← expect (.symbol .rightBracket)
      descend
      suffixRule fuel (.index e.span e index)
    | some (.symbol .dot) =>
      advance
      let name ← expectName
      descend
      suffixRule fuel (.member e.span e name.lexeme)
    | some kind =>
      match kind.stepOp? with
      | none => return e
      | some op =>
        advance
        descend
        suffixRule fuel (.step e.span op e)
    | none => return e

def primaryRule : Nat → Rule Expr
  | 0 => tooDeep
  | fuel + 1 => do
    match ← peek? with
    | none => unexpected .expression
    | some first =>
      match first.kind with
      | .literal form =>
        advance
        return .literal first.span form first.lexeme
      | .identifier | .methodIdentifier =>
        advance
        return .name first.span first.lexeme
      | .keyword .kwThis =>
        advance
        return .self first.span
      | .keyword .kwNull =>
        advance
        return .null first.span
      | .keyword .kwNew =>
        advance
        let type ← typeRef
        let args ← parenthesized (exprRule fuel)
        return .new first.span type args
      | .symbol .leftParen =>
        advance
        let inner ← exprRule fuel
        let _ ← expect (.symbol .rightParen)
        return inner
      | .math function =>
        advance
        let args ← parenthesized (exprRule fuel)
        return .math first.span function args
      | _ => unexpected .expression

end

/-- Fuel for every rule that starts within the nesting limit. -/
def ruleFuel : Nat := 8 * (nestingLimit + 2)

def expression : Rule Expr := exprRule ruleFuel

end CherryLang.Syntax
