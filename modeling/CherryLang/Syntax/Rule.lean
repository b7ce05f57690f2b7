import CherryLang.Syntax.Error
import CherryLang.Syntax.Tree

/-! What the grammar rules are made of. A rule consumes tokens from the front of `rest` and stops at
the first failure. A token of kind `endOfStream` ends the input wherever it stands. -/
namespace CherryLang.Syntax

/-- Why a rule failed; without a place at the end of the input. -/
structure Failure where
  kind : ErrorKind
  span : Option Span
  deriving DecidableEq, Repr

structure State where
  rest : List Token
  depth : Nat := 0

abbrev Rule := StateT State (Except Failure)

/-- The first of the tokens ahead, unless the input ends there. -/
def ahead? : List Token → Option Token
  | [] => none
  | t :: _ => if t.kind = .endOfStream then none else some t

def peek? : Rule (Option Token) := return ahead? (← get).rest

def peekKind? : Rule (Option Kind) := return (← peek?).map (·.kind)

def advance : Rule Unit := modify fun s => { s with rest := s.rest.tail }

def failHere {α : Type} (kind : ErrorKind) : Rule α := do
  throw ⟨kind, (← peek?).map (·.span)⟩

def unexpected {α : Type} (what : Expectation) : Rule α := do
  failHere (.expected what ((← peek?).map (·.lexeme)))

def tooDeep {α : Type} : Rule α := failHere .nestingTooDeep

def isNext (kind : Kind) : Rule Bool := return (← peekKind?) == some kind

def eat (kind : Kind) : Rule Bool := do
  if ← isNext kind then
    advance
    return true
  else return false

def take (accepts : Kind → Bool) (what : Expectation) : Rule Token := do
  match ← peek? with
  | some t =>
    if accepts t.kind then
      advance
      return t
    else unexpected what
  | none => unexpected what

def expect (kind : Kind) : Rule Token := take (· == kind) (.token kind)

def expectName : Rule Token := take Kind.isName .name

def descend : Rule Unit := do
  if (← get).depth < nestingLimit then modify fun s => { s with depth := s.depth + 1 }
  else tooDeep

def ascend : Rule Unit := modify fun s => { s with depth := s.depth - 1 }

/-- Leave every level that `rule` has entered. -/
def keepingDepth {α : Type} (rule : Rule α) : Rule α := do
  let depth := (← get).depth
  let a ← rule
  modify fun s => { s with depth := depth }
  return a

/-- Apply `rule` until `close` is ahead, at most `bound` times, and step over that. -/
def untilClose {α : Type} (close : Kind) (rule : Rule α) : Nat → Array α → Rule (List α)
  | 0, found => do
    let _ ← expect close
    return found.toList
  | bound + 1, found => do
    match ← peekKind? with
    | none => unexpected (.token close)
    | some kind =>
      if kind = close then
        advance
        return found.toList
      else
        let a ← rule
        untilClose close rule bound (found.push a)

/-- Apply `rule` up to the closing brace. As each time takes a token, their number is a bound. -/
def untilBrace {α : Type} (rule : Rule α) : Rule (List α) := do
  untilClose (.symbol .rightBrace) rule ((← get).rest.length + 1) #[]

def commaList {α : Type} (rule : Rule α) : Nat → Array α → Rule (List α)
  | 0, found => do
    let _ ← expect (.symbol .rightParen)
    return found.toList
  | bound + 1, found => do
    let a ← rule
    if ← eat (.symbol .comma) then commaList rule bound (found.push a)
    else
      let _ ← expect (.symbol .rightParen)
      return (found.push a).toList

def parenthesized {α : Type} (rule : Rule α) : Rule (List α) := do
  let _ ← expect (.symbol .leftParen)
  if ← eat (.symbol .rightParen) then return []
  else commaList rule ((← get).rest.length + 1) #[]

def modifier? (t : Token) : Option Modifier :=
  match t.kind with
  | .modifier word => some word
  | _ => none

def modifiers : Rule (List Modifier) := do
  let rest := (← get).rest
  modify fun s => { s with rest := rest.dropWhile fun t => (modifier? t).isSome }
  return (rest.takeWhile fun t => (modifier? t).isSome).filterMap modifier?

def bracketPairs (count : Nat) : List Token → Nat × List Token
  | left :: right :: rest =>
    if left.kind = .symbol .leftBracket ∧ right.kind = .symbol .rightBracket then
      bracketPairs (count + 1) rest
    else (count, left :: right :: rest)
  | rest => (count, rest)

def typeName? (t : Token) : Option TypeName :=
  match t.kind with
  | .primitive type => some (.primitive type)
  | .keyword .kwVar => some .inferred
  | .identifier | .methodIdentifier => some (.named t.lexeme)
  | _ => none

def isTypeWord (kind : Kind) : Bool :=
  kind.category == .primitive || kind == .keyword .kwVar

def typeRef : Rule TypeRef := do
  match ← peek? with
  | none => unexpected .type
  | some first =>
    match typeName? first with
    | none => unexpected .type
    | some name =>
      advance
      let (arrayDepth, rest) := bracketPairs 0 (← get).rest
      modify fun s => { s with rest := rest }
      return ⟨name, arrayDepth, first.span⟩

end CherryLang.Syntax
