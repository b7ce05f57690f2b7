import CherryLang.Syntax.Statement

namespace CherryLang.Syntax

def dottedNames : Nat → Array String → Rule (List String)
  | 0, found => return found.toList
  | bound + 1, found => do
    if ← eat (.symbol .dot) then
      let name ← expectName
      dottedNames bound (found.push name.lexeme)
    else return found.toList

def importDecl : Rule Import := do
  let word ← expect (.keyword .kwImport)
  let first ← expectName
  let path ← dottedNames (← get).rest.length #[first.lexeme]
  semicolon
  return ⟨path, word.span⟩

def param : Rule Param := do
  let type ← typeRef
  let name ← expectName
  return ⟨type, name.lexeme, name.span⟩

/-- A variable or a function, its modifiers read before. -/
def member (words : List Modifier) (span : Span) : Rule Member := do
  let type ← typeRef
  let name ← expectName
  if ← isNext (.symbol .leftParen) then
    let params ← parenthesized param
    let body ← block
    return .method ⟨words, type, name.lexeme, params, body, span⟩
  else
    let init ← initializer
    semicolon
    return .field ⟨words, type, name.lexeme, init, span⟩

def classMember : Rule Member := do
  match ← peek? with
  | none => unexpected .type
  | some first =>
    let words ← modifiers
    member words first.span

def baseName : Rule (Option BaseName) := do
  if ← eat (.keyword .kwExtends) then
    let name ← expectName
    return some ⟨name.lexeme, name.span⟩
  else return none

def classDecl (words : List Modifier) (word : ClassWord) (span : Span) : Rule ClassDecl := do
  let name ← expectName
  let base ← baseName
  let _ ← expect (.symbol .leftBrace)
  let members ← untilBrace classMember
  return ⟨words, word, name.lexeme, base, members, span⟩

def classWord? : Kind → Option ClassWord
  | .keyword .kwClass => some .classWord
  | .keyword .kwStruct => some .structWord
  | _ => none

def declaration : Rule Declaration := do
  match ← peek? with
  | none => unexpected .declaration
  | some first =>
    let words ← modifiers
    match ← peekKind? with
    | none => unexpected .declaration
    | some kind =>
      match classWord? kind with
      | some word =>
        advance
        return .ofClass (← classDecl words word first.span)
      | none =>
        if isTypeWord kind || kind == .identifier then
          match ← member words first.span with
          | .field decl => return .ofVariable decl
          | .method decl => return .ofFunction decl
        else unexpected .declaration

/-- Imports and declarations up to the end of the input, at most `bound` of them. -/
def fileRule : Nat → Array Import → Array Declaration →
    Rule (List Import × List Declaration)
  | 0, _, _ => unexpected .declaration
  | bound + 1, imports, items => do
    match ← peekKind? with
    | none => return (imports.toList, items.toList)
    | some kind =>
      if kind = .keyword .kwImport then
        let i ← importDecl
        fileRule bound (imports.push i) items
      else
        let item ← declaration
        fileRule bound imports (items.push item)

/-- The place of the last token, which stands for the end of the input. -/
def endSpan (tokens : List Token) : Span := (tokens.getLast?.map (·.span)).getD {}

/-- Parse a token stream into a tree. It need not hold an `endOfStream` token. -/
def parse (tokens : List Token) : Except Error Tree :=
  match (fileRule (tokens.length + 1) #[] #[]).run { rest := tokens } with
  | .error failure => .error ⟨failure.kind, failure.span.getD (endSpan tokens)⟩
  | .ok ((imports, items), _) => .ok ⟨(tokens.head?.map (·.file)).getD {}, imports, items⟩

end CherryLang.Syntax
