import CherryLang.Lexical.Transition
import CherryLang.Lexical.Number
import CherryLang.Lexical.Quote
import CherryLang.Source.Cursor

/-! From characters to tokens. The automaton reads one character at a time behind a mark. If the
character belongs to the lexeme the mark is dropped; if it ends the lexeme the cursor goes back to
it. Operators take the longest match: a run of symbols grows only into a known operator or the
opening of a comment. -/
namespace CherryLang.Lexical

/-- What a scan emits. It goes on behind a lexical error and ends with a read error. -/
inductive Item where
  | token (t : Token)
  | error (e : Error)
  | failure (e : ReadError)

def spanAt (p : Position) : Span := ⟨p.line, p.column⟩

def trimLine (line : String) : String :=
  String.ofList (line.toList.reverse.dropWhile fun c => c == '\r' || c == '\n').reverse

/-- Whether `run` followed by `c` is still an operator or the opening of a comment. -/
def extendsSymbol (run : String) (c : Char) : Bool :=
  let longer := run.push c
  (Kind.symbol? longer).isSome || longer == "//" || longer == "/*"

/-- Emit an error for a lexeme that has been consumed, quoting the rest of its line. -/
def emitError (kind : ErrorKind) (lexeme : String) (start : Position) (r : Cursor) :
    Option Item × Cursor :=
  match r.peekLine with
  | (.error e, r') => (some (.failure e), r')
  | (.ok rest, r') => (some (.error ⟨kind, spanAt start, lexeme, lexeme ++ trimLine rest⟩), r')

def emitToken (file : FileId) (kind : Kind) (lexeme : String) (start : Position) (r : Cursor) :
    Option Item × Cursor :=
  (some (.token ⟨kind, lexeme, file, spanAt start⟩), r)

def nextIs (c : Char) (r : Cursor) : Except ReadError Bool × Cursor :=
  match r.mark.read with
  | (.error e, r') => (.error e, r')
  | (.ok found, r') =>
    match r'.rewind with
    | (.error e, r'') => (.error e, r'')
    | (.ok _, r'') => (.ok (found == some c), r'')

def skipLine (r : Cursor) : Except ReadError Unit × Cursor :=
  match _result : r.read with
  | (.error e, r') => (.error e, r')
  | (.ok none, r') => (.ok (), r')
  | (.ok (some c), r') => if c = '\n' then (.ok (), r') else skipLine r'
termination_by r.remaining
decreasing_by exact Cursor.remaining_lt_of_read _result

/-- Read through the end of a block comment; `false` if the input ends first. The character read
before is `previous`, and the opening of the comment does not count as one. -/
def skipBlock (previous : Option Char) (r : Cursor) : Except ReadError Bool × Cursor :=
  match _result : r.read with
  | (.error e, r') => (.error e, r')
  | (.ok none, r') => (.ok false, r')
  | (.ok (some c), r') =>
    if c = '/' ∧ previous = some '*' then (.ok true, r') else skipBlock (some c) r'
termination_by r.remaining
decreasing_by exact Cursor.remaining_lt_of_read _result

def finishWord (file : FileId) (word : String) (start : Position) (r : Cursor) :
    Option Item × Cursor :=
  match Kind.keyword? word with
  | some kind => emitToken file kind word start r
  | none =>
    match nextIs '(' r with
    | (.error e, r') => (some (.failure e), r')
    | (.ok true, r') => emitToken file .methodIdentifier word start r'
    | (.ok false, r') => emitToken file .identifier word start r'

def finishNumber (file : FileId) (run : String) (start : Position) (r : Cursor) :
    Option Item × Cursor :=
  match Number.classify? run.toList with
  | some form => emitToken file (.literal form) run start r
  | none => emitError .malformedNumber run start r

/-- A run of symbols is an operator or opens a comment, which is skipped. -/
def finishSymbol (file : FileId) (run : String) (start : Position) (r : Cursor) :
    Option Item × Cursor :=
  if run = "//" then
    match skipLine r with
    | (.error e, r') => (some (.failure e), r')
    | (.ok _, r') => (none, r')
  else if run = "/*" then
    match skipBlock none r with
    | (.error e, r') => (some (.failure e), r')
    | (.ok true, r') => (none, r')
    | (.ok false, r') => (some (.error ⟨.unterminatedComment, spanAt start, run, run⟩), r')
  else emitToken file ((Kind.symbol? run).getD .undefined) run start r

def finishRun (file : FileId) (state : State) (run : String) (start : Position) (r : Cursor) :
    Option Item × Cursor :=
  match state with
  | .word => finishWord file run start r
  | .number => finishNumber file run start r
  | .symbol => finishSymbol file run start r
  | .start | .literal | .error | .stop => emitToken file .undefined run start r

def endRun (file : FileId) (state : State) (run : String) (start : Position) (r : Cursor) :
    Option Item × Cursor :=
  match r.rewind with
  | (.error e, r') => (some (.failure e), r')
  | (.ok _, r') => finishRun file state run start r'

def finishLiteral (file : FileId) (run : String) (start : Position) (r : Cursor) :
    Option Item × Cursor :=
  match Quote.problem? run.toList with
  | some kind => emitError kind run start r
  | none =>
    let form := if run.toList.head? == some '\'' then Literal.character else .string
    emitToken file (.literal form) run start r

/-- No lexeme goes on with `c`, or with the end of the input if that is `none`. A literal is cut off
there; elsewhere the character itself is the error. -/
def emitUnexpected (state : State) (c : Option Char) (run : String) (start : Position)
    (r : Cursor) : Option Item × Cursor :=
  if state = .literal then
    let kind :=
      if run.toList.head? == some '\'' then ErrorKind.unterminatedCharacter else .unterminatedString
    (some (.error ⟨kind, spanAt start, run, run⟩), r)
  else
    let c := c.getD '\ufffd'
    emitError (.unexpectedCharacter c) (toString c) start r

/-- Run the automaton from `state` with the lexeme `run` read so far, which began at `start`. No
item means that a comment was skipped. -/
def scanFrom (file : FileId) (state : State) (run : String) (start : Position) (r : Cursor) :
    Option Item × Cursor :=
  match _result : r.mark.read with
  | (.error e, r') => (some (.failure e), r')
  | (.ok none, r') =>
    match state.next .eof with
    | .stop => emitToken file .endOfStream "" start r'.drop
    | .error => emitUnexpected state none run start r'.drop
    | _ => endRun file state run start r'
  | (.ok (some c), r') =>
    if state = .literal ∧ InputClass.of c = .quote then
      if Quote.closes (run.push c).toList then finishLiteral file (run.push c) start r'.drop
      else scanFrom file state (run.push c) start r'.drop
    else if state = .symbol ∧ state.next (.of c) = .symbol ∧ !extendsSymbol run c then
      endRun file state run start r'
    else
      match state.next (.of c) with
      | .start =>
        if state = .start then scanFrom file .start run r'.position r'.drop
        else endRun file state run start r'
      | .stop => emitToken file .endOfStream "" start r'.drop
      | .error => emitUnexpected state (some c) run start r'.drop
      | grown => scanFrom file grown (run.push c) start r'.drop
termination_by r.remaining
decreasing_by all_goals exact Cursor.remaining_drop_lt_of_read_mark _result

def scanLexeme (file : FileId) (r : Cursor) : Option Item × Cursor :=
  scanFrom file .start "" r.position r

end CherryLang.Lexical
