namespace CherryLang.Lexical

/-- What the automaton sees of one character, or of the end of the input. -/
inductive InputClass where
  | letter | digit | dot | quote | symbol | whitespace | newline | eof | other
  deriving DecidableEq, Repr

namespace InputClass

def isLetter (c : Char) : Bool := c.isAlpha || c == '_'

/-- Characters other than the dot that begin or continue an operator. -/
def isSymbol (c : Char) : Bool :=
  ['+', '-', '*', '/', '%', '=', '!', '<', '>', '&', '|', '^', '~', '(', ')', '\x7b', '\x7d', '[',
    ']', ';', ',', ':', '?'].contains c

/-- Blanks other than the newline; the byte order mark is one. -/
def isBlank (c : Char) : Bool :=
  [' ', '\t', '\r', '\x0c', '\ufeff'].contains c

def of (c : Char) : InputClass :=
  if isLetter c then .letter
  else if c.isDigit then .digit
  else if c == '.' then .dot
  else if c == '"' || c == '\'' then .quote
  else if isSymbol c then .symbol
  else if isBlank c then .whitespace
  else if c == '\n' then .newline
  else .other

end InputClass

/-- States of the automaton. The four between `start` and `error` accumulate a lexeme. -/
inductive State where
  | start | word | number | literal | symbol | error | stop
  deriving DecidableEq, Repr

namespace State

def isAccumulating : State → Bool
  | .word | .number | .literal | .symbol => true
  | .start | .error | .stop => false

def name : State → String
  | .start => "start"
  | .word => "word"
  | .number => "number"
  | .literal => "literal"
  | .symbol => "symbol"
  | .error => "error"
  | .stop => "stop"

/-- The transition. From an accumulating state `start` means that the lexeme has ended before the
input just seen. -/
def next : State → InputClass → State
  | .start, .letter => .word
  | .start, .digit => .number
  | .start, .dot | .start, .symbol => .symbol
  | .start, .quote => .literal
  | .start, .whitespace | .start, .newline => .start
  | .start, .eof => .stop
  | .start, .other => .error
  | .word, .letter | .word, .digit => .word
  | .word, _ => .start
  | .number, .letter | .number, .digit | .number, .dot => .number
  | .number, _ => .start
  | .literal, .quote => .start
  | .literal, .newline | .literal, .eof => .error
  | .literal, _ => .literal
  | .symbol, .dot | .symbol, .symbol => .symbol
  | .symbol, _ => .start
  | .error, _ => .error
  | .stop, _ => .stop

end State

end CherryLang.Lexical
