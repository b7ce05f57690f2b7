import CherryLang.Token.Basic
import CherryLang.Text.Quoted

namespace CherryLang.Lexical

inductive ErrorKind where
  | unexpectedCharacter (c : Char)
  | unterminatedString
  | unterminatedCharacter
  | unterminatedComment
  | malformedNumber
  /-- A character literal that holds none or several characters. -/
  | malformedCharacter
  | invalidEscape (c : Char)
  deriving DecidableEq, Repr

def ErrorKind.message : ErrorKind → String
  | .unexpectedCharacter c => "unexpected character: " ++ Text.quoteChar c
  | .unterminatedString => "unterminated string literal"
  | .unterminatedCharacter => "unterminated character literal"
  | .unterminatedComment => "unterminated block comment"
  | .malformedNumber => "malformed number"
  | .malformedCharacter => "character literal must hold exactly one character"
  | .invalidEscape c => "invalid escape sequence: \\" ++ toString c

structure Error where
  kind : ErrorKind
  span : Span
  lexeme : String
  /-- The source from the start of the lexeme on, as the error quotes it. -/
  lineText : String
  deriving DecidableEq, Repr

def Error.message (e : Error) : String := e.kind.message ++ e.span.suffix

end CherryLang.Lexical
