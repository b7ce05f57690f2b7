import CherryLang.Lexical.Error

namespace CherryLang.Lexical.Quote

/-- Whether the last character of `lexeme` is an unescaped copy of its opening quote: an even number
of backslashes stands before it. -/
def closes (lexeme : List Char) : Bool :=
  match lexeme with
  | [] => false
  | opening :: rest =>
    match rest.reverse with
    | [] => false
    | closing :: before =>
      opening == closing && (before.takeWhile (· == '\\')).length % 2 == 0

def isEscape (c : Char) : Bool := ['n', 't', 'r', '0', '\\', '\'', '"'].contains c

/-- The number of characters that the inside of a literal stands for, counted on from `length`, or
the first undefined escape. -/
def measure (length : Nat) : List Char → Except Char Nat
  | [] => .ok length
  | '\\' :: c :: rest => if isEscape c then measure (length + 1) rest else .error c
  | _ :: rest => measure (length + 1) rest

def problem? (lexeme : List Char) : Option ErrorKind :=
  match measure 0 lexeme.tail.dropLast with
  | .error c => some (.invalidEscape c)
  | .ok length =>
    if lexeme.head? == some '\'' && length != 1 then some .malformedCharacter else none

end CherryLang.Lexical.Quote
