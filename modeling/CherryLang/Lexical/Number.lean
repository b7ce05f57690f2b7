import CherryLang.Token.Kind

namespace CherryLang.Lexical.Number

def isHexDigit (c : Char) : Bool :=
  c.isDigit || ('a' ≤ c && c ≤ 'f') || ('A' ≤ c && c ≤ 'F')

def isOctalDigit (c : Char) : Bool := '0' ≤ c && c ≤ '7'

def isBinaryDigit (c : Char) : Bool := c == '0' || c == '1'

def isDigits (valid : Char → Bool) (text : List Char) : Bool :=
  !text.isEmpty && text.all valid

def split? (separator : Char → Bool) : List Char → Option (List Char × List Char)
  | [] => none
  | c :: rest =>
    if separator c then some ([], rest)
    else (split? separator rest).map fun (before, behind) => (c :: before, behind)

def isExponentMark (c : Char) : Bool := c == 'e' || c == 'E'

def isReal (text : List Char) : Bool :=
  let mantissaOk (mantissa : List Char) (hasExponent : Bool) : Bool :=
    match split? (· == '.') mantissa with
    | some (whole, fraction) => isDigits Char.isDigit whole && isDigits Char.isDigit fraction
    | none => hasExponent && isDigits Char.isDigit mantissa
  match split? isExponentMark text with
  | some (mantissa, exponent) => mantissaOk mantissa true && isDigits Char.isDigit exponent
  | none => mantissaOk text false

def classify? : List Char → Option Literal
  | '0' :: 'x' :: digits | '0' :: 'X' :: digits =>
    if isDigits isHexDigit digits then some .hex else none
  | '0' :: 'o' :: digits => if isDigits isOctalDigit digits then some .octal else none
  | '0' :: 'b' :: digits => if isDigits isBinaryDigit digits then some .binary else none
  | text =>
    if isDigits Char.isDigit text then some .integer
    else if isReal text then some .real
    else none

end CherryLang.Lexical.Number
