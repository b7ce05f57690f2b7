/-! The vocabulary of the language: every kind of token, how it is spelled, and how a spelling is
looked up. Kinds that carry no fixed word (names, literals, the end of the stream) have a bracketed
placeholder as their surface, which no source text can produce as a lexeme. -/
namespace CherryLang

inductive Literal where
  | integer | real | hex | octal | binary | character | string | boolean
  deriving DecidableEq, Repr

namespace Literal

def all : List Literal :=
  [.integer, .real, .hex, .octal, .binary, .character, .string, .boolean]

def surface : Literal → String
  | .integer => "<integer>"
  | .real => "<real>"
  | .hex => "<hex>"
  | .octal => "<octal>"
  | .binary => "<binary>"
  | .character => "<character>"
  | .string => "<string>"
  | .boolean => "<boolean>"

end Literal

inductive Primitive where
  | void | bool | byte | ubyte | short | ushort | int | uint | long | ulong | float | double
  | char | string | auto
  deriving DecidableEq, Repr

namespace Primitive

def all : List Primitive :=
  [.void, .bool, .byte, .ubyte, .short, .ushort, .int, .uint, .long, .ulong, .float, .double,
    .char, .string, .auto]

def surface : Primitive → String
  | .void => "void"
  | .bool => "bool"
  | .byte => "byte"
  | .ubyte => "ubyte"
  | .short => "short"
  | .ushort => "ushort"
  | .int => "int"
  | .uint => "uint"
  | .long => "long"
  | .ulong => "ulong"
  | .float => "float"
  | .double => "double"
  | .char => "char"
  | .string => "string"
  | .auto => "auto"

end Primitive

inductive Modifier where
  | publicAccess | privateAccess | protectedAccess | internalAccess | static | const | final
  | external | volatile | abstract | override | virtual | inlined | mutable
  deriving DecidableEq, Repr

namespace Modifier

def all : List Modifier :=
  [.publicAccess, .privateAccess, .protectedAccess, .internalAccess, .static, .const, .final,
    .external, .volatile, .abstract, .override, .virtual, .inlined, .mutable]

def surface : Modifier → String
  | .publicAccess => "public"
  | .privateAccess => "private"
  | .protectedAccess => "protected"
  | .internalAccess => "internal"
  | .static => "static"
  | .const => "const"
  | .final => "final"
  | .external => "extern"
  | .volatile => "volatile"
  | .abstract => "abstract"
  | .override => "override"
  | .virtual => "virtual"
  | .inlined => "inline"
  | .mutable => "mutable"

end Modifier

inductive Keyword where
  | kwIf | kwElse | kwWhile | kwDo | kwFor | kwForeach | kwIn | kwSwitch | kwCase | kwDefault
  | kwBreak | kwContinue | kwReturn | kwGoto | kwTry | kwCatch | kwFinally | kwThrow | kwClass
  | kwStruct | kwEnum | kwInterface | kwUnion | kwNamespace | kwImport | kwNew | kwDelete
  | kwThis | kwSuper | kwNull | kwVar | kwFunc | kwOperator | kwTypeof | kwSizeof | kwAs | kwIs
  | kwExtends | kwImplements
  deriving DecidableEq, Repr

namespace Keyword

def all : List Keyword :=
  [.kwIf, .kwElse, .kwWhile, .kwDo, .kwFor, .kwForeach, .kwIn, .kwSwitch, .kwCase, .kwDefault,
    .kwBreak, .kwContinue, .kwReturn, .kwGoto, .kwTry, .kwCatch, .kwFinally, .kwThrow, .kwClass,
    .kwStruct, .kwEnum, .kwInterface, .kwUnion, .kwNamespace, .kwImport, .kwNew, .kwDelete,
    .kwThis, .kwSuper, .kwNull, .kwVar, .kwFunc, .kwOperator, .kwTypeof, .kwSizeof, .kwAs, .kwIs,
    .kwExtends, .kwImplements]

def surface : Keyword → String
  | .kwIf => "if"
  | .kwElse => "else"
  | .kwWhile => "while"
  | .kwDo => "do"
  | .kwFor => "for"
  | .kwForeach => "foreach"
  | .kwIn => "in"
  | .kwSwitch => "switch"
  | .kwCase => "case"
  | .kwDefault => "default"
  | .kwBreak => "break"
  | .kwContinue => "continue"
  | .kwReturn => "return"
  | .kwGoto => "goto"
  | .kwTry => "try"
  | .kwCatch => "catch"
  | .kwFinally => "finally"
  | .kwThrow => "throw"
  | .kwClass => "class"
  | .kwStruct => "struct"
  | .kwEnum => "enum"
  | .kwInterface => "interface"
  | .kwUnion => "union"
  | .kwNamespace => "namespace"
  | .kwImport => "import"
  | .kwNew => "new"
  | .kwDelete => "delete"
  | .kwThis => "this"
  | .kwSuper => "super"
  | .kwNull => "null"
  | .kwVar => "var"
  | .kwFunc => "func"
  | .kwOperator => "operator"
  | .kwTypeof => "typeof"
  | .kwSizeof => "sizeof"
  | .kwAs => "as"
  | .kwIs => "is"
  | .kwExtends => "extends"
  | .kwImplements => "implements"

end Keyword

inductive MathFunction where
  | abs | sqrt | pow | sin | cos | tan | asin | acos | atan | log | ln | exp | floor | ceil
  | round | min | max
  deriving DecidableEq, Repr

namespace MathFunction

def all : List MathFunction :=
  [.abs, .sqrt, .pow, .sin, .cos, .tan, .asin, .acos, .atan, .log, .ln, .exp, .floor, .ceil,
    .round, .min, .max]

def surface : MathFunction → String
  | .abs => "abs"
  | .sqrt => "sqrt"
  | .pow => "pow"
  | .sin => "sin"
  | .cos => "cos"
  | .tan => "tan"
  | .asin => "asin"
  | .acos => "acos"
  | .atan => "atan"
  | .log => "log"
  | .ln => "ln"
  | .exp => "exp"
  | .floor => "floor"
  | .ceil => "ceil"
  | .round => "round"
  | .min => "min"
  | .max => "max"

end MathFunction

inductive Symbol where
  | plus | minus | star | slash | percent | plusPlus | minusMinus | plusEq | minusEq | starEq
  | slashEq | percentEq | assign | eqEq | bangEq | less | greater | lessEq | greaterEq | ampAmp
  | pipePipe | bang | amp | pipe | caret | tilde | shiftLeft | shiftRight | ampEq | pipeEq
  | caretEq | shiftLeftEq | shiftRightEq | leftParen | rightParen | leftBrace | rightBrace
  | leftBracket | rightBracket | semicolon | comma | dot | colon | question | arrow | colonColon
  deriving DecidableEq, Repr

namespace Symbol

def all : List Symbol :=
  [.plus, .minus, .star, .slash, .percent, .plusPlus, .minusMinus, .plusEq, .minusEq, .starEq,
    .slashEq, .percentEq, .assign, .eqEq, .bangEq, .less, .greater, .lessEq, .greaterEq, .ampAmp,
    .pipePipe, .bang, .amp, .pipe, .caret, .tilde, .shiftLeft, .shiftRight, .ampEq, .pipeEq,
    .caretEq, .shiftLeftEq, .shiftRightEq, .leftParen, .rightParen, .leftBrace, .rightBrace,
    .leftBracket, .rightBracket, .semicolon, .comma, .dot, .colon, .question, .arrow,
    .colonColon]

def surface : Symbol → String
  | .plus => "+"
  | .minus => "-"
  | .star => "*"
  | .slash => "/"
  | .percent => "%"
  | .plusPlus => "++"
  | .minusMinus => "--"
  | .plusEq => "+="
  | .minusEq => "-="
  | .starEq => "*="
  | .slashEq => "/="
  | .percentEq => "%="
  | .assign => "="
  | .eqEq => "=="
  | .bangEq => "!="
  | .less => "<"
  | .greater => ">"
  | .lessEq => "<="
  | .greaterEq => ">="
  | .ampAmp => "&&"
  | .pipePipe => "||"
  | .bang => "!"
  | .amp => "&"
  | .pipe => "|"
  | .caret => "^"
  | .tilde => "~"
  | .shiftLeft => "<<"
  | .shiftRight => ">>"
  | .ampEq => "&="
  | .pipeEq => "|="
  | .caretEq => "^="
  | .shiftLeftEq => "<<="
  | .shiftRightEq => ">>="
  | .leftParen => "("
  | .rightParen => ")"
  | .leftBrace => "\x7b"
  | .rightBrace => "\x7d"
  | .leftBracket => "["
  | .rightBracket => "]"
  | .semicolon => ";"
  | .comma => ","
  | .dot => "."
  | .colon => ":"
  | .question => "?"
  | .arrow => "->"
  | .colonColon => "::"

end Symbol

/-- Every lexical category that a scan can emit. A `methodIdentifier` is an identifier directly
followed by an opening parenthesis. -/
inductive Kind where
  | identifier
  | methodIdentifier
  | endOfStream
  | undefined
  | literal (form : Literal)
  | primitive (type : Primitive)
  | modifier (word : Modifier)
  | keyword (word : Keyword)
  | math (function : MathFunction)
  | symbol (text : Symbol)
  deriving DecidableEq, Repr

inductive Category where
  | placeholder | literal | primitive | modifier | keyword | mathFunction | symbol
  deriving DecidableEq, Repr

namespace Kind

def all : List Kind :=
  [.identifier, .methodIdentifier, .endOfStream, .undefined] ++
    Literal.all.map .literal ++ Primitive.all.map .primitive ++ Modifier.all.map .modifier ++
    Keyword.all.map .keyword ++ MathFunction.all.map .math ++ Symbol.all.map .symbol

def index (kind : Kind) : Nat := all.idxOf kind

/-- The canonical text of a kind, as diagnostics quote it. -/
def surface : Kind → String
  | .identifier => "<identifier>"
  | .methodIdentifier => "<method-identifier>"
  | .endOfStream => "<end-of-stream>"
  | .undefined => "<undefined>"
  | .literal form => form.surface
  | .primitive type => type.surface
  | .modifier word => word.surface
  | .keyword word => word.surface
  | .math function => function.surface
  | .symbol text => text.surface

def category : Kind → Category
  | .identifier | .methodIdentifier | .endOfStream | .undefined => .placeholder
  | .literal _ => .literal
  | .primitive _ => .primitive
  | .modifier _ => .modifier
  | .keyword _ => .keyword
  | .math _ => .mathFunction
  | .symbol _ => .symbol

def isReserved (kind : Kind) : Bool :=
  match kind.category with
  | .primitive | .modifier | .keyword | .mathFunction => true
  | .placeholder | .literal | .symbol => false

theorem isReserved_iff {kind : Kind} :
    kind.isReserved = true ↔ (∃ type, kind = .primitive type) ∨ (∃ word, kind = .modifier word) ∨
      (∃ word, kind = .keyword word) ∨ ∃ function, kind = .math function := by
  cases kind <;> simp [isReserved, category]

def isLiteral (kind : Kind) : Bool := kind.category == .literal

def isName (kind : Kind) : Bool := kind == .identifier || kind == .methodIdentifier

def ofSurface? (text : String) : Option Kind := all.find? (·.surface == text)

/-- Reserved word lookup; the two truth values are literals. -/
def keyword? (word : String) : Option Kind :=
  if word == "true" || word == "false" then some (.literal .boolean)
  else (ofSurface? word).filter isReserved

def symbol? (text : String) : Option Kind :=
  (ofSurface? text).filter (·.category == .symbol)

end Kind

end CherryLang
