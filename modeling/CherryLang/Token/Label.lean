import CherryLang.Token.Kind

namespace CherryLang

def Literal.label : Literal → String
  | .integer => "IntegerLiteral"
  | .real => "RealLiteral"
  | .hex => "HexLiteral"
  | .octal => "OctalLiteral"
  | .binary => "BinaryLiteral"
  | .character => "CharacterLiteral"
  | .string => "StringLiteral"
  | .boolean => "BooleanLiteral"

def Primitive.label : Primitive → String
  | .void => "Void"
  | .bool => "Bool"
  | .byte => "Byte"
  | .ubyte => "UByte"
  | .short => "Short"
  | .ushort => "UShort"
  | .int => "Int"
  | .uint => "UInt"
  | .long => "Long"
  | .ulong => "ULong"
  | .float => "Float"
  | .double => "Double"
  | .char => "Char"
  | .string => "String"
  | .auto => "Auto"

def Modifier.label : Modifier → String
  | .publicAccess => "Public"
  | .privateAccess => "Private"
  | .protectedAccess => "Protected"
  | .internalAccess => "Internal"
  | .static => "Static"
  | .const => "Const"
  | .final => "Final"
  | .external => "Extern"
  | .volatile => "Volatile"
  | .abstract => "Abstract"
  | .override => "Override"
  | .virtual => "Virtual"
  | .inlined => "Inline"
  | .mutable => "Mutable"

def Keyword.label : Keyword → String
  | .kwIf => "If"
  | .kwElse => "Else"
  | .kwWhile => "While"
  | .kwDo => "Do"
  | .kwFor => "For"
  | .kwForeach => "Foreach"
  | .kwIn => "In"
  | .kwSwitch => "Switch"
  | .kwCase => "Case"
  | .kwDefault => "Default"
  | .kwBreak => "Break"
  | .kwContinue => "Continue"
  | .kwReturn => "Return"
  | .kwGoto => "Goto"
  | .kwTry => "Try"
  | .kwCatch => "Catch"
  | .kwFinally => "Finally"
  | .kwThrow => "Throw"
  | .kwClass => "Class"
  | .kwStruct => "Struct"
  | .kwEnum => "Enum"
  | .kwInterface => "Interface"
  | .kwUnion => "Union"
  | .kwNamespace => "Namespace"
  | .kwImport => "Import"
  | .kwNew => "New"
  | .kwDelete => "Delete"
  | .kwThis => "This"
  | .kwSuper => "Super"
  | .kwNull => "Null"
  | .kwVar => "Var"
  | .kwFunc => "Func"
  | .kwOperator => "Operator"
  | .kwTypeof => "Typeof"
  | .kwSizeof => "Sizeof"
  | .kwAs => "As"
  | .kwIs => "Is"
  | .kwExtends => "Extends"
  | .kwImplements => "Implements"

def MathFunction.label : MathFunction → String
  | .abs => "Abs"
  | .sqrt => "Sqrt"
  | .pow => "Pow"
  | .sin => "Sin"
  | .cos => "Cos"
  | .tan => "Tan"
  | .asin => "Asin"
  | .acos => "Acos"
  | .atan => "Atan"
  | .log => "Log"
  | .ln => "Ln"
  | .exp => "Exp"
  | .floor => "Floor"
  | .ceil => "Ceil"
  | .round => "Round"
  | .min => "Min"
  | .max => "Max"

def Symbol.label : Symbol → String
  | .plus => "Add"
  | .minus => "Sub"
  | .star => "Mul"
  | .slash => "Div"
  | .percent => "Mod"
  | .plusPlus => "Incre"
  | .minusMinus => "Decre"
  | .plusEq => "AddEq"
  | .minusEq => "SubEq"
  | .starEq => "MulEq"
  | .slashEq => "DivEq"
  | .percentEq => "ModEq"
  | .assign => "Assign"
  | .eqEq => "Eq"
  | .bangEq => "NotEq"
  | .less => "Less"
  | .greater => "Greater"
  | .lessEq => "LessEq"
  | .greaterEq => "GreaterEq"
  | .ampAmp => "AndAnd"
  | .pipePipe => "OrOr"
  | .bang => "Not"
  | .amp => "BitAnd"
  | .pipe => "BitOr"
  | .caret => "BitXor"
  | .tilde => "BitNot"
  | .shiftLeft => "Shl"
  | .shiftRight => "Shr"
  | .ampEq => "AndEq"
  | .pipeEq => "OrEq"
  | .caretEq => "XorEq"
  | .shiftLeftEq => "ShlEq"
  | .shiftRightEq => "ShrEq"
  | .leftParen => "LParen"
  | .rightParen => "RParen"
  | .leftBrace => "LBrace"
  | .rightBrace => "RBrace"
  | .leftBracket => "LBracket"
  | .rightBracket => "RBracket"
  | .semicolon => "Semicolon"
  | .comma => "Comma"
  | .dot => "Dot"
  | .colon => "Colon"
  | .question => "Question"
  | .arrow => "Arrow"
  | .colonColon => "ColonColon"

def Kind.label : Kind → String
  | .identifier => "Identifier"
  | .methodIdentifier => "MethodIdentifier"
  | .endOfStream => "EndOfStream"
  | .undefined => "Undefined"
  | .literal form => form.label
  | .primitive type => type.label
  | .modifier word => word.label
  | .keyword word => word.label
  | .math function => function.label
  | .symbol text => text.label

end CherryLang
