import CherryLang.Syntax.Tree

/-! The ways of writing a tree as a list of tokens. Places of the tree do not matter, and neither do
the files and places of the tokens. An expression stands in parentheses at least where the binding
strength of its context asks for them, and in as many more as one likes.

Trees that the language has no words for have no writing: an assignment to anything but a name, a
member or an element, an import without a path, a loop header that starts with another statement
than a declaration or an expression, and a branch with an alternative whose first part ends in a
branch without one, to which the alternative would belong. -/
namespace CherryLang

/-- How tightly an expression holds together on its own. Assignments bind loosest, then binary
operators by precedence, then operators before their operand, then everything else. -/
def Expr.strength : Expr → Nat
  | .assign .. => 0
  | .binary _ op _ _ => op.precedence
  | .unary .. => 11
  | .literal .. | .name .. | .self _ | .null _ | .step .. | .call .. | .math .. | .member ..
  | .index .. | .new .. => 12

/-- Whether the last part of a statement is a branch without an alternative, which would take an
alternative that follows. -/
def Stmt.endsOpen : Stmt → Bool
  | .branch _ _ _ none => true
  | .branch _ _ _ (some onFalse) => onFalse.endsOpen
  | .whileLoop _ _ body => body.endsOpen
  | .forLoop _ _ _ _ body => body.endsOpen
  | .block .. | .declare _ | .doLoop .. | .ret .. | .breakLoop _ | .continueLoop _ | .eval _ =>
    false

namespace Syntax

inductive Series {α : Type} (writes : α → List Token → Prop) : List α → List Token → Prop where
  | nil : Series writes [] []
  | cons {x xs ts us} (first : writes x ts) (rest : Series writes xs us) :
      Series writes (x :: xs) (ts ++ us)

inductive CommaSeries {α : Type} (writes : α → List Token → Prop) :
    List α → List Token → Prop where
  | last {x ts} {right : Token} (only : writes x ts) (closes : right.kind = .symbol .rightParen) :
      CommaSeries writes [x] (ts ++ [right])
  | more {x xs ts us} {comma : Token} (first : writes x ts) (goesOn : comma.kind = .symbol .comma)
      (rest : CommaSeries writes xs us) : CommaSeries writes (x :: xs) (ts ++ comma :: us)

inductive Parenthesized {α : Type} (writes : α → List Token → Prop) :
    List α → List Token → Prop where
  | empty {left right : Token} (opens : left.kind = .symbol .leftParen)
      (closes : right.kind = .symbol .rightParen) : Parenthesized writes [] [left, right]
  | filled {xs ts} {left : Token} (opens : left.kind = .symbol .leftParen)
      (inside : CommaSeries writes xs ts) : Parenthesized writes xs (left :: ts)

/-- A name, with or without a parenthesis behind it. -/
structure WritesName (text : String) (t : Token) : Prop where
  kind : t.kind.isName = true
  lexeme : t.lexeme = text

def WritesTypeName : TypeName → Token → Prop
  | .primitive type, t => t.kind = .primitive type
  | .inferred, t => t.kind = .keyword .kwVar
  | .named name, t => WritesName name t

inductive Brackets : Nat → List Token → Prop where
  | none : Brackets 0 []
  | pair {n ts} {left right : Token} (opens : left.kind = .symbol .leftBracket)
      (closes : right.kind = .symbol .rightBracket) (rest : Brackets n ts) :
      Brackets (n + 1) (left :: right :: ts)

inductive WritesType : TypeRef → List Token → Prop where
  | mk {type ts} {t : Token} (name : WritesTypeName type.name t)
      (brackets : Brackets type.arrayDepth ts) : WritesType type (t :: ts)

/-- The type of a declaration. No parenthesis follows it, so that a name in it is never the name of
a method. -/
def WritesDeclaredType (type : TypeRef) (ts : List Token) : Prop :=
  WritesType type ts ∧ ∀ t ∈ ts, t.kind ≠ .methodIdentifier

mutual

/-- An expression where one of strength `least` or more needs no parentheses. -/
inductive Operand : Nat → Expr → List Token → Prop where
  | bare {least e ts} (strong : least ≤ e.strength) (written : WritesExpr e ts) :
      Operand least e ts
  | paren {least e ts} {left right : Token} (opens : left.kind = .symbol .leftParen)
      (inside : Operand 0 e ts) (closes : right.kind = .symbol .rightParen) :
      Operand least e (left :: ts ++ [right])

inductive WritesExpr : Expr → List Token → Prop where
  | literal {span form text} {t : Token} (kind : t.kind = .literal form)
      (lexeme : t.lexeme = text) :
      WritesExpr (.literal span form text) [t]
  | name {span text} {t : Token} (name : WritesName text t) : WritesExpr (.name span text) [t]
  | self {span} {t : Token} (kind : t.kind = .keyword .kwThis) : WritesExpr (.self span) [t]
  | null {span} {t : Token} (kind : t.kind = .keyword .kwNull) : WritesExpr (.null span) [t]
  | unary {span op operand ts} {o : Token} (kind : o.kind = .symbol op.symbol)
      (inner : Operand 11 operand ts) : WritesExpr (.unary span op operand) (o :: ts)
  | step {span op operand ts} {o : Token} (inner : Operand 12 operand ts)
      (kind : o.kind = .symbol op.symbol) : WritesExpr (.step span op operand) (ts ++ [o])
  | binary {span op lhs rhs ls rs} {o : Token} (left : Operand op.precedence lhs ls)
      (kind : o.kind = .symbol op.symbol) (right : Operand (op.precedence + 1) rhs rs) :
      WritesExpr (.binary span op lhs rhs) (ls ++ o :: rs)
  | assign {span op target value ts vs} {o : Token} (assignable : target.isAssignable = true)
      (left : Operand 1 target ts) (kind : o.kind = .symbol op.symbol)
      (right : Operand 0 value vs) : WritesExpr (.assign span op target value) (ts ++ o :: vs)
  | call {span callee args ts us} (inner : Operand 12 callee ts)
      (inside : Parenthesized (Operand 0) args us) : WritesExpr (.call span callee args) (ts ++ us)
  | math {span function args us} {t : Token} (kind : t.kind = .math function)
      (inside : Parenthesized (Operand 0) args us) : WritesExpr (.math span function args) (t :: us)
  | member {span object field ts} {dot t : Token} (inner : Operand 12 object ts)
      (kind : dot.kind = .symbol .dot) (name : WritesName field t) :
      WritesExpr (.member span object field) (ts ++ [dot, t])
  | index {span object place ts us} {left right : Token} (inner : Operand 12 object ts)
      (opens : left.kind = .symbol .leftBracket) (inside : Operand 0 place us)
      (closes : right.kind = .symbol .rightBracket) :
      WritesExpr (.index span object place) (ts ++ left :: us ++ [right])
  | new {span type args ts us} {word : Token} (kind : word.kind = .keyword .kwNew)
      (named : WritesType type ts) (inside : Parenthesized (Operand 0) args us) :
      WritesExpr (.new span type args) (word :: ts ++ us)

end

inductive WritesModifiers : List Modifier → List Token → Prop where
  | nil : WritesModifiers [] []
  | cons {word words ts} {t : Token} (kind : t.kind = .modifier word)
      (rest : WritesModifiers words ts) : WritesModifiers (word :: words) (t :: ts)

inductive WritesInit : Option Expr → List Token → Prop where
  | none : WritesInit none []
  | some {e ts} {eq : Token} (kind : eq.kind = .symbol .assign) (value : Operand 0 e ts) :
      WritesInit (some e) (eq :: ts)

/-- A variable up to its semicolon; `writesType` says how its type may be written. -/
inductive WritesVariable (writesType : TypeRef → List Token → Prop) :
    VariableDecl → List Token → Prop where
  | mk {decl : VariableDecl} {ms ts is} {name semi : Token}
      (modifiers : WritesModifiers decl.modifiers ms) (type : writesType decl.type ts)
      (named : WritesName decl.name name) (init : WritesInit decl.init is)
      (ends : semi.kind = .symbol .semicolon) :
      WritesVariable writesType decl (ms ++ ts ++ name :: is ++ [semi])

inductive WritesOptional : Option Expr → List Token → Prop where
  | none : WritesOptional none []
  | some {e ts} (written : Operand 0 e ts) : WritesOptional (some e) ts

inductive WritesCondition : Expr → List Token → Prop where
  | mk {e ts} {left right : Token} (opens : left.kind = .symbol .leftParen)
      (inside : Operand 0 e ts) (closes : right.kind = .symbol .rightParen) :
      WritesCondition e (left :: ts ++ [right])

inductive WritesSimple : Stmt → List Token → Prop where
  | declare {decl ts} (written : WritesVariable WritesDeclaredType decl ts) :
      WritesSimple (.declare decl) ts
  | eval {e ts} {semi : Token} (written : Operand 0 e ts) (ends : semi.kind = .symbol .semicolon) :
      WritesSimple (.eval e) (ts ++ [semi])

inductive WritesForInit : Option Stmt → List Token → Prop where
  | none {semi : Token} (ends : semi.kind = .symbol .semicolon) : WritesForInit none [semi]
  | some {s ts} (written : WritesSimple s ts) : WritesForInit (some s) ts

inductive WritesStmt : Stmt → List Token → Prop where
  | simple {s ts} (written : WritesSimple s ts) : WritesStmt s ts
  | block {span ss ts} {left right : Token} (opens : left.kind = .symbol .leftBrace)
      (inside : Series WritesStmt ss ts) (closes : right.kind = .symbol .rightBrace) :
      WritesStmt (.block span ss) (left :: ts ++ [right])
  | branch {span condition onTrue cs ts} {word : Token} (kind : word.kind = .keyword .kwIf)
      (test : WritesCondition condition cs) (first : WritesStmt onTrue ts) :
      WritesStmt (.branch span condition onTrue none) (word :: cs ++ ts)
  | branchElse {span condition onTrue onFalse cs ts us} {word other : Token}
      (kind : word.kind = .keyword .kwIf) (test : WritesCondition condition cs)
      (first : WritesStmt onTrue ts) (closed : onTrue.endsOpen = false)
      (otherwise : other.kind = .keyword .kwElse) (second : WritesStmt onFalse us) :
      WritesStmt (.branch span condition onTrue (some onFalse)) (word :: cs ++ ts ++ other :: us)
  | whileLoop {span condition body cs ts} {word : Token} (kind : word.kind = .keyword .kwWhile)
      (test : WritesCondition condition cs) (inner : WritesStmt body ts) :
      WritesStmt (.whileLoop span condition body) (word :: cs ++ ts)
  | doLoop {span body condition ts cs} {word again semi : Token}
      (kind : word.kind = .keyword .kwDo) (inner : WritesStmt body ts)
      (repeats : again.kind = .keyword .kwWhile) (test : WritesCondition condition cs)
      (ends : semi.kind = .symbol .semicolon) :
      WritesStmt (.doLoop span body condition) (word :: ts ++ again :: cs ++ [semi])
  | forLoop {span init condition step body is cs ss ts} {word left semi right : Token}
      (kind : word.kind = .keyword .kwFor) (opens : left.kind = .symbol .leftParen)
      (first : WritesForInit init is) (test : WritesOptional condition cs)
      (ends : semi.kind = .symbol .semicolon) (advance : WritesOptional step ss)
      (closes : right.kind = .symbol .rightParen) (inner : WritesStmt body ts) :
      WritesStmt (.forLoop span init condition step body)
        (word :: left :: is ++ cs ++ semi :: ss ++ right :: ts)
  | ret {span value ts} {word semi : Token} (kind : word.kind = .keyword .kwReturn)
      (result : WritesOptional value ts) (ends : semi.kind = .symbol .semicolon) :
      WritesStmt (.ret span value) (word :: ts ++ [semi])
  | breakLoop {span} {word semi : Token} (kind : word.kind = .keyword .kwBreak)
      (ends : semi.kind = .symbol .semicolon) : WritesStmt (.breakLoop span) [word, semi]
  | continueLoop {span} {word semi : Token} (kind : word.kind = .keyword .kwContinue)
      (ends : semi.kind = .symbol .semicolon) : WritesStmt (.continueLoop span) [word, semi]

inductive WritesBlock : Block → List Token → Prop where
  | mk {b : Block} {ts} {left right : Token} (opens : left.kind = .symbol .leftBrace)
      (inside : Series WritesStmt b.statements ts) (closes : right.kind = .symbol .rightBrace) :
      WritesBlock b (left :: ts ++ [right])

inductive WritesParam : Param → List Token → Prop where
  | mk {p : Param} {ts} {name : Token} (type : WritesType p.type ts)
      (named : WritesName p.name name) : WritesParam p (ts ++ [name])

inductive WritesFunction (writesType : TypeRef → List Token → Prop) :
    FunctionDecl → List Token → Prop where
  | mk {decl : FunctionDecl} {ms ts ps bs} {name : Token}
      (modifiers : WritesModifiers decl.modifiers ms) (type : writesType decl.returnType ts)
      (named : WritesName decl.name name) (params : Parenthesized WritesParam decl.params ps)
      (body : WritesBlock decl.body bs) :
      WritesFunction writesType decl (ms ++ ts ++ name :: ps ++ bs)

inductive WritesMember : Member → List Token → Prop where
  | field {decl ts} (written : WritesVariable WritesType decl ts) : WritesMember (.field decl) ts
  | method {decl ts} (written : WritesFunction WritesType decl ts) : WritesMember (.method decl) ts

inductive WritesBase : Option BaseName → List Token → Prop where
  | none : WritesBase none []
  | some {base : BaseName} {word name : Token} (kind : word.kind = .keyword .kwExtends)
      (named : WritesName base.text name) : WritesBase (some base) [word, name]

inductive WritesClass : ClassDecl → List Token → Prop where
  | mk {decl : ClassDecl} {ms bs ts} {word name left right : Token}
      (modifiers : WritesModifiers decl.modifiers ms)
      (kind : word.kind = .keyword decl.word.keyword) (named : WritesName decl.name name)
      (base : WritesBase decl.base bs) (opens : left.kind = .symbol .leftBrace)
      (inside : Series WritesMember decl.members ts) (closes : right.kind = .symbol .rightBrace) :
      WritesClass decl (ms ++ word :: name :: bs ++ left :: ts ++ [right])

inductive WritesDeclaration : Declaration → List Token → Prop where
  | ofClass {decl ts} (written : WritesClass decl ts) : WritesDeclaration (.ofClass decl) ts
  | ofFunction {decl ts} (written : WritesFunction WritesDeclaredType decl ts) :
      WritesDeclaration (.ofFunction decl) ts
  | ofVariable {decl ts} (written : WritesVariable WritesDeclaredType decl ts) :
      WritesDeclaration (.ofVariable decl) ts

inductive WritesPath : List String → List Token → Prop where
  | last {name} {t : Token} (named : WritesName name t) : WritesPath [name] [t]
  | more {name names ts} {t dot : Token} (named : WritesName name t)
      (kind : dot.kind = .symbol .dot) (rest : WritesPath names ts) :
      WritesPath (name :: names) (t :: dot :: ts)

inductive WritesImport : Import → List Token → Prop where
  | mk {i : Import} {ts} {word semi : Token} (kind : word.kind = .keyword .kwImport)
      (path : WritesPath i.path ts) (ends : semi.kind = .symbol .semicolon) :
      WritesImport i (word :: ts ++ [semi])

inductive WritesFile : List Import → List Declaration → List Token → Prop where
  | nil : WritesFile [] [] []
  | ofImport {i imports items ts us} (first : WritesImport i ts)
      (rest : WritesFile imports items us) : WritesFile (i :: imports) items (ts ++ us)
  | ofItem {item imports items ts us} (first : WritesDeclaration item ts)
      (rest : WritesFile imports items us) : WritesFile imports (item :: items) (ts ++ us)

/-- The tokens write the tree: what stands behind an end of the stream does not count. -/
def Writes (tree : Tree) (tokens : List Token) : Prop :=
  ∃ ts tail, tokens = ts ++ tail ∧ WritesFile tree.imports tree.items ts ∧
    ∀ t ∈ tail.head?, t.kind = .endOfStream

end Syntax

end CherryLang
