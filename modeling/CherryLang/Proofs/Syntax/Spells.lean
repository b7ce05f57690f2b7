import CherryLang.Proofs.Syntax.Writing

/-! The tokens that a tree is spelled with, in their order, and its places: a construct is where its
first token is, a parameter and a base where their names are, and an expression where its first
token is that opens no parenthesis. A token without a counterpart in the tree is a fixed word or
mark of its construct, or one of two parentheses around an expression.

Unlike in the ways of writing a tree, no operand has to be in parentheses here: this says what the
tokens stand for, not which of several trees they are read as. -/
namespace CherryLang.Syntax

def StartsAt (span : Span) (ts : List Token) : Prop := ts.head?.map (·.span) = some span

/-- The first token but for opening parentheses is at `span`. -/
def Begins (span : Span) (ts : List Token) : Prop :=
  StartsAt span (ts.dropWhile fun t => t.kind == .symbol .leftParen)

/-- A construct whose place is that of its first token. -/
structure Placed {α : Type} (place : α → Span) (forms : α → List Token → Prop) (a : α)
    (ts : List Token) : Prop where
  starts : StartsAt (place a) ts
  form : forms a ts

/-- A part that may be missing. -/
inductive Maybe {α : Type} (spells : α → List Token → Prop) : Option α → List Token → Prop where
  | none : Maybe spells none []
  | some {a ts} (given : spells a ts) : Maybe spells (some a) ts

inductive Behind {α : Type} (kind : Kind) (spells : α → List Token → Prop) :
    α → List Token → Prop where
  | mk {a ts} {t : Token} (announced : t.kind = kind) (part : spells a ts) :
      Behind kind spells a (t :: ts)

abbrev SpellsType : TypeRef → List Token → Prop := Placed TypeRef.span WritesType

mutual

inductive SpellsExpr : Expr → List Token → Prop where
  | paren {e ts} {left right : Token} (opens : left.kind = .symbol .leftParen)
      (inside : SpellsExpr e ts) (closes : right.kind = .symbol .rightParen) :
      SpellsExpr e (left :: (ts ++ [right]))
  | bare {e ts} (begins : Begins e.span ts) (form : FormsExpr e ts) : SpellsExpr e ts

/-- An expression without parentheses around it, wherever it says that it is. -/
inductive FormsExpr : Expr → List Token → Prop where
  | literal {span form text} {t : Token} (kind : t.kind = .literal form)
      (lexeme : t.lexeme = text) : FormsExpr (.literal span form text) [t]
  | name {span text} {t : Token} (name : WritesName text t) : FormsExpr (.name span text) [t]
  | self {span} {t : Token} (kind : t.kind = .keyword .kwThis) : FormsExpr (.self span) [t]
  | null {span} {t : Token} (kind : t.kind = .keyword .kwNull) : FormsExpr (.null span) [t]
  | unary {span op operand ts} {o : Token} (kind : o.kind = .symbol op.symbol)
      (inner : SpellsExpr operand ts) : FormsExpr (.unary span op operand) (o :: ts)
  | step {span op operand ts} {o : Token} (inner : SpellsExpr operand ts)
      (kind : o.kind = .symbol op.symbol) : FormsExpr (.step span op operand) (ts ++ [o])
  | binary {span op lhs rhs ls rs} {o : Token} (left : SpellsExpr lhs ls)
      (kind : o.kind = .symbol op.symbol) (right : SpellsExpr rhs rs) :
      FormsExpr (.binary span op lhs rhs) (ls ++ o :: rs)
  | assign {span op target value ts vs} {o : Token} (assignable : target.isAssignable = true)
      (left : SpellsExpr target ts) (kind : o.kind = .symbol op.symbol)
      (right : SpellsExpr value vs) : FormsExpr (.assign span op target value) (ts ++ o :: vs)
  | call {span callee args ts us} (inner : SpellsExpr callee ts)
      (inside : Parenthesized SpellsExpr args us) : FormsExpr (.call span callee args) (ts ++ us)
  | math {span function args us} {t : Token} (kind : t.kind = .math function)
      (inside : Parenthesized SpellsExpr args us) : FormsExpr (.math span function args) (t :: us)
  | member {span object field ts} {dot t : Token} (inner : SpellsExpr object ts)
      (kind : dot.kind = .symbol .dot) (name : WritesName field t) :
      FormsExpr (.member span object field) (ts ++ [dot, t])
  | index {span object place ts us} {left right : Token} (inner : SpellsExpr object ts)
      (opens : left.kind = .symbol .leftBracket) (inside : SpellsExpr place us)
      (closes : right.kind = .symbol .rightBracket) :
      FormsExpr (.index span object place) (ts ++ left :: (us ++ [right]))
  | new {span type args ts us} {word : Token} (kind : word.kind = .keyword .kwNew)
      (named : SpellsType type ts) (inside : Parenthesized SpellsExpr args us) :
      FormsExpr (.new span type args) (word :: (ts ++ us))

end

abbrev SpellsInit : Option Expr → List Token → Prop := Maybe (Behind (.symbol .assign) SpellsExpr)

inductive FormsVariable : VariableDecl → List Token → Prop where
  | mk {decl : VariableDecl} {ms ts is} {name semi : Token}
      (modifiers : WritesModifiers decl.modifiers ms) (type : SpellsType decl.type ts)
      (named : WritesName decl.name name) (init : SpellsInit decl.init is)
      (ends : semi.kind = .symbol .semicolon) :
      FormsVariable decl (ms ++ (ts ++ name :: (is ++ [semi])))

abbrev SpellsVariable : VariableDecl → List Token → Prop := Placed VariableDecl.span FormsVariable

inductive SpellsCondition : Expr → List Token → Prop where
  | mk {e ts} {left right : Token} (opens : left.kind = .symbol .leftParen)
      (inside : SpellsExpr e ts) (closes : right.kind = .symbol .rightParen) :
      SpellsCondition e (left :: (ts ++ [right]))

inductive SpellsSimple : Stmt → List Token → Prop where
  | declare {decl ts} (spelled : SpellsVariable decl ts) : SpellsSimple (.declare decl) ts
  | eval {e ts} {semi : Token} (spelled : SpellsExpr e ts) (ends : semi.kind = .symbol .semicolon) :
      SpellsSimple (.eval e) (ts ++ [semi])

inductive SpellsForInit : Option Stmt → List Token → Prop where
  | none {semi : Token} (ends : semi.kind = .symbol .semicolon) : SpellsForInit none [semi]
  | some {s ts} (spelled : SpellsSimple s ts) : SpellsForInit (some s) ts

inductive SpellsStmt : Stmt → List Token → Prop where
  | simple {s ts} (spelled : SpellsSimple s ts) : SpellsStmt s ts
  | block {ss ts} {left right : Token} (opens : left.kind = .symbol .leftBrace)
      (inside : Series SpellsStmt ss ts) (closes : right.kind = .symbol .rightBrace) :
      SpellsStmt (.block left.span ss) (left :: (ts ++ [right]))
  | branch {condition onTrue cs ts} {word : Token} (kind : word.kind = .keyword .kwIf)
      (test : SpellsCondition condition cs) (first : SpellsStmt onTrue ts) :
      SpellsStmt (.branch word.span condition onTrue none) (word :: (cs ++ ts))
  | branchElse {condition onTrue onFalse cs ts us} {word other : Token}
      (kind : word.kind = .keyword .kwIf) (test : SpellsCondition condition cs)
      (first : SpellsStmt onTrue ts) (otherwise : other.kind = .keyword .kwElse)
      (second : SpellsStmt onFalse us) :
      SpellsStmt (.branch word.span condition onTrue (some onFalse))
        (word :: (cs ++ (ts ++ other :: us)))
  | whileLoop {condition body cs ts} {word : Token} (kind : word.kind = .keyword .kwWhile)
      (test : SpellsCondition condition cs) (inner : SpellsStmt body ts) :
      SpellsStmt (.whileLoop word.span condition body) (word :: (cs ++ ts))
  | doLoop {body condition ts cs} {word again semi : Token}
      (kind : word.kind = .keyword .kwDo) (inner : SpellsStmt body ts)
      (repeats : again.kind = .keyword .kwWhile) (test : SpellsCondition condition cs)
      (ends : semi.kind = .symbol .semicolon) :
      SpellsStmt (.doLoop word.span body condition) (word :: (ts ++ again :: (cs ++ [semi])))
  | forLoop {init condition step body is cs ss ts} {word left semi right : Token}
      (kind : word.kind = .keyword .kwFor) (opens : left.kind = .symbol .leftParen)
      (first : SpellsForInit init is) (test : Maybe SpellsExpr condition cs)
      (ends : semi.kind = .symbol .semicolon) (advance : Maybe SpellsExpr step ss)
      (closes : right.kind = .symbol .rightParen) (inner : SpellsStmt body ts) :
      SpellsStmt (.forLoop word.span init condition step body)
        (word :: left :: (is ++ (cs ++ semi :: (ss ++ right :: ts))))
  | ret {value ts} {word semi : Token} (kind : word.kind = .keyword .kwReturn)
      (result : Maybe SpellsExpr value ts) (ends : semi.kind = .symbol .semicolon) :
      SpellsStmt (.ret word.span value) (word :: (ts ++ [semi]))
  | breakLoop {word semi : Token} (kind : word.kind = .keyword .kwBreak)
      (ends : semi.kind = .symbol .semicolon) : SpellsStmt (.breakLoop word.span) [word, semi]
  | continueLoop {word semi : Token} (kind : word.kind = .keyword .kwContinue)
      (ends : semi.kind = .symbol .semicolon) : SpellsStmt (.continueLoop word.span) [word, semi]

inductive FormsBlock : Block → List Token → Prop where
  | mk {b : Block} {ts} {left right : Token} (opens : left.kind = .symbol .leftBrace)
      (inside : Series SpellsStmt b.statements ts) (closes : right.kind = .symbol .rightBrace) :
      FormsBlock b (left :: (ts ++ [right]))

abbrev SpellsBlock : Block → List Token → Prop := Placed Block.span FormsBlock

inductive SpellsParam : Param → List Token → Prop where
  | mk {p : Param} {ts} {name : Token} (type : SpellsType p.type ts)
      (named : WritesName p.name name) (place : p.span = name.span) : SpellsParam p (ts ++ [name])

inductive FormsFunction : FunctionDecl → List Token → Prop where
  | mk {decl : FunctionDecl} {ms ts ps bs} {name : Token}
      (modifiers : WritesModifiers decl.modifiers ms) (type : SpellsType decl.returnType ts)
      (named : WritesName decl.name name) (params : Parenthesized SpellsParam decl.params ps)
      (body : SpellsBlock decl.body bs) : FormsFunction decl (ms ++ (ts ++ name :: (ps ++ bs)))

def FormsMember : Member → List Token → Prop
  | .field decl => FormsVariable decl
  | .method decl => FormsFunction decl

abbrev SpellsMember : Member → List Token → Prop := Placed Member.span FormsMember

inductive SpellsBase : BaseName → List Token → Prop where
  | mk {base : BaseName} {name : Token} (named : WritesName base.text name)
      (place : base.span = name.span) : SpellsBase base [name]

inductive FormsClass : ClassDecl → List Token → Prop where
  | mk {decl : ClassDecl} {ms bs ts} {word name left right : Token}
      (modifiers : WritesModifiers decl.modifiers ms)
      (kind : word.kind = .keyword decl.word.keyword) (named : WritesName decl.name name)
      (base : Maybe (Behind (.keyword .kwExtends) SpellsBase) decl.base bs)
      (opens : left.kind = .symbol .leftBrace) (inside : Series SpellsMember decl.members ts)
      (closes : right.kind = .symbol .rightBrace) :
      FormsClass decl (ms ++ word :: name :: (bs ++ left :: (ts ++ [right])))

def FormsDeclaration : Declaration → List Token → Prop
  | .ofClass decl => FormsClass decl
  | .ofFunction decl => FormsFunction decl
  | .ofVariable decl => FormsVariable decl

abbrev SpellsDeclaration : Declaration → List Token → Prop :=
  Placed Declaration.span FormsDeclaration

abbrev SpellsImport : Import → List Token → Prop := Placed Import.span WritesImport

/-- Imports and items of a file, each in their order, in any mixture. -/
inductive SpellsFile : List Import → List Declaration → List Token → Prop where
  | nil : SpellsFile [] [] []
  | ofImport {i imports items ts us} (first : SpellsImport i ts)
      (rest : SpellsFile imports items us) : SpellsFile (i :: imports) items (ts ++ us)
  | ofItem {item imports items ts us} (first : SpellsDeclaration item ts)
      (rest : SpellsFile imports items us) : SpellsFile imports (item :: items) (ts ++ us)

section

variable {span : Span} {ts : List Token}

theorem StartsAt.head (t : Token) : StartsAt t.span (t :: ts) := rfl

theorem StartsAt.append (starts : StartsAt span ts) (us : List Token) :
    StartsAt span (ts ++ us) := by
  cases ts with
  | nil => simp [StartsAt] at starts
  | cons t ts => exact starts

theorem Begins.head {t : Token} (plain : t.kind ≠ .symbol .leftParen) :
    Begins t.span (t :: ts) := by
  simp [Begins, StartsAt, plain]

theorem Begins.behind {t : Token} (opens : t.kind = .symbol .leftParen) (begins : Begins span ts) :
    Begins span (t :: ts) := by
  simpa [Begins, opens] using begins

theorem Begins.append (begins : Begins span ts) (us : List Token) : Begins span (ts ++ us) := by
  unfold Begins at begins ⊢
  rw [List.dropWhile_append]
  split
  · next none => simp [StartsAt, List.isEmpty_iff.mp none] at begins
  · exact StartsAt.append begins us

theorem SpellsExpr.begins {e : Expr} {ts : List Token} : SpellsExpr e ts → Begins e.span ts
  | .paren opens inside _ => (inside.begins.append _).behind opens
  | .bare begins _ => begins

/-- A form that starts with an expression is where that is. -/
theorem SpellsExpr.around {e e' : Expr} {ls us : List Token} (inner : SpellsExpr e ls)
    (form : FormsExpr e' (ls ++ us)) (place : e'.span = e.span) : SpellsExpr e' (ls ++ us) :=
  .bare (place ▸ inner.begins.append us) form

end

end CherryLang.Syntax
