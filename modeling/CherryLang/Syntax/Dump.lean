import CherryLang.Syntax.Tree
import CherryLang.Text.Record
import CherryLang.Token.Label

namespace CherryLang

open Text (Record)

def Span.record (span : Span) : Record :=
  .fields "Span" [("line", .number span.line), ("column", .number span.column)]

def TypeName.record : TypeName → Record
  | .primitive type => .tuple "Primitive" [.atom type.label]
  | .inferred => .tuple "Primitive" [.atom (Kind.keyword .kwVar).label]
  | .named name => .tuple "Named" [.string name]

def TypeRef.record (type : TypeRef) : Record :=
  .fields "TypeRef"
    [("name", type.name.record), ("array_depth", .number type.arrayDepth),
      ("span", type.span.record)]

mutual

def Expr.record : Expr → Record
  | .literal span form text =>
    node span (.fields "Literal" [("kind", .atom form.label), ("text", .string text)])
  | .name span text => node span (.tuple "Name" [.string text])
  | .self span => node span (.atom "This")
  | .null span => node span (.atom "Null")
  | .unary span op operand =>
    node span (.fields "Unary" [("op", .atom op.symbol.label), ("operand", operand.record)])
  | .step span op operand =>
    node span (.fields "Postfix" [("op", .atom op.symbol.label), ("operand", operand.record)])
  | .binary span op lhs rhs =>
    node span (.fields "Binary"
      [("op", .atom op.symbol.label), ("lhs", lhs.record), ("rhs", rhs.record)])
  | .assign span op target value =>
    node span (.fields "Assign"
      [("op", .atom op.symbol.label), ("target", target.record), ("value", value.record)])
  | .call span callee args =>
    node span (.fields "Call" [("callee", callee.record), ("args", .list (Expr.records args))])
  | .math span function args =>
    node span (.fields "MathCall"
      [("function", .atom function.label), ("args", .list (Expr.records args))])
  | .member span object field =>
    node span (.fields "Member" [("object", object.record), ("name", .string field)])
  | .index span object place =>
    node span (.fields "Index" [("object", object.record), ("index", place.record)])
  | .new span type args =>
    node span (.fields "New" [("ty", type.record), ("args", .list (Expr.records args))])
where
  node (span : Span) (kind : Record) : Record :=
    .fields "Expr" [("kind", kind), ("span", span.record)]

def Expr.records : List Expr → List Record
  | [] => []
  | e :: rest => e.record :: Expr.records rest

end

def Modifier.records (words : List Modifier) : Record :=
  .list (words.map fun word => .atom word.label)

def VariableDecl.record (decl : VariableDecl) : Record :=
  .fields "VariableDecl"
    [("modifiers", Modifier.records decl.modifiers), ("ty", decl.type.record),
      ("name", .string decl.name), ("init", .optional (decl.init.map (·.record))),
      ("span", decl.span.record)]

def blockRecord (span : Span) (statements : List Record) : Record :=
  .fields "Block" [("statements", .list statements), ("span", span.record)]

mutual

def Stmt.record : Stmt → Record
  | .block span statements => .tuple "Block" [blockRecord span (Stmt.records statements)]
  | .declare decl => .tuple "Variable" [decl.record]
  | .branch span condition onTrue onFalse =>
    .fields "If"
      [("condition", condition.record), ("then_branch", onTrue.record),
        ("else_branch", Stmt.optionalRecord onFalse), ("span", span.record)]
  | .whileLoop span condition body =>
    .fields "While" [("condition", condition.record), ("body", body.record), ("span", span.record)]
  | .doLoop span body condition =>
    .fields "DoWhile"
      [("body", body.record), ("condition", condition.record), ("span", span.record)]
  | .forLoop span init condition step body =>
    .fields "For"
      [("init", Stmt.optionalRecord init), ("condition", .optional (condition.map (·.record))),
        ("step", .optional (step.map (·.record))), ("body", body.record), ("span", span.record)]
  | .ret span value =>
    .fields "Return" [("value", .optional (value.map (·.record))), ("span", span.record)]
  | .breakLoop span => .tuple "Break" [span.record]
  | .continueLoop span => .tuple "Continue" [span.record]
  | .eval e => .tuple "Expr" [e.record]

def Stmt.optionalRecord : Option Stmt → Record
  | none => .optional none
  | some s => .optional (some s.record)

def Stmt.records : List Stmt → List Record
  | [] => []
  | s :: rest => s.record :: Stmt.records rest

end

def Param.record (p : Param) : Record :=
  .fields "Param"
    [("ty", p.type.record), ("name", .string p.name), ("span", p.span.record)]

def FunctionDecl.record (decl : FunctionDecl) : Record :=
  .fields "FunctionDecl"
    [("modifiers", Modifier.records decl.modifiers), ("return_type", decl.returnType.record),
      ("name", .string decl.name), ("params", .list (decl.params.map (·.record))),
      ("body", blockRecord decl.body.span (Stmt.records decl.body.statements)),
      ("span", decl.span.record)]

def Member.record : Member → Record
  | .field decl => .tuple "Field" [decl.record]
  | .method decl => .tuple "Method" [decl.record]

def BaseName.record (base : BaseName) : Record :=
  .fields "Name" [("text", .string base.text), ("span", base.span.record)]

def ClassDecl.record (decl : ClassDecl) : Record :=
  .fields "ClassDecl"
    [("modifiers", Modifier.records decl.modifiers), ("keyword", .atom decl.word.keyword.label),
      ("name", .string decl.name), ("base", .optional (decl.base.map (·.record))),
      ("members", .list (decl.members.map (·.record))), ("span", decl.span.record)]

def Declaration.record : Declaration → Record
  | .ofClass decl => .tuple "Class" [decl.record]
  | .ofFunction decl => .tuple "Function" [decl.record]
  | .ofVariable decl => .tuple "Variable" [decl.record]

def Import.record (i : Import) : Record :=
  .fields "Import" [("path", .list (i.path.map .string)), ("span", i.span.record)]

def Tree.record (tree : Tree) : Record :=
  .fields "ParseTree"
    [("file", .tuple "FileId" [.number tree.file.number]),
      ("imports", .list (tree.imports.map (·.record))),
      ("items", .list (tree.items.map (·.record)))]

def Tree.dump (tree : Tree) : String := tree.record.text

end CherryLang
