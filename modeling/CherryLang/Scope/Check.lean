import CherryLang.Scope.Binding

/-! The check of a tree. Names resolve from the innermost scope outwards, then in the enclosing
class and its bases, then at file level, where the order of declarations does not matter. -/
namespace CherryLang.Scope

structure Walk where
  /-- Open scopes, the innermost first. -/
  scopes : List Names := []
  enclosing : Option ClassDecl := none
  returnsVoid : Bool := true
  loopDepth : Nat := 0
  errors : Array Error := #[]

namespace Walk

def report (w : Walk) (kind : ErrorKind) (span : Span) : Walk :=
  { w with errors := w.errors.push ⟨kind, span⟩ }

def reportIf (w : Walk) (broken : Bool) (kind : ErrorKind) (span : Span) : Walk :=
  if broken then w.report kind span else w

def push (w : Walk) (names : Names) : Walk := { w with scopes := names :: w.scopes }

def pop (w : Walk) : Walk := { w with scopes := w.scopes.tail }

def declareLocal (w : Walk) (name : String) (binding : Binding) : Walk :=
  match w.scopes with
  | [] => w
  | innermost :: outer =>
    let (names, new) := declare innermost name binding
    { w with scopes := names :: outer, errors := w.errors ++ new }

def resolve (w : Walk) (g : Globals) (name : String) : Option Binding :=
  (w.scopes.findSome? (·.lookup name)).or
    ((w.enclosing.bind (g.member? · name)).or (g.names.lookup name))

end Walk

def checkType (g : Globals) (type : TypeRef) (w : Walk) : Walk :=
  match type.name with
  | .named name => w.reportIf (!g.knowsType name) (.unknownType name) type.span
  | .primitive _ | .inferred => w

def checkMutation (g : Globals) (target : Expr) (w : Walk) : Walk :=
  match target with
  | .name span text => w.reportIf ((w.resolve g text).any (·.isConst)) (.assignToConst text) span
  | _ => w

mutual

def checkExpr (g : Globals) : Expr → Walk → Walk
  | .literal .., w => w
  | .null _, w => w
  | .name span text, w => w.reportIf (w.resolve g text).isNone (.undeclaredName text) span
  | .self span, w => w.reportIf w.enclosing.isNone .thisOutsideClass span
  | .unary _ op operand, w =>
    checkExpr g operand (if op.mutates then checkMutation g operand w else w)
  | .step _ _ operand, w => checkExpr g operand (checkMutation g operand w)
  | .binary _ _ lhs rhs, w => checkExpr g rhs (checkExpr g lhs w)
  | .assign _ _ target value, w =>
    checkExpr g value (checkExpr g target (checkMutation g target w))
  | .call _ callee args, w => checkExprs g args (checkExpr g callee w)
  | .math _ _ args, w => checkExprs g args w
  | .member _ object _, w => checkExpr g object w
  | .index _ object index, w => checkExpr g index (checkExpr g object w)
  | .new _ type args, w => checkExprs g args (checkType g type w)

def checkExprs (g : Globals) : List Expr → Walk → Walk
  | [], w => w
  | e :: rest, w => checkExprs g rest (checkExpr g e w)

end

def checkExpr? (g : Globals) : Option Expr → Walk → Walk
  | none, w => w
  | some e, w => checkExpr g e w

/-- The type and the initializer of a variable, which does not see the variable itself. -/
def checkVariable (g : Globals) (decl : VariableDecl) (w : Walk) : Walk :=
  checkExpr? g decl.init (checkType g decl.type w)

def checkReturn (span : Span) (value : Option Expr) (w : Walk) : Walk :=
  match value, w.returnsVoid with
  | some _, true => w.report .returnValueInVoid span
  | none, false => w.report .missingReturnValue span
  | _, _ => w

/-- A branch or body has a scope of its own, with braces or without. -/
def inScope (braced : Bool) (inner : Walk → Walk) (w : Walk) : Walk :=
  if braced then inner w else (inner (w.push [])).pop

def inLoop (inner : Walk → Walk) (w : Walk) : Walk :=
  let w := inner { w with loopDepth := w.loopDepth + 1 }
  { w with loopDepth := w.loopDepth - 1 }

mutual

def checkStmt (g : Globals) : Stmt → Walk → Walk
  | .block _ statements, w => (checkStmts g statements (w.push [])).pop
  | .declare decl, w => (checkVariable g decl w).declareLocal decl.name decl.toBinding
  | .branch _ condition onTrue none, w =>
    inScope onTrue.isBlock (checkStmt g onTrue) (checkExpr g condition w)
  | .branch _ condition onTrue (some onFalse), w =>
    inScope onFalse.isBlock (checkStmt g onFalse)
      (inScope onTrue.isBlock (checkStmt g onTrue) (checkExpr g condition w))
  | .whileLoop _ condition body, w =>
    inLoop (inScope body.isBlock (checkStmt g body)) (checkExpr g condition w)
  | .doLoop _ body condition, w =>
    inLoop (inScope body.isBlock (checkStmt g body)) (checkExpr g condition w)
  | .forLoop _ none condition step body, w =>
    (inLoop (inScope body.isBlock (checkStmt g body))
      (checkExpr? g step (checkExpr? g condition (w.push [])))).pop
  | .forLoop _ (some init) condition step body, w =>
    (inLoop (inScope body.isBlock (checkStmt g body))
      (checkExpr? g step (checkExpr? g condition (checkStmt g init (w.push []))))).pop
  | .ret span value, w => checkExpr? g value (checkReturn span value w)
  | .breakLoop span, w => w.reportIf (w.loopDepth == 0) .breakOutsideLoop span
  | .continueLoop span, w => w.reportIf (w.loopDepth == 0) .continueOutsideLoop span
  | .eval e, w => checkExpr g e w

def checkStmts (g : Globals) : List Stmt → Walk → Walk
  | [], w => w
  | s :: rest, w => checkStmts g rest (checkStmt g s w)

end

/-- The parameters of a function share a scope with the variables of its body. -/
def checkParams (g : Globals) (names : Names) : List Param → Walk → Names × Walk
  | [], w => (names, w)
  | p :: rest, w =>
    let w := checkType g p.type w
    let (names, new) := declare names p.name { span := p.span }
    checkParams g names rest { w with errors := w.errors ++ new }

def checkFunction (g : Globals) (decl : FunctionDecl) (w : Walk) : Walk :=
  let (names, w₁) := checkParams g [] decl.params (checkType g decl.returnType w)
  let inside := { w₁ with returnsVoid := decl.returnType.isVoid, loopDepth := 0 }.push names
  let w₂ := (checkStmts g decl.body.statements inside).pop
  { w₂ with returnsVoid := w.returnsVoid, loopDepth := w.loopDepth }

def checkBase (g : Globals) (decl : ClassDecl) (w : Walk) : Walk :=
  match decl.base with
  | none => w
  | some base =>
    if base.text == decl.name || g.inherits base.text decl.name then
      w.report (.cyclicInheritance decl.name) base.span
    else w.reportIf (!g.knowsType base.text) (.unknownBaseClass base.text) base.span

def checkMember (g : Globals) (w : Walk) : Member → Walk
  | .field decl => checkVariable g decl w
  | .method decl => checkFunction g decl w

def checkClass (g : Globals) (decl : ClassDecl) (w : Walk) : Walk :=
  let w₁ := checkBase g decl w
  let (_, errors) := declareAll [] w₁.errors (decl.members.map fun m => (m.name, m.toBinding))
  let inside := { w₁ with errors := errors, enclosing := some decl }
  { decl.members.foldl (checkMember g) inside with enclosing := w.enclosing }

def checkDeclaration (g : Globals) (w : Walk) : Declaration → Walk
  | .ofClass decl => checkClass g decl w
  | .ofFunction decl => checkFunction g decl w
  | .ofVariable decl => checkVariable g decl w

/-- Everything that is wrong with a file, in the order in which the check meets it. -/
def findings (tree : Tree) : List Error :=
  let (g, errors) := globals tree
  (tree.items.foldl (checkDeclaration g) { errors := errors }).errors.toList

/-- Everything that is wrong with a file, in the order of the source; errors at one place keep the
order of the check. -/
def check (tree : Tree) : List Error :=
  (findings tree).mergeSort fun a b => a.span.le b.span

end CherryLang.Scope
