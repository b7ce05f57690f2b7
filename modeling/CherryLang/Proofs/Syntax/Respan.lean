import CherryLang.Syntax.Tree

/-! Trees with their places moved. Two trees are equal up to places when moving every place to the
same one makes them equal. -/
namespace CherryLang

def TypeRef.respan (f : Span → Span) (type : TypeRef) : TypeRef :=
  { type with span := f type.span }

mutual

def Expr.respan (f : Span → Span) : Expr → Expr
  | .literal span form text => .literal (f span) form text
  | .name span text => .name (f span) text
  | .self span => .self (f span)
  | .null span => .null (f span)
  | .unary span op operand => .unary (f span) op (operand.respan f)
  | .step span op operand => .step (f span) op (operand.respan f)
  | .binary span op lhs rhs => .binary (f span) op (lhs.respan f) (rhs.respan f)
  | .assign span op target value => .assign (f span) op (target.respan f) (value.respan f)
  | .call span callee args => .call (f span) (callee.respan f) (Expr.respanAll f args)
  | .math span function args => .math (f span) function (Expr.respanAll f args)
  | .member span object field => .member (f span) (object.respan f) field
  | .index span object place => .index (f span) (object.respan f) (place.respan f)
  | .new span type args => .new (f span) (type.respan f) (Expr.respanAll f args)

def Expr.respanAll (f : Span → Span) : List Expr → List Expr
  | [] => []
  | e :: rest => e.respan f :: Expr.respanAll f rest

end

def VariableDecl.respan (f : Span → Span) (decl : VariableDecl) : VariableDecl :=
  { decl with type := decl.type.respan f, init := decl.init.map (·.respan f), span := f decl.span }

mutual

def Stmt.respan (f : Span → Span) : Stmt → Stmt
  | .block span statements => .block (f span) (Stmt.respanAll f statements)
  | .declare decl => .declare (decl.respan f)
  | .branch span condition onTrue none =>
    .branch (f span) (condition.respan f) (onTrue.respan f) none
  | .branch span condition onTrue (some onFalse) =>
    .branch (f span) (condition.respan f) (onTrue.respan f) (some (onFalse.respan f))
  | .whileLoop span condition body => .whileLoop (f span) (condition.respan f) (body.respan f)
  | .doLoop span body condition => .doLoop (f span) (body.respan f) (condition.respan f)
  | .forLoop span none condition step body =>
    .forLoop (f span) none (condition.map (·.respan f)) (step.map (·.respan f)) (body.respan f)
  | .forLoop span (some init) condition step body =>
    .forLoop (f span) (some (init.respan f)) (condition.map (·.respan f)) (step.map (·.respan f))
      (body.respan f)
  | .ret span value => .ret (f span) (value.map (·.respan f))
  | .breakLoop span => .breakLoop (f span)
  | .continueLoop span => .continueLoop (f span)
  | .eval e => .eval (e.respan f)

def Stmt.respanAll (f : Span → Span) : List Stmt → List Stmt
  | [] => []
  | s :: rest => s.respan f :: Stmt.respanAll f rest

end

def Block.respan (f : Span → Span) (b : Block) : Block :=
  ⟨Stmt.respanAll f b.statements, f b.span⟩

def Param.respan (f : Span → Span) (p : Param) : Param :=
  { p with type := p.type.respan f, span := f p.span }

def FunctionDecl.respan (f : Span → Span) (decl : FunctionDecl) : FunctionDecl :=
  { decl with
    returnType := decl.returnType.respan f
    params := decl.params.map (·.respan f)
    body := decl.body.respan f
    span := f decl.span }

def Member.respan (f : Span → Span) : Member → Member
  | .field decl => .field (decl.respan f)
  | .method decl => .method (decl.respan f)

def BaseName.respan (f : Span → Span) (base : BaseName) : BaseName :=
  { base with span := f base.span }

def ClassDecl.respan (f : Span → Span) (decl : ClassDecl) : ClassDecl :=
  { decl with
    base := decl.base.map (·.respan f)
    members := decl.members.map (·.respan f)
    span := f decl.span }

def Declaration.respan (f : Span → Span) : Declaration → Declaration
  | .ofClass decl => .ofClass (decl.respan f)
  | .ofFunction decl => .ofFunction (decl.respan f)
  | .ofVariable decl => .ofVariable (decl.respan f)

def Import.respan (f : Span → Span) (i : Import) : Import := { i with span := f i.span }

def Tree.respan (f : Span → Span) (tree : Tree) : Tree :=
  { tree with imports := tree.imports.map (·.respan f), items := tree.items.map (·.respan f) }

theorem Expr.respanAll_eq_map (f : Span → Span) (es : List Expr) :
    Expr.respanAll f es = es.map (·.respan f) := by
  induction es with
  | nil => rfl
  | cons e rest ih => simp only [Expr.respanAll, List.map_cons, ih]

theorem Stmt.respanAll_eq_map (f : Span → Span) (ss : List Stmt) :
    Stmt.respanAll f ss = ss.map (·.respan f) := by
  induction ss with
  | nil => rfl
  | cons s rest ih => simp only [Stmt.respanAll, List.map_cons, ih]

@[simp] theorem Expr.span_respan (f : Span → Span) (e : Expr) : (e.respan f).span = f e.span := by
  cases e <;> rfl

@[simp] theorem Expr.isAssignable_respan (f : Span → Span) (e : Expr) :
    (e.respan f).isAssignable = e.isAssignable := by
  cases e <;> rfl

section

variable (f h : Span → Span)

theorem TypeRef.respan_respan (type : TypeRef) :
    (type.respan f).respan h = type.respan (h ∘ f) := rfl

mutual

theorem Expr.respan_respan : ∀ e : Expr, (e.respan f).respan h = e.respan (h ∘ f)
  | .literal _ _ _ | .name _ _ | .self _ | .null _ => rfl
  | .unary _ _ operand | .step _ _ operand | .member _ operand _ => by
    simp only [Expr.respan, Expr.respan_respan operand, Function.comp_apply]
  | .binary _ _ lhs rhs | .assign _ _ lhs rhs | .index _ lhs rhs => by
    simp only [Expr.respan, Expr.respan_respan lhs, Expr.respan_respan rhs, Function.comp_apply]
  | .call _ callee args => by
    simp only [Expr.respan, Expr.respan_respan callee, Expr.respanAll_respanAll args,
      Function.comp_apply]
  | .math _ _ args => by
    simp only [Expr.respan, Expr.respanAll_respanAll args, Function.comp_apply]
  | .new _ type args => by
    simp only [Expr.respan, TypeRef.respan_respan, Expr.respanAll_respanAll args,
      Function.comp_apply]

theorem Expr.respanAll_respanAll : ∀ es : List Expr,
    Expr.respanAll h (Expr.respanAll f es) = Expr.respanAll (h ∘ f) es
  | [] => rfl
  | e :: rest => by
    simp only [Expr.respanAll, Expr.respan_respan e, Expr.respanAll_respanAll rest]

end

theorem Expr.map_respan_respan (e? : Option Expr) :
    (e?.map (·.respan f)).map (·.respan h) = e?.map (·.respan (h ∘ f)) := by
  simp [Function.comp_def, Expr.respan_respan f h]

theorem VariableDecl.respan_respan (decl : VariableDecl) :
    (decl.respan f).respan h = decl.respan (h ∘ f) := by
  simp only [VariableDecl.respan, TypeRef.respan_respan, Expr.map_respan_respan,
    Function.comp_apply]

mutual

theorem Stmt.respan_respan : ∀ s : Stmt, (s.respan f).respan h = s.respan (h ∘ f)
  | .block _ statements => by
    simp only [Stmt.respan, Stmt.respanAll_respanAll statements, Function.comp_apply]
  | .declare decl => by
    simp only [Stmt.respan, VariableDecl.respan_respan]
  | .branch _ condition onTrue none => by
    simp only [Stmt.respan, Expr.respan_respan, Stmt.respan_respan onTrue, Function.comp_apply]
  | .branch _ condition onTrue (some onFalse) => by
    simp only [Stmt.respan, Expr.respan_respan, Stmt.respan_respan onTrue,
      Stmt.respan_respan onFalse, Function.comp_apply]
  | .whileLoop _ condition body | .doLoop _ body condition => by
    simp only [Stmt.respan, Expr.respan_respan, Stmt.respan_respan body, Function.comp_apply]
  | .forLoop _ none condition step body => by
    simp only [Stmt.respan, Expr.map_respan_respan, Stmt.respan_respan body, Function.comp_apply]
  | .forLoop _ (some init) condition step body => by
    simp only [Stmt.respan, Expr.map_respan_respan, Stmt.respan_respan init,
      Stmt.respan_respan body, Function.comp_apply]
  | .ret _ value => by
    simp only [Stmt.respan, Expr.map_respan_respan, Function.comp_apply]
  | .breakLoop _ | .continueLoop _ => rfl
  | .eval e => by
    simp only [Stmt.respan, Expr.respan_respan]

theorem Stmt.respanAll_respanAll : ∀ ss : List Stmt,
    Stmt.respanAll h (Stmt.respanAll f ss) = Stmt.respanAll (h ∘ f) ss
  | [] => rfl
  | s :: rest => by
    simp only [Stmt.respanAll, Stmt.respan_respan s, Stmt.respanAll_respanAll rest]

end

theorem FunctionDecl.respan_respan (decl : FunctionDecl) :
    (decl.respan f).respan h = decl.respan (h ∘ f) := by
  have params : (decl.params.map (·.respan f)).map (·.respan h) =
      decl.params.map (·.respan (h ∘ f)) := List.map_map
  simp only [FunctionDecl.respan, TypeRef.respan_respan, Block.respan, Stmt.respanAll_respanAll,
    params, Function.comp_apply]

theorem Member.respan_respan (m : Member) : (m.respan f).respan h = m.respan (h ∘ f) := by
  cases m with
  | field decl => simp only [Member.respan, VariableDecl.respan_respan]
  | method decl => simp only [Member.respan, FunctionDecl.respan_respan]

theorem ClassDecl.respan_respan (decl : ClassDecl) :
    (decl.respan f).respan h = decl.respan (h ∘ f) := by
  simp [ClassDecl.respan, Function.comp_def, Member.respan_respan f h, BaseName.respan]

theorem Declaration.respan_respan (d : Declaration) :
    (d.respan f).respan h = d.respan (h ∘ f) := by
  cases d with
  | ofClass decl => simp only [Declaration.respan, ClassDecl.respan_respan]
  | ofFunction decl => simp only [Declaration.respan, FunctionDecl.respan_respan]
  | ofVariable decl => simp only [Declaration.respan, VariableDecl.respan_respan]

theorem Tree.respan_respan (tree : Tree) : (tree.respan f).respan h = tree.respan (h ∘ f) := by
  simp [Tree.respan, Import.respan, Function.comp_def, Declaration.respan_respan f h]

end

def nowhere : Span → Span := fun _ => {}

/-- A tree without its places and its file. -/
def Tree.bare (tree : Tree) : Tree := { tree.respan nowhere with file := {} }

end CherryLang
