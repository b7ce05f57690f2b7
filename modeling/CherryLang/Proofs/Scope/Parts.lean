import CherryLang.Scope.Binding

namespace CherryLang

mutual

/-- An expression and all expressions in it. -/
def Expr.parts : Expr → List Expr
  | e@(.literal ..) | e@(.name ..) | e@(.self _) | e@(.null _) => [e]
  | e@(.unary _ _ operand) | e@(.step _ _ operand) | e@(.member _ operand _) =>
    e :: operand.parts
  | e@(.binary _ _ lhs rhs) | e@(.assign _ _ lhs rhs) | e@(.index _ lhs rhs) =>
    e :: (lhs.parts ++ rhs.parts)
  | e@(.call _ callee args) => e :: (callee.parts ++ Expr.partsAll args)
  | e@(.math _ _ args) | e@(.new _ _ args) => e :: Expr.partsAll args

def Expr.partsAll : List Expr → List Expr
  | [] => []
  | e :: rest => e.parts ++ Expr.partsAll rest

end

def Expr.newType? : Expr → Option TypeRef
  | .new _ type _ => some type
  | _ => none

def Expr.self? : Expr → Option Span
  | .self span => some span
  | _ => none

namespace VariableDecl

def exprs (decl : VariableDecl) : List Expr := decl.init.toList.flatMap Expr.parts

def types (decl : VariableDecl) : List TypeRef := decl.type :: decl.exprs.filterMap Expr.newType?

end VariableDecl

/-- Leaves a loop, a round of one, or a function. -/
def Stmt.isJump : Stmt → Bool
  | .ret .. | .breakLoop _ | .continueLoop _ => true
  | _ => false

/-- A statement of a function, and whether it is in the body of a loop. -/
structure Stmt.Part where
  stmt : Stmt
  inLoop : Bool

namespace Stmt.Part

def strayBreak? : Stmt.Part → Option Span
  | ⟨.breakLoop span, false⟩ => some span
  | _ => none

def strayContinue? : Stmt.Part → Option Span
  | ⟨.continueLoop span, false⟩ => some span
  | _ => none

def valueReturn? : Stmt.Part → Option Span
  | ⟨.ret span (some _), _⟩ => some span
  | _ => none

def bareReturn? : Stmt.Part → Option Span
  | ⟨.ret span none, _⟩ => some span
  | _ => none

end Stmt.Part

mutual

/-- A statement and all statements in it. What stands ahead of the body of a loop is not in it. -/
def Stmt.parts (inLoop : Bool) : Stmt → List Stmt.Part
  | s@(.block _ statements) => ⟨s, inLoop⟩ :: Stmt.partsAll inLoop statements
  | s@(.branch _ _ onTrue none) => ⟨s, inLoop⟩ :: onTrue.parts inLoop
  | s@(.branch _ _ onTrue (some onFalse)) =>
    ⟨s, inLoop⟩ :: (onTrue.parts inLoop ++ onFalse.parts inLoop)
  | s@(.whileLoop _ _ body) | s@(.doLoop _ body _) => ⟨s, inLoop⟩ :: body.parts true
  | s@(.forLoop _ none _ _ body) => ⟨s, inLoop⟩ :: body.parts true
  | s@(.forLoop _ (some init) _ _ body) => ⟨s, inLoop⟩ :: (init.parts inLoop ++ body.parts true)
  | s@(.declare _) | s@(.ret ..) | s@(.breakLoop _) | s@(.continueLoop _) | s@(.eval _) =>
    [⟨s, inLoop⟩]

def Stmt.partsAll (inLoop : Bool) : List Stmt → List Stmt.Part
  | [] => []
  | s :: rest => s.parts inLoop ++ Stmt.partsAll inLoop rest

end

/-- The declarations of one scope, in the order of the source. -/
abbrev ScopeDecls := List (String × Binding)

namespace Stmt

def ownExprs : Stmt → List Expr
  | .declare decl => decl.init.toList
  | .branch _ condition _ _ | .whileLoop _ condition _ | .doLoop _ _ condition => [condition]
  | .forLoop _ _ condition step _ => condition.toList ++ step.toList
  | .ret _ value => value.toList
  | .eval e => [e]
  | .block .. | .breakLoop _ | .continueLoop _ => []

def exprs (s : Stmt) : List Expr := s.ownExprs.flatMap Expr.parts

def declaredType? : Stmt → Option TypeRef
  | .declare decl => some decl.type
  | _ => none

def types (s : Stmt) : List TypeRef := s.declaredType?.toList ++ s.exprs.filterMap Expr.newType?

def declared : Stmt → ScopeDecls
  | .declare decl => [(decl.name, decl.toBinding)]
  | _ => []

/-- A branch or body without braces is a scope, and one with braces has that of its block. -/
def bareScope (s : Stmt) : List ScopeDecls := if s.isBlock then [] else [s.declared]

def scopes : Stmt → List ScopeDecls
  | .block _ statements => [statements.flatMap declared]
  | .branch _ _ onTrue none => onTrue.bareScope
  | .branch _ _ onTrue (some onFalse) => onTrue.bareScope ++ onFalse.bareScope
  | .whileLoop _ _ body | .doLoop _ body _ => body.bareScope
  | .forLoop _ none _ _ body => [] :: body.bareScope
  | .forLoop _ (some init) _ _ body => init.declared :: body.bareScope
  | .declare _ | .ret .. | .breakLoop _ | .continueLoop _ | .eval _ => []

end Stmt

namespace FunctionDecl

def parts (decl : FunctionDecl) : List Stmt.Part := Stmt.partsAll false decl.body.statements

def exprs (decl : FunctionDecl) : List Expr := decl.parts.flatMap (·.stmt.exprs)

def types (decl : FunctionDecl) : List TypeRef :=
  decl.returnType :: decl.params.map (·.type) ++ decl.parts.flatMap (·.stmt.types)

/-- The parameters and the variables that stand directly in the body share a scope. -/
def scopes (decl : FunctionDecl) : List ScopeDecls :=
  (decl.params.map (fun p => (p.name, { span := p.span })) ++
      decl.body.statements.flatMap Stmt.declared) ::
    decl.parts.flatMap (·.stmt.scopes)

end FunctionDecl

namespace Member

def types : Member → List TypeRef
  | .field decl => decl.types
  | .method decl => decl.types

def scopes : Member → List ScopeDecls
  | .field _ => []
  | .method decl => decl.scopes

def functions : Member → List FunctionDecl
  | .field _ => []
  | .method decl => [decl]

end Member

namespace Declaration

def types : Declaration → List TypeRef
  | .ofClass decl => decl.members.flatMap Member.types
  | .ofFunction decl => decl.types
  | .ofVariable decl => decl.types

def scopes : Declaration → List ScopeDecls
  | .ofClass decl =>
    decl.members.map (fun m => (m.name, m.toBinding)) :: decl.members.flatMap Member.scopes
  | .ofFunction decl => decl.scopes
  | .ofVariable _ => []

def functions : Declaration → List FunctionDecl
  | .ofClass decl => decl.members.flatMap Member.functions
  | .ofFunction decl => [decl]
  | .ofVariable _ => []

/-- The expressions of an item that are not in a class. -/
def freeExprs : Declaration → List Expr
  | .ofClass _ => []
  | .ofFunction decl => decl.exprs
  | .ofVariable decl => decl.exprs

def derivation? : Declaration → Option (ClassDecl × BaseName)
  | .ofClass decl => decl.base.map (decl, ·)
  | .ofFunction _ | .ofVariable _ => none

end Declaration

namespace Tree

/-- The scopes of a file: its own, with the imports ahead of the items, and those in its items. -/
def scopes (tree : Tree) : List ScopeDecls :=
  Scope.fileNames tree :: tree.items.flatMap Declaration.scopes

def types (tree : Tree) : List TypeRef := tree.items.flatMap Declaration.types

def KnowsType (tree : Tree) (name : String) : Prop :=
  (∃ decl ∈ tree.classes, decl.name = name) ∨ ∃ i ∈ tree.imports, i.binding = name

instance (tree : Tree) : DecidablePred tree.KnowsType := fun _ =>
  inferInstanceAs (Decidable (_ ∨ _))

def allFunctions (tree : Tree) : List FunctionDecl := tree.items.flatMap Declaration.functions

def freeExprs (tree : Tree) : List Expr := tree.items.flatMap Declaration.freeExprs

def derivations (tree : Tree) : List (ClassDecl × BaseName) :=
  tree.items.filterMap Declaration.derivation?

theorem mem_derivations_iff {tree : Tree} {decl : ClassDecl} {base : BaseName} :
    (decl, base) ∈ tree.derivations ↔ decl ∈ tree.classes ∧ decl.base = some base := by
  rw [derivations, List.mem_filterMap, mem_classes_iff]
  constructor
  · rintro ⟨item, member, derived⟩
    cases item with
    | ofClass =>
      obtain ⟨_, based, same⟩ := Option.map_eq_some_iff.mp derived
      cases same
      exact ⟨member, based⟩
    | ofFunction | ofVariable => cases derived
  · rintro ⟨member, based⟩
    exact ⟨_, member, Option.map_eq_some_iff.mpr ⟨base, based, rfl⟩⟩

end Tree

end CherryLang
