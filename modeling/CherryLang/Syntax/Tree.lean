import CherryLang.Syntax.Operator
import CherryLang.Token.Basic

/-! The tree of one source file. Every node carries the place of the token it starts with. -/
namespace CherryLang

/-- How a type is named: by a built-in type, by the word for an inferred one, or by a name. -/
inductive TypeName where
  | primitive (type : Primitive)
  | inferred
  | named (name : String)
  deriving DecidableEq, Repr

structure TypeRef where
  name : TypeName
  /-- Number of bracket pairs behind the name. -/
  arrayDepth : Nat
  span : Span
  deriving DecidableEq, Repr

def TypeRef.isVoid (type : TypeRef) : Bool :=
  type.name == .primitive .void && type.arrayDepth == 0

inductive Expr where
  | literal (span : Span) (form : Literal) (text : String)
  | name (span : Span) (text : String)
  | self (span : Span)
  | null (span : Span)
  | unary (span : Span) (op : UnaryOp) (operand : Expr)
  | step (span : Span) (op : StepOp) (operand : Expr)
  | binary (span : Span) (op : BinaryOp) (lhs rhs : Expr)
  | assign (span : Span) (op : AssignOp) (target value : Expr)
  | call (span : Span) (callee : Expr) (args : List Expr)
  | math (span : Span) (function : MathFunction) (args : List Expr)
  | member (span : Span) (object : Expr) (name : String)
  | index (span : Span) (object index : Expr)
  | new (span : Span) (type : TypeRef) (args : List Expr)
  deriving Repr

namespace Expr

def span : Expr → Span
  | .literal span .. | .name span .. | .self span | .null span | .unary span .. | .step span ..
  | .binary span .. | .assign span .. | .call span .. | .math span .. | .member span ..
  | .index span .. | .new span .. => span

def isAssignable : Expr → Bool
  | .name .. | .member .. | .index .. => true
  | _ => false

end Expr

structure VariableDecl where
  modifiers : List Modifier
  type : TypeRef
  name : String
  init : Option Expr
  span : Span
  deriving Repr

def VariableDecl.isConst (decl : VariableDecl) : Bool := decl.modifiers.contains .const

theorem VariableDecl.isConst_iff {decl : VariableDecl} :
    decl.isConst = true ↔ .const ∈ decl.modifiers :=
  List.contains_iff_mem

inductive Stmt where
  | block (span : Span) (statements : List Stmt)
  | declare (decl : VariableDecl)
  | branch (span : Span) (condition : Expr) (onTrue : Stmt) (onFalse : Option Stmt)
  | whileLoop (span : Span) (condition : Expr) (body : Stmt)
  | doLoop (span : Span) (body : Stmt) (condition : Expr)
  | forLoop (span : Span) (init : Option Stmt) (condition step : Option Expr) (body : Stmt)
  | ret (span : Span) (value : Option Expr)
  | breakLoop (span : Span)
  | continueLoop (span : Span)
  | eval (expr : Expr)
  deriving Repr

def Stmt.isBlock : Stmt → Bool
  | .block .. => true
  | _ => false

structure Block where
  statements : List Stmt
  span : Span
  deriving Repr

structure Param where
  type : TypeRef
  name : String
  span : Span
  deriving DecidableEq, Repr

structure FunctionDecl where
  modifiers : List Modifier
  returnType : TypeRef
  name : String
  params : List Param
  body : Block
  span : Span
  deriving Repr

inductive Member where
  | field (decl : VariableDecl)
  | method (decl : FunctionDecl)
  deriving Repr

namespace Member

def name : Member → String
  | .field decl => decl.name
  | .method decl => decl.name

def span : Member → Span
  | .field decl => decl.span
  | .method decl => decl.span

end Member

inductive ClassWord where
  | classWord | structWord
  deriving DecidableEq, Repr

def ClassWord.keyword : ClassWord → Keyword
  | .classWord => .kwClass
  | .structWord => .kwStruct

structure BaseName where
  text : String
  span : Span
  deriving DecidableEq, Repr

structure ClassDecl where
  modifiers : List Modifier
  word : ClassWord
  name : String
  base : Option BaseName
  members : List Member
  span : Span
  deriving Repr

inductive Declaration where
  | ofClass (decl : ClassDecl)
  | ofFunction (decl : FunctionDecl)
  | ofVariable (decl : VariableDecl)
  deriving Repr

namespace Declaration

def name : Declaration → String
  | .ofClass decl => decl.name
  | .ofFunction decl => decl.name
  | .ofVariable decl => decl.name

def span : Declaration → Span
  | .ofClass decl => decl.span
  | .ofFunction decl => decl.span
  | .ofVariable decl => decl.span

end Declaration

structure Import where
  path : List String
  span : Span
  deriving DecidableEq, Repr

/-- The name that an import declares: the last of its path. -/
def Import.binding (i : Import) : String := i.path.getLast?.getD ""

structure Tree where
  file : FileId
  imports : List Import
  items : List Declaration
  deriving Repr

namespace Tree

def functions (tree : Tree) : List FunctionDecl :=
  tree.items.filterMap fun
    | .ofFunction decl => some decl
    | _ => none

def classes (tree : Tree) : List ClassDecl :=
  tree.items.filterMap fun
    | .ofClass decl => some decl
    | _ => none

theorem mem_classes_iff {tree : Tree} {decl : ClassDecl} :
    decl ∈ tree.classes ↔ .ofClass decl ∈ tree.items := by
  rw [classes, List.mem_filterMap]
  constructor
  · rintro ⟨item, member, same⟩
    cases item with
    | ofClass => exact Option.some.inj same ▸ member
    | ofFunction | ofVariable => cases same
  · exact fun member => ⟨_, member, rfl⟩

def globals (tree : Tree) : List VariableDecl :=
  tree.items.filterMap fun
    | .ofVariable decl => some decl
    | _ => none

end Tree

end CherryLang
