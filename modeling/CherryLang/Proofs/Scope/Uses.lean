import CherryLang.Syntax.Tree

/-! Lexical scoping, read off the tree. `Tree.uses` lists every name expression with the
declarations around it, and `Nearest` says which of them a name stands for. Nothing is reported or
counted here. -/
namespace CherryLang

inductive Meaning where
  | ofVariable (decl : VariableDecl)
  | ofParam (param : Param)
  | ofFunction (decl : FunctionDecl)
  | ofClass (decl : ClassDecl)
  | ofImport (i : Import)

def Meaning.isConst : Meaning → Bool
  | .ofVariable decl => decl.isConst
  | .ofParam _ | .ofFunction _ | .ofClass _ | .ofImport _ => false

theorem Meaning.isConst_iff {meaning : Meaning} :
    meaning.isConst = true ↔ ∃ decl, meaning = .ofVariable decl ∧ .const ∈ decl.modifiers := by
  cases meaning with
  | ofVariable decl =>
    refine VariableDecl.isConst_iff.trans ⟨fun const => ⟨decl, rfl, const⟩, ?_⟩
    rintro ⟨_, ⟨⟩, const⟩
    exact const
  | ofParam | ofFunction | ofClass | ofImport => simp [isConst]

def Member.meaning : Member → Meaning
  | .field decl => .ofVariable decl
  | .method decl => .ofFunction decl

def Declaration.meaning : Declaration → Meaning
  | .ofVariable decl => .ofVariable decl
  | .ofFunction decl => .ofFunction decl
  | .ofClass decl => .ofClass decl

/-- What a place in the tree can see beside the file. -/
structure Visible where
  /-- The declarations so far of the enclosing blocks, the innermost block first. Those of one block
  stand in the order of the source. -/
  blocks : List (List (String × Meaning)) := []
  enclosing : Option ClassDecl := none

namespace Visible

def opened (v : Visible) : Visible := { v with blocks := [] :: v.blocks }

def closed (v : Visible) : Visible := { v with blocks := v.blocks.tail }

def declared (v : Visible) (decl : VariableDecl) : Visible :=
  match v.blocks with
  | [] => v
  | innermost :: outer =>
    { v with blocks := (innermost ++ [(decl.name, .ofVariable decl)]) :: outer }

def after (v : Visible) : Stmt → Visible
  | .declare decl => v.declared decl
  | _ => v

/-- Inside a branch or body, which is a block of its own with braces or without. -/
def around (v : Visible) (s : Stmt) : Visible := if s.isBlock then v else v.opened

end Visible

structure Use where
  name : String
  span : Span
  /-- Whether the name itself is assigned or stepped. -/
  mutated : Bool
  visible : Visible

mutual

/-- The name expressions in `e`; `mutated` tells whether `e` is assigned or stepped. -/
def Expr.uses (v : Visible) (mutated : Bool) : Expr → List Use
  | .name span text => [⟨text, span, mutated, v⟩]
  | .literal .. | .self _ | .null _ => []
  | .unary _ op operand => operand.uses v op.mutates
  | .step _ _ operand => operand.uses v true
  | .binary _ _ lhs rhs => lhs.uses v false ++ rhs.uses v false
  | .assign _ _ target value => target.uses v true ++ value.uses v false
  | .call _ callee args => callee.uses v false ++ Expr.usesAll v args
  | .math _ _ args => Expr.usesAll v args
  | .member _ object _ => object.uses v false
  | .index _ object key => object.uses v false ++ key.uses v false
  | .new _ _ args => Expr.usesAll v args

def Expr.usesAll (v : Visible) : List Expr → List Use
  | [] => []
  | e :: rest => e.uses v false ++ Expr.usesAll v rest

end

def Expr.uses? (v : Visible) : Option Expr → List Use
  | none => []
  | some e => e.uses v false

mutual

def Stmt.uses (v : Visible) : Stmt → List Use
  | .block _ statements => Stmt.usesAll v.opened statements
  | .declare decl => Expr.uses? v decl.init
  | .branch _ condition onTrue none =>
    condition.uses v false ++ onTrue.uses (v.around onTrue)
  | .branch _ condition onTrue (some onFalse) =>
    condition.uses v false ++ onTrue.uses (v.around onTrue) ++ onFalse.uses (v.around onFalse)
  | .whileLoop _ condition body | .doLoop _ body condition =>
    condition.uses v false ++ body.uses (v.around body)
  | .forLoop _ none condition step body =>
    Expr.uses? v.opened condition ++ Expr.uses? v.opened step ++
      body.uses (v.opened.around body)
  | .forLoop _ (some init) condition step body =>
    let inside := v.opened.after init
    init.uses v.opened ++ Expr.uses? inside condition ++ Expr.uses? inside step ++
      body.uses (inside.around body)
  | .ret _ value => Expr.uses? v value
  | .breakLoop _ | .continueLoop _ => []
  | .eval e => e.uses v false

def Stmt.usesAll (v : Visible) : List Stmt → List Use
  | [] => []
  | s :: rest => s.uses v ++ Stmt.usesAll (v.after s) rest

end

/-- The parameters and the variables of the body share a block. -/
def FunctionDecl.uses (enclosing : Option ClassDecl) (decl : FunctionDecl) : List Use :=
  Stmt.usesAll ⟨[decl.params.map fun p => (p.name, .ofParam p)], enclosing⟩ decl.body.statements

def Member.uses (enclosing : ClassDecl) : Member → List Use
  | .field decl => Expr.uses? ⟨[], some enclosing⟩ decl.init
  | .method decl => decl.uses (some enclosing)

def Declaration.uses : Declaration → List Use
  | .ofClass decl => decl.members.flatMap (·.uses decl)
  | .ofFunction decl => decl.uses none
  | .ofVariable decl => Expr.uses? {} decl.init

namespace Tree

def uses (tree : Tree) : List Use := tree.items.flatMap Declaration.uses

def class? (tree : Tree) (name : String) : Option ClassDecl :=
  tree.classes.find? (·.name == name)

def meanings (tree : Tree) : List (String × Meaning) :=
  tree.imports.map (fun i => (i.binding, .ofImport i)) ++
    tree.items.map fun item => (item.name, item.meaning)

/-- The member called `name` of a class, or of the nearest of its bases that has one. A chain of
bases that loops without such a member has none. -/
inductive HasMember (tree : Tree) (name : String) : ClassDecl → Member → Prop
  | own {decl : ClassDecl} {member : Member} :
    decl.members.find? (·.name == name) = some member → HasMember tree name decl member
  | inherited {decl parent : ClassDecl} {base : BaseName} {member : Member} :
    decl.members.find? (·.name == name) = none → decl.base = some base →
      tree.class? base.text = some parent → HasMember tree name parent member →
      HasMember tree name decl member

/-- The nearest visible declaration of a name: in the enclosing blocks, the innermost first; in the
enclosing class and its bases; in the file. In one block, class or file the first one counts. -/
inductive Nearest (tree : Tree) (v : Visible) (name : String) : Meaning → Prop
  | inBlock {meaning : Meaning} :
    v.blocks.findSome? (·.lookup name) = some meaning → Nearest tree v name meaning
  | inClass {decl : ClassDecl} {member : Member} :
    v.blocks.findSome? (·.lookup name) = none → v.enclosing = some decl →
      HasMember tree name decl member → Nearest tree v name member.meaning
  | inFile {meaning : Meaning} :
    v.blocks.findSome? (·.lookup name) = none →
      (∀ decl member, v.enclosing = some decl → ¬ HasMember tree name decl member) →
      tree.meanings.lookup name = some meaning → Nearest tree v name meaning

end Tree

end CherryLang
