import CherryLang.Syntax.Tree

/-! How deep a tree is nested: the most statements and expressions of it that lie one in the other.
Each counts as one level; declarations, blocks of functions and parentheses count as none. -/
namespace CherryLang

def highest {α : Type} (height : α → Nat) (xs : List α) : Nat := xs.foldr (max ∘ height) 0

mutual

def Expr.height : Expr → Nat
  | .literal .. | .name .. | .self _ | .null _ => 1
  | .unary _ _ operand | .step _ _ operand => operand.height + 1
  | .binary _ _ lhs rhs => max lhs.height rhs.height + 1
  | .assign _ _ target value => max target.height value.height + 1
  | .call _ callee args => max callee.height (Expr.heightAll args) + 1
  | .math _ _ args | .new _ _ args => Expr.heightAll args + 1
  | .member _ object _ => object.height + 1
  | .index _ object place => max object.height place.height + 1

def Expr.heightAll : List Expr → Nat
  | [] => 0
  | e :: rest => max e.height (Expr.heightAll rest)

end

theorem Expr.height_pos (e : Expr) : 0 < e.height := by
  cases e <;> simp [Expr.height]

def Expr.heightIfAny : Option Expr → Nat
  | none => 0
  | some e => e.height

mutual

def Stmt.height : Stmt → Nat
  | .block _ statements => Stmt.heightAll statements + 1
  | .declare decl => Expr.heightIfAny decl.init + 1
  | .branch _ condition onTrue onFalse =>
    max condition.height (max onTrue.height (Stmt.heightIfAny onFalse)) + 1
  | .whileLoop _ condition body | .doLoop _ body condition => max condition.height body.height + 1
  | .forLoop _ init condition step body =>
    max (Stmt.heightIfAny init)
      (max (Expr.heightIfAny condition) (max (Expr.heightIfAny step) body.height)) + 1
  | .ret _ value => Expr.heightIfAny value + 1
  | .breakLoop _ | .continueLoop _ => 1
  | .eval e => e.height + 1

def Stmt.heightIfAny : Option Stmt → Nat
  | none => 0
  | some s => s.height

def Stmt.heightAll : List Stmt → Nat
  | [] => 0
  | s :: rest => max s.height (Stmt.heightAll rest)

end

theorem Stmt.height_pos (s : Stmt) : 0 < s.height := by
  cases s <;> simp [Stmt.height]

theorem Expr.heightAll_eq (es : List Expr) : Expr.heightAll es = highest Expr.height es := by
  induction es with
  | nil => rfl
  | cons e es ih => rw [Expr.heightAll, ih]; rfl

theorem Stmt.heightAll_eq (ss : List Stmt) : Stmt.heightAll ss = highest Stmt.height ss := by
  induction ss with
  | nil => rfl
  | cons s ss ih => rw [Stmt.heightAll, ih]; rfl

def VariableDecl.height (decl : VariableDecl) : Nat := Expr.heightIfAny decl.init

def Block.height (b : Block) : Nat := highest Stmt.height b.statements

def FunctionDecl.height (decl : FunctionDecl) : Nat := decl.body.height

def Member.height : Member → Nat
  | .field decl => decl.height
  | .method decl => decl.height

def ClassDecl.height (decl : ClassDecl) : Nat := highest Member.height decl.members

def Declaration.height : Declaration → Nat
  | .ofClass decl => decl.height
  | .ofFunction decl => decl.height
  | .ofVariable decl => decl.height

def Tree.height (tree : Tree) : Nat := highest Declaration.height tree.items

end CherryLang
