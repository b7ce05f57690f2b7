import CherryLang.Proofs.Scope.Frame

namespace CherryLang.Scope

/-- Around the walk all is as it was, and no report is gone. -/
structure Walk.Retains (w w' : Walk) : Prop where
  enclosing : w'.enclosing = w.enclosing
  returnsVoid : w'.returnsVoid = w.returnsVoid
  loopDepth : w'.loopDepth = w.loopDepth
  reports : w.errors.toList <+: w'.errors.toList

structure Walk.OnlyGains (w w' : Walk) : Prop extends w.Retains w' where
  scopes : w'.scopes = w.scopes

/-- The scopes in front of a statement and behind it. A name is added where the innermost scope does
not have it, and in no other way. -/
inductive ScopesBehind : Stmt → List Names → List Names → Prop
  | plain {s : Stmt} {scopes : List Names} (other : ∀ decl, s ≠ .declare decl) :
      ScopesBehind s scopes scopes
  | nowhere {decl : VariableDecl} : ScopesBehind (.declare decl) [] []
  | again {decl : VariableDecl} {innermost : Names} {outer : List Names}
      (known : (innermost.lookup decl.name).isSome) :
      ScopesBehind (.declare decl) (innermost :: outer) (innermost :: outer)
  | added {decl : VariableDecl} {innermost : Names} {outer : List Names}
      (fresh : innermost.lookup decl.name = none) :
      ScopesBehind (.declare decl) (innermost :: outer)
        (((decl.name, decl.toBinding) :: innermost) :: outer)

theorem ScopesBehind.length_eq {s : Stmt} {scopes scopes' : List Names}
    (behind : ScopesBehind s scopes scopes') : scopes'.length = scopes.length := by
  cases behind <;> rfl

/-- What a scope binds it still binds, to the same declaration. -/
def StillBound (scopes scopes' : List Names) : Prop :=
  ∀ (i : Nat) (name : String) (binding : Binding),
    scopes[i]?.bind (·.lookup name) = some binding →
      scopes'[i]?.bind (·.lookup name) = some binding

theorem ScopesBehind.stillBound {s : Stmt} {scopes scopes' : List Names}
    (behind : ScopesBehind s scopes scopes') : StillBound scopes scopes' := by
  intro i name binding bound
  cases behind with
  | plain | nowhere | again => exact bound
  | @added decl innermost outer fresh =>
    cases i with
    | succ i => exact bound
    | zero =>
      have here : innermost.lookup name = some binding := bound
      have other : name ≠ decl.name := by
        rintro rfl
        rw [fresh] at here
        cases here
      simpa [List.lookup_cons, beq_eq_false_iff_ne.mpr other] using here

theorem OnlyReports.onlyGains {run : Walk → Walk} (reports : OnlyReports run) (w : Walk) :
    w.OnlyGains (run w) := by
  rw [reports w]
  exact ⟨⟨rfl, rfl, rfl, by simp⟩, rfl⟩

theorem Framed.retains {run : Walk → Walk} (framed : Framed run) (w : Walk) :
    w.Retains (run w) := by
  rw [framed.eq w]
  exact ⟨rfl, rfl, rfl, by simp⟩

theorem scopesBehind_declareLocal (w : Walk) (decl : VariableDecl) :
    ScopesBehind (.declare decl) w.scopes (w.declareLocal decl.name decl.toBinding).scopes := by
  unfold Walk.declareLocal
  split
  · next none =>
    rw [none]
    exact .nowhere
  · next innermost outer some =>
    rw [some]
    simp only [declare]
    split
    · next found => exact .again (by rw [found]; rfl)
    · next fresh => exact .added fresh

theorem scopesBehind_checkStmt (g : Globals) (s : Stmt) (w : Walk) :
    ScopesBehind s w.scopes (checkStmt g s w).scopes := by
  have plain := onlyReports_checkStmt g s
  cases s with
  | declare decl =>
    rw [checkStmt, ← ((onlyReports_checkVariable g decl).onlyGains w).scopes]
    exact scopesBehind_declareLocal _ decl
  | _ =>
    rw [((plain fun _ => Stmt.noConfusion).onlyGains w).scopes]
    exact .plain fun _ => Stmt.noConfusion

/-- From any walk, the check of an expression, a variable, a function, a class or a block leaves all
as it was and adds reports behind those that are there. The same holds of a statement, except that a
declaration adds its name to the innermost scope unless that has it already; no scope is opened or
closed for good, and no binding is lost. A branch and the body of a loop leave nothing behind, and
where a loop is left, the level is there that was entered for it. -/
theorem check_effect (g : Globals) (w : Walk) :
    (∀ e : Expr, w.OnlyGains (checkExpr g e w)) ∧
      (∀ decl : VariableDecl, w.OnlyGains (checkVariable g decl w)) ∧
      (∀ decl : FunctionDecl, w.OnlyGains (checkFunction g decl w)) ∧
      (∀ decl : ClassDecl, w.OnlyGains (checkClass g decl w)) ∧
      (∀ (span : Span) (statements : List Stmt),
        w.OnlyGains (checkStmt g (.block span statements) w)) ∧
      (∀ s : Stmt, w.Retains (checkStmt g s w) ∧
        (checkStmt g s w).scopes.length = w.scopes.length ∧
        StillBound w.scopes (checkStmt g s w).scopes ∧
        ScopesBehind s w.scopes (checkStmt g s w).scopes) ∧
      ∀ body : Stmt, let nested := inScope body.isBlock (checkStmt g body)
        w.OnlyGains (nested w) ∧ w.OnlyGains (inLoop nested w) ∧
          (nested { w with loopDepth := w.loopDepth + 1 }).loopDepth = w.loopDepth + 1 := by
  refine ⟨fun e => (onlyReports_checkExpr g e).onlyGains w,
    fun decl => (onlyReports_checkVariable g decl).onlyGains w,
    fun decl => (onlyReports_checkFunction g decl).onlyGains w,
    fun decl => (onlyReports_checkClass g decl).onlyGains w, ?_, ?_, ?_⟩
  · intro span statements
    exact (onlyReports_checkStmt g _ fun _ => Stmt.noConfusion).onlyGains w
  · intro s
    have behind := scopesBehind_checkStmt g s w
    exact ⟨(onlyReports_checkStmt g s).framed.retains w, behind.length_eq, behind.stillBound,
      behind⟩
  · intro body
    have nested := (onlyReports_checkStmt g body).inScope
    exact ⟨nested.onlyGains w, nested.inLoop.onlyGains w, (nested.onlyGains _).loopDepth⟩

end CherryLang.Scope
