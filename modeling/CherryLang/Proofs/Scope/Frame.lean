import CherryLang.Proofs.Scope.Resolution

/-! What the check changes in a walk. It adds reports behind those that are there and never reads
them; a declaration adds its name to the innermost scope. Everything else is in the end as it was,
so that what is reported of one part of a tree does not depend on the parts before it. -/
namespace CherryLang.Scope

def Walk.silent (w : Walk) : Walk := { w with errors := #[] }

@[simp] theorem Walk.silent_silent (w : Walk) : w.silent.silent = w.silent := rfl

/-- `run` adds reports, the same whatever was reported before, and nothing else. -/
def OnlyReports (run : Walk → Walk) : Prop :=
  ∀ w, run w = { w with errors := w.errors ++ (run w.silent).errors }

/-- `run` adds reports, and beside that it may change the innermost scope. -/
structure Framed (run : Walk → Walk) : Prop where
  eq : ∀ w, run w =
    { w with scopes := (run w.silent).scopes, errors := w.errors ++ (run w.silent).errors }
  outer : ∀ w, (run w).scopes.tail = w.scopes.tail

section

variable {run again : Walk → Walk}

theorem OnlyReports.framed (reports : OnlyReports run) : Framed run := by
  have scopes : ∀ w, (run w).scopes = w.scopes := fun w => by rw [reports w]
  refine ⟨fun w => ?_, fun w => by rw [scopes]⟩
  rw [scopes]
  exact reports w

theorem Framed.silent (framed : Framed run) (w : Walk) :
    (run w).silent = { w.silent with scopes := (run w.silent).scopes } := by
  rw [framed.eq w]
  rfl

theorem Framed.comp (first : Framed run) (second : Framed again) :
    Framed fun w => again (run w) := by
  refine ⟨fun w => ?_, fun w => (second.outer (run w)).trans (first.outer w)⟩
  have same : (run w.silent).silent = (run w).silent := by
    rw [first.silent, first.silent, Walk.silent_silent]
  rw [second.eq (run w), second.eq (run w.silent), same, first.eq w]
  simp only [Array.append_assoc]

theorem OnlyReports.comp (first : OnlyReports run) (second : OnlyReports again) :
    OnlyReports fun w => again (run w) := by
  intro w
  have silent : ∀ w, (run w).silent = w.silent := fun w => by rw [first w]; rfl
  show again (run w) = { w with errors := w.errors ++ (again (run w.silent)).errors }
  rw [second (run w), second (run w.silent), silent, silent, first w]
  simp only [Array.append_assoc, Walk.silent_silent]

theorem onlyReports_id : OnlyReports fun w => w := fun w => by simp [Walk.silent]

theorem onlyReports_reportIf (broken : Walk → Bool) (blind : ∀ w, broken w.silent = broken w)
    (kind : ErrorKind) (span : Span) :
    OnlyReports fun w => w.reportIf (broken w) kind span := by
  intro w
  simp only [blind]
  cases broken w with
  | true => simp [Walk.reportIf, Walk.report, Walk.silent]
  | false => simp [Walk.reportIf, Walk.silent]

theorem onlyReports_report (kind : ErrorKind) (span : Span) :
    OnlyReports (·.report kind span) :=
  onlyReports_reportIf (fun _ => true) (fun _ => rfl) kind span

theorem Framed.enclosed (inner : Framed run) (names : Names) :
    OnlyReports fun w => (run (w.push names)).pop := by
  intro w
  have outer : (run (w.push names)).scopes.tail = w.scopes := inner.outer (w.push names)
  have split := inner.eq (w.push names)
  rw [split] at outer
  simp only [split, Walk.pop, outer]
  rfl

theorem OnlyReports.entering (inner : OnlyReports run) (returnsVoid : Bool) (loopDepth : Nat) :
    OnlyReports fun w => { run { w with returnsVoid, loopDepth } with
      returnsVoid := w.returnsVoid, loopDepth := w.loopDepth } := by
  intro w
  simp only [inner { w with returnsVoid, loopDepth }]
  rfl

theorem OnlyReports.inLoop (inner : OnlyReports run) : OnlyReports (Scope.inLoop run) := by
  intro w
  simp only [Scope.inLoop, inner { w with loopDepth := w.loopDepth + 1 }, Nat.add_sub_cancel]
  rfl

theorem OnlyReports.within (inner : OnlyReports run) (enclosing : Option ClassDecl) :
    OnlyReports fun w => { run { w with enclosing } with enclosing := w.enclosing } := by
  intro w
  simp only [inner { w with enclosing }]
  rfl

end

theorem onlyReports_foldl {α : Type} {step : Walk → α → Walk}
    (each : ∀ a, OnlyReports (step · a)) (items : List α) : OnlyReports (items.foldl step) := by
  induction items with
  | nil => exact onlyReports_id
  | cons a items ih => exact (each a).comp ih

/-- Each item is reported on as if it came first. -/
theorem errors_foldl {α : Type} {step : Walk → α → Walk} (each : ∀ a, OnlyReports (step · a))
    (items : List α) (w : Walk) :
    (items.foldl step w).errors.toList =
      w.errors.toList ++ items.flatMap fun a => (step w.silent a).errors.toList := by
  induction items generalizing w with
  | nil => simp
  | cons a items ih =>
    have here : step w a = { w with errors := w.errors ++ (step w.silent a).errors } := each a w
    have silent : (step w a).silent = w.silent := by
      rw [here]
      rfl
    rw [List.foldl_cons, ih, silent, here, Array.toList_append, List.flatMap_cons,
      List.append_assoc]

section

variable (g : Globals)

theorem onlyReports_checkType (type : TypeRef) : OnlyReports (checkType g type) := by
  unfold checkType
  split
  · exact onlyReports_reportIf (fun _ => _) (fun _ => rfl) _ _
  · exact onlyReports_id
  · exact onlyReports_id

theorem onlyReports_checkMutation (target : Expr) : OnlyReports (checkMutation g target) := by
  unfold checkMutation
  split
  · exact onlyReports_reportIf _ (fun _ => rfl) _ _
  · exact onlyReports_id

mutual

theorem onlyReports_checkExpr : ∀ e : Expr, OnlyReports (checkExpr g e)
  | .literal .. | .null _ => onlyReports_id
  | .name span text =>
    onlyReports_reportIf (fun w => (w.resolve g text).isNone) (fun _ => rfl) _ span
  | .self span => onlyReports_reportIf (·.enclosing.isNone) (fun _ => rfl) _ span
  | .unary _ op operand => by
    have inner := onlyReports_checkExpr operand
    simp only [OnlyReports, checkExpr]
    cases op.mutates with
    | true => exact (onlyReports_checkMutation g operand).comp inner
    | false => exact inner
  | .step _ _ operand => (onlyReports_checkMutation g operand).comp (onlyReports_checkExpr operand)
  | .binary _ _ lhs rhs => (onlyReports_checkExpr lhs).comp (onlyReports_checkExpr rhs)
  | .assign _ _ target value =>
    ((onlyReports_checkMutation g target).comp (onlyReports_checkExpr target)).comp
      (onlyReports_checkExpr value)
  | .call _ callee args => (onlyReports_checkExpr callee).comp (onlyReports_checkExprs args)
  | .math _ _ args => onlyReports_checkExprs args
  | .member _ object _ => onlyReports_checkExpr object
  | .index _ object key => (onlyReports_checkExpr object).comp (onlyReports_checkExpr key)
  | .new _ type args => (onlyReports_checkType g type).comp (onlyReports_checkExprs args)

theorem onlyReports_checkExprs : ∀ es : List Expr, OnlyReports (checkExprs g es)
  | [] => onlyReports_id
  | e :: rest => (onlyReports_checkExpr e).comp (onlyReports_checkExprs rest)

end

theorem onlyReports_checkExpr? (e? : Option Expr) : OnlyReports (checkExpr? g e?) := by
  cases e? with
  | none => exact onlyReports_id
  | some e => exact onlyReports_checkExpr g e

theorem onlyReports_checkVariable (decl : VariableDecl) : OnlyReports (checkVariable g decl) :=
  (onlyReports_checkType g decl.type).comp (onlyReports_checkExpr? g decl.init)

theorem framed_declareLocal (name : String) (binding : Binding) :
    Framed (·.declareLocal name binding) := by
  constructor
  · rintro ⟨scopes, enclosing, returnsVoid, loopDepth, errors⟩
    cases scopes with
    | nil => simp [Walk.declareLocal, Walk.silent]
    | cons innermost outer =>
      simp only [Walk.declareLocal, Walk.silent, Walk.mk.injEq, true_and]
      exact Array.ext' (by simp)
  · rintro ⟨scopes, enclosing, returnsVoid, loopDepth, errors⟩
    cases scopes <;> rfl

theorem onlyReports_checkReturn (span : Span) (value : Option Expr) :
    OnlyReports (checkReturn span value) := by
  intro ⟨scopes, enclosing, returnsVoid, loopDepth, errors⟩
  cases value <;> cases returnsVoid <;> simp [checkReturn, Walk.silent, Walk.report]

def Stmt.OnlyReports (s : Stmt) : Prop :=
  (∀ decl, s ≠ .declare decl) → Scope.OnlyReports (checkStmt g s)

variable {g} in
theorem Stmt.OnlyReports.framed {s : Stmt} (plain : OnlyReports g s) : Framed (checkStmt g s) := by
  cases s with
  | declare decl => exact (onlyReports_checkVariable g decl).framed.comp (framed_declareLocal _ _)
  | _ => exact (plain fun _ => Stmt.noConfusion).framed

variable {g} in
theorem Stmt.OnlyReports.inScope {s : Stmt} (plain : OnlyReports g s) :
    Scope.OnlyReports (Scope.inScope s.isBlock (checkStmt g s)) := by
  cases s with
  | block => exact plain fun _ => Stmt.noConfusion
  | _ => exact plain.framed.enclosed []

mutual

theorem onlyReports_checkStmt : ∀ s : Stmt, Stmt.OnlyReports g s
  | .block _ statements, _ => (framed_checkStmts statements).enclosed []
  | .declare decl, plain => absurd rfl (plain decl)
  | .branch _ condition onTrue none, _ =>
    (onlyReports_checkExpr g condition).comp (onlyReports_checkStmt onTrue).inScope
  | .branch _ condition onTrue (some onFalse), _ =>
    ((onlyReports_checkExpr g condition).comp (onlyReports_checkStmt onTrue).inScope).comp
      (onlyReports_checkStmt onFalse).inScope
  | .whileLoop _ condition body, _ | .doLoop _ body condition, _ =>
    (onlyReports_checkExpr g condition).comp (onlyReports_checkStmt body).inScope.inLoop
  | .forLoop _ none condition step body, _ =>
    (((onlyReports_checkExpr? g condition).comp (onlyReports_checkExpr? g step)).comp
      (onlyReports_checkStmt body).inScope.inLoop).framed.enclosed []
  | .forLoop _ (some init) condition step body, _ =>
    ((onlyReports_checkStmt init).framed.comp
      (((onlyReports_checkExpr? g condition).comp (onlyReports_checkExpr? g step)).comp
        (onlyReports_checkStmt body).inScope.inLoop).framed).enclosed []
  | .ret span value, _ =>
    (onlyReports_checkReturn span value).comp (onlyReports_checkExpr? g value)
  | .breakLoop span, _ | .continueLoop span, _ =>
    onlyReports_reportIf (·.loopDepth == 0) (fun _ => rfl) _ span
  | .eval e, _ => onlyReports_checkExpr g e

theorem framed_checkStmts : ∀ statements : List Stmt, Framed (checkStmts g statements)
  | [] => onlyReports_id.framed
  | s :: rest => (onlyReports_checkStmt s).framed.comp (framed_checkStmts rest)

end

theorem onlyReports_append (new : List Error) :
    OnlyReports fun w => { w with errors := w.errors ++ new } := by
  intro w
  simp only [Walk.silent, Walk.mk.injEq, true_and]
  exact Array.ext' (by simp)

theorem onlyReports_checkParams (params : List Param) (names : Names) :
    OnlyReports fun w => (checkParams g names params w).2 := by
  induction params generalizing names with
  | nil => exact onlyReports_id
  | cons p params ih =>
    exact (onlyReports_checkType g p.type).comp
      ((onlyReports_append (declare names p.name { span := p.span }).2).comp (ih _))

theorem onlyReports_checkFunction (decl : FunctionDecl) : OnlyReports (checkFunction g decl) := by
  have header : OnlyReports fun w =>
      (checkParams g [] decl.params (checkType g decl.returnType w)).2 :=
    (onlyReports_checkType g decl.returnType).comp (onlyReports_checkParams g decl.params [])
  have body := ((framed_checkStmts g decl.body.statements).enclosed
    (declareAll [] #[] (paramNames decl.params)).1).entering decl.returnType.isVoid 0
  intro w
  have kept := header w
  have whole := header.comp body w
  simp only [checkFunction, names_checkParams _ _ _ _ #[]]
  simp only [kept] at whole ⊢
  exact whole

theorem onlyReports_checkBase (decl : ClassDecl) : OnlyReports (checkBase g decl) := by
  unfold checkBase
  split
  · exact onlyReports_id
  · split
    · exact onlyReports_report _ _
    · exact onlyReports_reportIf (fun _ => _) (fun _ => rfl) _ _

theorem onlyReports_checkMember (m : Member) : OnlyReports (checkMember g · m) := by
  cases m with
  | field decl => exact onlyReports_checkVariable g decl
  | method decl => exact onlyReports_checkFunction g decl

theorem errors_declareAll (names : Names) (errors : Array Error) (entries : Names) :
    (declareAll names errors entries).2 = errors ++ (declareAll names #[] entries).2.toList := by
  induction entries generalizing names errors with
  | nil => simp [declareAll]
  | cons entry entries ih =>
    rw [declareAll, declareAll, ih, ih _ (#[] ++ _)]
    exact Array.ext' (by simp)

theorem onlyReports_checkClass (decl : ClassDecl) : OnlyReports (checkClass g decl) := by
  have declares := onlyReports_append
    (declareAll [] #[] (decl.members.map fun m => (m.name, m.toBinding))).2.toList
  have members := (onlyReports_foldl (onlyReports_checkMember g) decl.members).within (some decl)
  intro w
  have kept := onlyReports_checkBase g decl w
  have whole := (onlyReports_checkBase g decl).comp (declares.comp members) w
  simp only [checkClass, errors_declareAll [] (checkBase g decl _).errors]
  simp only [kept] at whole ⊢
  exact whole

theorem onlyReports_checkDeclaration (d : Declaration) : OnlyReports (checkDeclaration g · d) := by
  cases d with
  | ofClass decl => exact onlyReports_checkClass g decl
  | ofFunction decl => exact onlyReports_checkFunction g decl
  | ofVariable decl => exact onlyReports_checkVariable g decl

def itemFindings (g : Globals) (d : Declaration) : List Error :=
  (checkDeclaration g {} d).errors.toList

theorem findings_eq (tree : Tree) :
    findings tree = (globals tree).2.toList ++ tree.items.flatMap (itemFindings (globals tree).1) :=
  errors_foldl (onlyReports_checkDeclaration (globals tree).1) tree.items _

end

end CherryLang.Scope
