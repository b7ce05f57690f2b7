import CherryLang.Proofs.Scope.Faults
import CherryLang.Proofs.Scope.Frame

/-! What the check reports, beside what is wrong with names, is what is wrong with each part of the
tree, taken by itself with its surroundings. -/
namespace CherryLang.Scope

@[simp] theorem Walk.enclosing_push (w : Walk) (names : Names) :
    (w.push names).enclosing = w.enclosing := rfl

@[simp] theorem Walk.returnsVoid_push (w : Walk) (names : Names) :
    (w.push names).returnsVoid = w.returnsVoid := rfl

@[simp] theorem Walk.loopDepth_push (w : Walk) (names : Names) :
    (w.push names).loopDepth = w.loopDepth := rfl

def reports (run : Walk → Walk) (w : Walk) : List Error :=
  (run w.silent).errors.toList.filter (!·.isOfName)

theorem reports_silent (run : Walk → Walk) (w : Walk) : reports run w.silent = reports run w := rfl

theorem reports_congr {w w' : Walk} (same : w.silent = w'.silent) (run : Walk → Walk) :
    reports run w = reports run w' := by
  rw [← reports_silent, same, reports_silent]

section

variable {run again : Walk → Walk}

theorem reports_then (first : Framed run) (second : Framed again) (w : Walk) :
    reports (fun w => again (run w)) w = reports run w ++ reports again (run w) := by
  have same : (run w.silent).silent = (run w).silent := by
    rw [first.silent, first.silent, Walk.silent_silent]
  have split := second.eq (run w.silent)
  simp only [reports, split, same, Array.toList_append, List.filter_append]

theorem OnlyReports.silent (reports : OnlyReports run) (w : Walk) : (run w).silent = w.silent := by
  rw [reports w]
  rfl

theorem reports_comp (first : OnlyReports run) (second : Framed again) (w : Walk) :
    reports (fun w => again (run w)) w = reports run w ++ reports again w := by
  rw [reports_then first.framed second, reports_congr (first.silent w)]

theorem reports_reportIf {kind : ErrorKind} {span : Span} (broken : Walk → Bool) (w : Walk) :
    reports (fun w => w.reportIf (broken w) kind span) w =
      if broken w.silent && !Error.isOfName ⟨kind, span⟩ then [⟨kind, span⟩] else [] := by
  unfold reports
  rw [errors_reportIf]
  cases broken w.silent <;> cases named : Error.isOfName ⟨kind, span⟩ <;>
    simp [Walk.silent, named]

end

section

variable (g : Globals)

theorem reports_checkType (type : TypeRef) (w : Walk) :
    reports (checkType g type) w = typeFaults g type := by
  obtain ⟨name, arrayDepth, span⟩ := type
  cases name with
  | primitive | inferred => rfl
  | named name =>
    have decided := @reports_reportIf (.unknownType name) span (fun _ => !g.knowsType name) w
    apply decided.trans
    simp only [typeFaults]
    cases g.knowsType name <;> rfl

theorem reports_checkMutation (target : Expr) (w : Walk) :
    reports (checkMutation g target) w = [] := by
  unfold checkMutation
  split
  · rw [reports_reportIf]
    simp [Error.isOfName]
  · rfl

theorem reports_mutated (e : Expr) (w : Walk) :
    reports (fun w => checkExpr g e (checkMutation g e w)) w = reports (checkExpr g e) w := by
  rw [reports_comp (onlyReports_checkMutation g e) (onlyReports_checkExpr g e).framed,
    reports_checkMutation, List.nil_append]

mutual

theorem reports_checkExpr (w : Walk) : ∀ e : Expr,
    reports (checkExpr g e) w = e.parts.flatMap (exprFaults g w.enclosing)
  | .literal .. | .null _ => rfl
  | .name span text => by
    apply (reports_reportIf (fun w => (w.resolve g text).isNone) w).trans
    simp [Error.isOfName, Expr.parts, exprFaults, Expr.newType?, selfFaults, Expr.self?]
  | .self span => by
    apply (reports_reportIf (·.enclosing.isNone) w).trans
    cases around : w.enclosing <;>
      simp [Error.isOfName, Expr.parts, exprFaults, Expr.newType?, selfFaults, Expr.self?,
        Option.filter, Walk.silent, around]
  | .unary span op operand => by
    have inner := reports_checkExpr w operand
    have both : reports (checkExpr g (.unary span op operand)) w =
        reports (checkExpr g operand) w := by
      cases mutates : op.mutates with
      | true => simpa [reports, checkExpr, mutates] using reports_mutated g operand w
      | false => simp [reports, checkExpr, mutates]
    rw [both, inner]
    rfl
  | .step _ _ operand => (reports_mutated g operand w).trans (reports_checkExpr w operand)
  | .binary _ _ lhs rhs => by
    apply (reports_comp (onlyReports_checkExpr g lhs) (onlyReports_checkExpr g rhs).framed w).trans
    rw [reports_checkExpr w lhs, reports_checkExpr w rhs, ← List.flatMap_append]
    rfl
  | .assign _ _ target value => by
    apply (reports_comp ((onlyReports_checkMutation g target).comp (onlyReports_checkExpr g target))
      (onlyReports_checkExpr g value).framed w).trans
    rw [reports_mutated, reports_checkExpr w target, reports_checkExpr w value,
      ← List.flatMap_append]
    rfl
  | .call _ callee args => by
    apply (reports_comp (onlyReports_checkExpr g callee)
      (onlyReports_checkExprs g args).framed w).trans
    rw [reports_checkExpr w callee, reports_checkExprs w args, ← List.flatMap_append]
    rfl
  | .math _ _ args => reports_checkExprs w args
  | .member _ object _ => reports_checkExpr w object
  | .index _ object key => by
    apply (reports_comp (onlyReports_checkExpr g object)
      (onlyReports_checkExpr g key).framed w).trans
    rw [reports_checkExpr w object, reports_checkExpr w key, ← List.flatMap_append]
    rfl
  | .new _ type args => by
    apply (reports_comp (onlyReports_checkType g type)
      (onlyReports_checkExprs g args).framed w).trans
    rw [reports_checkType, reports_checkExprs w args]
    simp [Expr.parts, exprFaults, Expr.newType?, selfFaults, Expr.self?]

theorem reports_checkExprs (w : Walk) : ∀ es : List Expr,
    reports (checkExprs g es) w = (Expr.partsAll es).flatMap (exprFaults g w.enclosing)
  | [] => rfl
  | e :: rest => by
    apply (reports_comp (onlyReports_checkExpr g e) (onlyReports_checkExprs g rest).framed w).trans
    rw [reports_checkExpr w e, reports_checkExprs w rest, ← List.flatMap_append]
    rfl

end

theorem reports_checkExpr? (e? : Option Expr) (w : Walk) :
    reports (checkExpr? g e?) w =
      (e?.toList.flatMap Expr.parts).flatMap (exprFaults g w.enclosing) := by
  cases e? with
  | none => rfl
  | some e =>
    rw [Option.toList_some, List.flatMap_singleton]
    exact reports_checkExpr g w e

theorem reports_checkVariable (decl : VariableDecl) (w : Walk) :
    reports (checkVariable g decl) w = variableFaults g w.enclosing decl := by
  apply (reports_comp (onlyReports_checkType g decl.type)
    (onlyReports_checkExpr? g decl.init).framed w).trans
  rw [reports_checkType, reports_checkExpr?]
  rfl

end

theorem reports_declareLocal (name : String) (binding : Binding) (names : Names) (w : Walk) :
    reports (·.declareLocal name binding) (w.push names) = clashes names [(name, binding)] := by
  have new : reports (·.declareLocal name binding) (w.push names) =
      (clashes names [(name, binding)]).filter (!·.isOfName) := by
    rw [clashes_singleton]
    simp [reports, Walk.declareLocal, Walk.push, Walk.silent]
  rw [new, filter_clashes]

section

variable (g : Globals)

theorem silent_checkStmt (s : Stmt) (names : Names) (w : Walk) :
    (checkStmt g s (w.push names)).silent = (w.push (entered names s.declared)).silent := by
  by_cases declares : ∃ decl, s = .declare decl
  · obtain ⟨decl, rfl⟩ := declares
    have checked := onlyReports_checkVariable g decl (w.push names)
    simp only [checkStmt, checked]
    rfl
  · have others := onlyReports_checkStmt g s fun decl same => declares ⟨decl, same⟩
    have none : s.declared = [] := by
      cases s with
      | declare decl => exact absurd ⟨decl, rfl⟩ declares
      | _ => rfl
    rw [others.silent, none]
    rfl

def stmtFaults (w : Walk) (s : Stmt) : List Error :=
  (s.parts (w.loopDepth != 0)).flatMap (partFaults g w.enclosing w.returnsVoid)

def stmtsFaults (w : Walk) (statements : List Stmt) : List Error :=
  (Stmt.partsAll (w.loopDepth != 0) statements).flatMap (partFaults g w.enclosing w.returnsVoid)

/-- Beside names a statement is reported for what it declares again and for its parts. -/
def Stmt.Reported (s : Stmt) : Prop :=
  ∀ (names : Names) (w : Walk), (reports (checkStmt g s) (w.push names)).Perm
    (clashes names s.declared ++ stmtFaults g w s)

/-- What only reports, and what it reports beside names. -/
structure Finds (run : Walk → Walk) (w : Walk) (found : List Error) : Prop where
  only : OnlyReports run
  perm : (reports run w).Perm found

variable {g}

section

variable {run again : Walk → Walk} {w : Walk} {found found' : List Error}

theorem Finds.comp (first : Finds run w found) (second : Finds again w found') :
    Finds (fun w => again (run w)) w (found ++ found') := by
  refine ⟨first.only.comp second.only, ?_⟩
  rw [reports_comp first.only second.only.framed]
  exact first.perm.append second.perm

end

variable (g) in
theorem finds_checkExpr (e : Expr) (w : Walk) :
    Finds (checkExpr g e) w (e.parts.flatMap (exprFaults g w.enclosing)) :=
  ⟨onlyReports_checkExpr g e, .of_eq (reports_checkExpr g w e)⟩

variable (g) in
theorem finds_checkExpr? (e? : Option Expr) (w : Walk) :
    Finds (checkExpr? g e?) w ((e?.toList.flatMap Expr.parts).flatMap (exprFaults g w.enclosing)) :=
  ⟨onlyReports_checkExpr? g e?, .of_eq (reports_checkExpr? g e? w)⟩

theorem Stmt.Reported.inScope {s : Stmt} (inner : Stmt.Reported g s) (names : Names) (w : Walk) :
    Finds (Scope.inScope s.isBlock (checkStmt g s)) (w.push names)
      (s.bareScope.flatMap (clashes []) ++ stmtFaults g w s) := by
  refine ⟨(onlyReports_checkStmt g s).inScope, ?_⟩
  unfold Stmt.bareScope
  cases braced : s.isBlock with
  | true =>
    cases s with
    | block span statements => exact inner names w
    | _ => cases braced
  | false =>
    have apart := inner [] (w.push names)
    rw [← List.flatMap_singleton (clashes []) s.declared] at apart
    exact apart

theorem Stmt.Reported.inLoop {s : Stmt} (inner : Stmt.Reported g s) (names : Names) (w : Walk) :
    Finds (Scope.inLoop (Scope.inScope s.isBlock (checkStmt g s))) (w.push names)
      (s.bareScope.flatMap (clashes []) ++
        (s.parts true).flatMap (partFaults g w.enclosing w.returnsVoid)) :=
  ⟨(onlyReports_checkStmt g s).inScope.inLoop,
    (inner.inScope names { w with loopDepth := w.loopDepth + 1 }).perm⟩

theorem Stmt.Reported.behindInit {body : Stmt} (inner : Stmt.Reported g body)
    (condition step : Option Expr) (names : Names) (w : Walk) :
    Finds (fun w => Scope.inLoop (Scope.inScope body.isBlock (checkStmt g body))
        (checkExpr? g step (checkExpr? g condition w))) (w.push names)
      (((condition.toList ++ step.toList).flatMap Expr.parts).flatMap (exprFaults g w.enclosing) ++
        (body.bareScope.flatMap (clashes []) ++
          (body.parts true).flatMap (partFaults g w.enclosing w.returnsVoid))) := by
  have header := (finds_checkExpr? g condition (w.push names)).comp
    (finds_checkExpr? g step (w.push names))
  rw [List.flatMap_append, List.flatMap_append]
  exact header.comp (inner.inLoop names w)

theorem finds_checkReturn (span : Span) (value : Option Expr) (w : Walk) :
    Finds (checkReturn span value) w
      (jumpFaults w.returnsVoid ⟨.ret span value, w.loopDepth != 0⟩) := by
  refine ⟨onlyReports_checkReturn span value, .of_eq ?_⟩
  obtain ⟨scopes, enclosing, returnsVoid, loopDepth, errors⟩ := w
  cases value <;> cases returnsVoid <;> rfl

theorem perm_append_crosswise (a b c d : List Error) :
    (a ++ b ++ (c ++ d)).Perm (a ++ c ++ (b ++ d)) := by
  rw [List.append_assoc, List.append_assoc]
  exact (List.perm_append_comm_assoc b c d).append_left a

variable (g)

mutual

theorem reported_checkStmt : ∀ s : Stmt, Stmt.Reported g s
  | .block span statements, names, w => by
    apply (reported_checkStmts statements [] (w.push names)).trans
    simp [stmtFaults, stmtsFaults, Stmt.parts, Stmt.declared]
  | .declare decl, names, w => by
    have checked : reports (checkStmt g (.declare decl)) (w.push names) =
        variableFaults g w.enclosing decl ++ clashes names [(decl.name, decl.toBinding)] := by
      rw [← reports_declareLocal _ _ _ w]
      exact (reports_comp (onlyReports_checkVariable g decl) (framed_declareLocal _ _) _).trans
        (congrArg (· ++ _) (reports_checkVariable g decl (w.push names)))
    rw [checked]
    apply List.perm_append_comm.trans
    simp [stmtFaults, Stmt.parts, Stmt.declared]
  | .branch _ condition onTrue none, names, w => by
    apply ((finds_checkExpr g condition (w.push names)).comp
      ((reported_checkStmt onTrue).inScope names w)).perm.trans
    simp [stmtFaults, Stmt.parts, Stmt.declared]
  | .branch _ condition onTrue (some onFalse), names, w => by
    have branches := ((reported_checkStmt onTrue).inScope names w).comp
      ((reported_checkStmt onFalse).inScope names w)
    apply ((finds_checkExpr g condition (w.push names)).comp branches).perm.trans
    apply ((perm_append_crosswise ..).append_left _).trans
    simp [stmtFaults, Stmt.parts, Stmt.declared]
  | .whileLoop _ condition body, names, w | .doLoop _ body condition, names, w => by
    apply ((finds_checkExpr g condition (w.push names)).comp
      ((reported_checkStmt body).inLoop names w)).perm.trans
    simp [stmtFaults, Stmt.parts, Stmt.declared]
  | .forLoop _ none condition step body, names, w => by
    apply ((reported_checkStmt body).behindInit condition step [] (w.push names)).perm.trans
    simp [stmtFaults, Stmt.parts, Stmt.declared]
  | .forLoop span (some init) condition step body, names, w => by
    -- Everything behind the initializer is met with what it declares in the scope of the header.
    have first := reported_checkStmt init [] (w.push names)
    have later := (reported_checkStmt body).behindInit condition step (entered [] init.declared)
      (w.push names)
    have both := reports_then (onlyReports_checkStmt g init).framed later.only.framed
      ((w.push names).push [])
    rw [reports_congr (silent_checkStmt g init [] (w.push names))] at both
    apply (List.Perm.of_eq both).trans
    apply (first.append later.perm).trans
    apply (List.perm_append_comm_assoc ..).trans
    apply ((perm_append_crosswise ..).append_left _).trans
    have none : (Stmt.forLoop span (some init) condition step body).declared = [] := rfl
    simp [stmtFaults, Stmt.parts, none]
  | .ret span value, names, w => by
    apply ((finds_checkReturn span value (w.push names)).comp
      (finds_checkExpr? g value (w.push names))).perm.trans
    simp [stmtFaults, Stmt.parts, Stmt.declared]
  | .breakLoop span, names, w => by
    apply (List.Perm.of_eq (reports_reportIf (·.loopDepth == 0) (w.push names))).trans
    cases around : w.loopDepth <;>
      simp [stmtFaults, Stmt.parts, Stmt.declared, Error.isOfName, Walk.silent, around]
  | .continueLoop span, names, w => by
    apply (List.Perm.of_eq (reports_reportIf (·.loopDepth == 0) (w.push names))).trans
    cases around : w.loopDepth <;>
      simp [stmtFaults, Stmt.parts, Stmt.declared, Error.isOfName, Walk.silent, around]
  | .eval e, names, w => by
    apply (finds_checkExpr g e (w.push names)).perm.trans
    simp [stmtFaults, Stmt.parts, Stmt.declared]

theorem reported_checkStmts : ∀ (statements : List Stmt) (names : Names) (w : Walk),
    (reports (checkStmts g statements) (w.push names)).Perm
      (clashes names (statements.flatMap Stmt.declared) ++ stmtsFaults g w statements)
  | [], _, _ => .nil
  | s :: rest, names, w => by
    have first := reported_checkStmt s names w
    have later := reported_checkStmts rest (entered names s.declared) w
    have both : reports (checkStmts g (s :: rest)) (w.push names) =
        reports (checkStmt g s) (w.push names) ++
          reports (checkStmts g rest) (w.push (entered names s.declared)) := by
      rw [← reports_congr (silent_checkStmt g s names w)]
      exact reports_then (onlyReports_checkStmt g s).framed (framed_checkStmts g rest)
        (w.push names)
    have parts : stmtsFaults g w (s :: rest) = stmtFaults g w s ++ stmtsFaults g w rest :=
      List.flatMap_append
    rw [both, List.flatMap_cons, clashes_append, parts]
    exact (first.append later).trans (perm_append_crosswise ..)

end

theorem finds_append {new : List Error} (others : new.filter (!·.isOfName) = new) (w : Walk) :
    Finds (fun w => { w with errors := w.errors ++ new }) w new := by
  refine ⟨onlyReports_append new, .of_eq ?_⟩
  simp [reports, Walk.silent, others]

theorem finds_checkType (type : TypeRef) (w : Walk) :
    Finds (checkType g type) w (typeFaults g type) :=
  ⟨onlyReports_checkType g type, .of_eq (reports_checkType g type w)⟩

theorem finds_checkParams (params : List Param) (names : Names) (w : Walk) :
    Finds (fun w => (checkParams g names params w).2) w
      (params.flatMap (fun p => typeFaults g p.type) ++ clashes names (paramNames params)) := by
  refine ⟨onlyReports_checkParams g params names, ?_⟩
  induction params generalizing names with
  | nil => exact .nil
  | cons p params ih =>
    have entry := clashes_singleton names p.name { span := p.span }
    have here := (finds_checkType g p.type w).comp
      (finds_append (entry ▸ filter_clashes names [(p.name, { span := p.span })]) w)
    have rest : Finds _ w _ := ⟨onlyReports_checkParams g params _,
      ih (declare names p.name { span := p.span }).1⟩
    apply (here.comp rest).perm.trans
    have later : clashes names (paramNames (p :: params)) =
        (declare names p.name { span := p.span }).2 ++
          clashes (declare names p.name { span := p.span }).1 (paramNames params) :=
      clashes_cons ..
    rw [List.flatMap_cons, later]
    exact perm_append_crosswise ..

theorem finds_checkVariable (decl : VariableDecl) (w : Walk) :
    Finds (checkVariable g decl) w (variableFaults g w.enclosing decl) :=
  (finds_checkType g decl.type w).comp (finds_checkExpr? g decl.init w)

theorem finds_checkFunction (decl : FunctionDecl) (w : Walk) :
    Finds (checkFunction g decl) w (functionFaults g w.enclosing decl) := by
  refine ⟨onlyReports_checkFunction g decl, ?_⟩
  have header := (finds_checkType g decl.returnType w).comp (finds_checkParams g decl.params [] w)
  have inside := reported_checkStmts g decl.body.statements (entered [] (paramNames decl.params))
    { w with returnsVoid := decl.returnType.isVoid, loopDepth := 0 }
  have body : Finds _ w _ := ⟨((framed_checkStmts g decl.body.statements).enclosed
    (entered [] (paramNames decl.params))).entering decl.returnType.isVoid 0, inside⟩
  have parts : functionFaults g w.enclosing decl =
      typeFaults g decl.returnType ++ (decl.params.flatMap (fun p => typeFaults g p.type) ++
          clashes [] (paramNames decl.params)) ++
        (clashes (entered [] (paramNames decl.params))
            (decl.body.statements.flatMap Stmt.declared) ++
          decl.parts.flatMap (partFaults g w.enclosing decl.returnType.isVoid)) := by
    simp [functionFaults, clashes_append, paramNames]
  rw [parts]
  -- What the parameters report does not change the names that they leave for the body.
  simp only [reports, checkFunction, names_checkParams _ _ _ _ #[]]
  exact (header.comp body).perm

theorem finds_checkMember (m : Member) (w : Walk) :
    Finds (checkMember g · m) w (memberFaults g w.enclosing m) := by
  cases m with
  | field decl => exact finds_checkVariable g decl w
  | method decl => exact finds_checkFunction g decl w

theorem finds_foldl {α : Type} {step : Walk → α → Walk} {w : Walk} {found : α → List Error}
    (each : ∀ a, Finds (step · a) w (found a)) (items : List α) :
    Finds (items.foldl step) w (items.flatMap found) := by
  induction items with
  | nil => exact ⟨onlyReports_id, .nil⟩
  | cons a items ih => exact (each a).comp ih

theorem finds_checkBase (decl : ClassDecl) (w : Walk) :
    Finds (checkBase g decl) w (decl.base.toList.flatMap (baseFaults g decl)) := by
  refine ⟨onlyReports_checkBase g decl, .of_eq ?_⟩
  cases based : decl.base with
  | none => simp [reports, checkBase, based, Walk.silent]
  | some base =>
    simp only [reports, checkBase, based, baseFaults, Option.toList_some, List.flatMap_singleton]
    split
    · rfl
    · rw [errors_reportIf]
      cases g.knowsType base.text <;> rfl

theorem finds_checkClass (decl : ClassDecl) (w : Walk) :
    Finds (checkClass g decl) w (itemFaults g (.ofClass decl)) := by
  refine ⟨onlyReports_checkClass g decl, ?_⟩
  have declares := finds_append
    (filter_clashes [] (decl.members.map fun m => (m.name, m.toBinding))) w
  have inside := finds_foldl (fun m => finds_checkMember g m { w with enclosing := some decl })
    decl.members
  have members : Finds _ w _ := ⟨inside.only.within (some decl), inside.perm⟩
  have whole := (((finds_checkBase g decl w).comp declares).comp members).perm
  simp only [reports, checkClass, errors_declareAll [] (checkBase g decl _).errors]
  exact whole

theorem finds_checkDeclaration (d : Declaration) :
    Finds (checkDeclaration g · d) {} (itemFaults g d) := by
  cases d with
  | ofClass decl => exact finds_checkClass g decl {}
  | ofFunction decl => exact finds_checkFunction g decl {}
  | ofVariable decl => exact finds_checkVariable g decl {}

/-- Beside names the check finds exactly what is wrong with each part of the tree. -/
theorem findings_perm (tree : Tree) :
    ((findings tree).filter (!·.isOfName)).Perm (treeFaults tree) := by
  have file : (globals tree).2.toList = clashes [] (fileNames tree) := rfl
  rw [findings_eq, List.filter_append, List.filter_flatMap, file, filter_clashes]
  apply List.Perm.append_left
  apply List.Perm.flatMap_left
  intro d _
  exact (finds_checkDeclaration (globals tree).1 d).perm

theorem against_check (tree : Tree) {rule : Rule} (declared : rule ≠ .undeclaredName)
    (assigned : rule ≠ .assignToConst) :
    (against rule (check tree)).Perm (against rule (treeFaults tree)) := by
  have others : against rule (findings tree) =
      against rule ((findings tree).filter (!·.isOfName)) := by
    unfold against
    rw [List.filter_filter]
    apply List.filter_congr
    rintro ⟨kind, span⟩ _
    cases kind with
    | undeclaredName name => simp [ErrorKind.rule, Error.isOfName, declared.symm]
    | assignToConst name => simp [ErrorKind.rule, Error.isOfName, assigned.symm]
    | _ => simp [Error.isOfName]
  have found : (against rule (check tree)).Perm (against rule (findings tree)) :=
    (check_perm_findings tree).filter _
  rw [others] at found
  exact found.trans ((findings_perm tree).filter _)

end

end CherryLang.Scope
