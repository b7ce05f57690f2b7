import CherryLang.Scope.Check
import CherryLang.Proofs.Syntax.Respan

/-! Moving the places of a tree moves the places of its errors and nothing else: the check carries
places along and never compares them, except in the sort at its end. -/
namespace CherryLang

variable (f : Span → Span)

def Binding.respan (binding : Binding) : Binding := { binding with span := f binding.span }

@[simp] theorem Member.name_respan (m : Member) : (m.respan f).name = m.name := by
  cases m <;> rfl

@[simp] theorem Member.toBinding_respan (m : Member) :
    (m.respan f).toBinding = m.toBinding.respan f := by
  cases m <;> rfl

@[simp] theorem Declaration.name_respan (d : Declaration) : (d.respan f).name = d.name := by
  cases d <;> rfl

@[simp] theorem Declaration.toBinding_respan (d : Declaration) :
    (d.respan f).toBinding = d.toBinding.respan f := by
  cases d <;> rfl

@[simp] theorem Stmt.isBlock_respan (s : Stmt) : (s.respan f).isBlock = s.isBlock := by
  cases s with
  | branch span condition onTrue onFalse => cases onFalse <;> rfl
  | forLoop span init condition step body => cases init <;> rfl
  | _ => rfl

theorem Tree.classes_respan (tree : Tree) :
    (tree.respan f).classes = tree.classes.map (·.respan f) := by
  simp only [Tree.classes, Tree.respan, List.filterMap_map, List.map_filterMap]
  congr 1
  funext item
  cases item <;> rfl

namespace Scope

def ErrorKind.respan : ErrorKind → ErrorKind
  | .duplicateDeclaration name previous => .duplicateDeclaration name (f previous)
  | kind => kind

def Error.respan (e : Error) : Error := ⟨e.kind.respan f, f e.span⟩

def Names.respan (names : Names) : Names :=
  names.map fun (name, binding) => (name, binding.respan f)

def Globals.respan (g : Globals) : Globals where
  names := Names.respan f g.names
  classes := g.classes.map (·.respan f)
  imports := g.imports

def Walk.respan (w : Walk) : Walk where
  scopes := w.scopes.map (Names.respan f)
  enclosing := w.enclosing.map (·.respan f)
  returnsVoid := w.returnsVoid
  loopDepth := w.loopDepth
  errors := w.errors.map (Error.respan f)

theorem map_respan_append (errors : Array Error) (new : List Error) :
    (errors ++ new).map (Error.respan f) =
      errors.map (Error.respan f) ++ new.map (Error.respan f) :=
  Array.ext' (by simp)

theorem Names.lookup_respan (names : Names) (name : String) :
    (Names.respan f names).lookup name = (names.lookup name).map (·.respan f) := by
  induction names with
  | nil => rfl
  | cons entry names ih =>
    obtain ⟨text, binding⟩ := entry
    simp only [Names.respan, List.map_cons, List.lookup_cons] at ih ⊢
    cases name == text with
    | true => rfl
    | false => exact ih

theorem declare_respan (names : Names) (name : String) (binding : Binding) :
    declare (names.respan f) name (binding.respan f) =
      ((declare names name binding).1.respan f,
        (declare names name binding).2.map (Error.respan f)) := by
  unfold declare
  rw [Names.lookup_respan]
  cases names.lookup name with
  | none => rfl
  | some previous => rfl

theorem declareAll_respan (names : Names) (errors : Array Error) (new : Names) :
    declareAll (names.respan f) (errors.map (Error.respan f)) (new.respan f) =
      ((declareAll names errors new).1.respan f,
        (declareAll names errors new).2.map (Error.respan f)) := by
  induction new generalizing names errors with
  | nil => rfl
  | cons entry new ih =>
    obtain ⟨name, binding⟩ := entry
    have entry : Names.respan f ((name, binding) :: new) =
        (name, binding.respan f) :: Names.respan f new := rfl
    simp only [entry, declareAll, declare_respan, ← ih, map_respan_append]

namespace Globals

theorem class?_respan (g : Globals) (name : String) :
    (g.respan f).class? name = (g.class? name).map (·.respan f) := by
  simp only [Globals.respan, class?, List.find?_map]
  rfl

theorem knowsType_respan (g : Globals) (name : String) :
    (g.respan f).knowsType name = g.knowsType name := by
  simp only [knowsType, class?_respan, Option.isSome_map]
  rfl

theorem reaches_respan (g : Globals) (target : String) (steps : Nat) (name : String) :
    (g.respan f).reaches target steps name = g.reaches target steps name := by
  induction steps generalizing name with
  | zero => rfl
  | succ steps ih =>
    simp only [reaches, class?_respan]
    cases g.class? name with
    | none => rfl
    | some decl =>
      cases base : decl.base with
      | none => simp [ClassDecl.respan, base]
      | some base' => simp [ClassDecl.respan, BaseName.respan, base, ih]

theorem inherits_respan (g : Globals) (name target : String) :
    (g.respan f).inherits name target = g.inherits name target := by
  have length : (g.respan f).classes.length = g.classes.length := List.length_map _
  rw [inherits, length, reaches_respan, inherits]

theorem memberIn?_respan (g : Globals) (name : String) (steps : Nat) (decl : ClassDecl) :
    (g.respan f).memberIn? name steps (decl.respan f) =
      (g.memberIn? name steps decl).map (·.respan f) := by
  induction steps generalizing decl with
  | zero => rfl
  | succ steps ih =>
    have member : (decl.respan f).members.find? (·.name == name) =
        (decl.members.find? (·.name == name)).map (·.respan f) := by
      simp only [ClassDecl.respan, List.find?_map]
      congr 2
      funext m
      simp
    have base : (decl.respan f).base.bind ((g.respan f).class? ·.text) =
        (decl.base.bind (g.class? ·.text)).map (·.respan f) := by
      cases base : decl.base with
      | none => simp [ClassDecl.respan, base]
      | some base' => simp [ClassDecl.respan, BaseName.respan, base, class?_respan]
    simp only [memberIn?, member, base]
    cases decl.members.find? (·.name == name) with
    | some found => simp
    | none =>
      cases decl.base.bind (g.class? ·.text) with
      | none => rfl
      | some parent => exact ih parent

theorem member?_respan (g : Globals) (decl : ClassDecl) (name : String) :
    (g.respan f).member? (decl.respan f) name = (g.member? decl name).map (·.respan f) := by
  have length : (g.respan f).classes.length = g.classes.length := List.length_map _
  rw [member?, length, memberIn?_respan, member?]

end Globals

theorem firstClasses_respan (tree : Tree) :
    firstClasses (tree.respan f) = (firstClasses tree).map (·.respan f) := by
  have step : ∀ (classes found : List ClassDecl),
      (classes.map (·.respan f)).foldl (fun found decl =>
          if found.any (·.name == decl.name) then found else decl :: found)
            (found.map (·.respan f)) =
        (classes.foldl (fun found decl =>
          if found.any (·.name == decl.name) then found else decl :: found) found).map
            (·.respan f) := by
    intro classes
    induction classes with
    | nil => intro found; rfl
    | cons decl classes ih =>
      intro found
      have known : (found.map (·.respan f)).any (·.name == (decl.respan f).name) =
          found.any (·.name == decl.name) := List.any_map
      simp only [List.map_cons, List.foldl_cons, known, ← ih]
      split <;> rfl
  simp only [firstClasses, Tree.classes_respan, List.map_reverse, ← step, List.map_nil]

theorem fileNames_respan (tree : Tree) :
    fileNames (tree.respan f) = Names.respan f (fileNames tree) := by
  simp [fileNames, Names.respan, Tree.respan, Import.respan, Import.binding, Binding.respan,
    Function.comp_def]

theorem globals_respan (tree : Tree) :
    globals (tree.respan f) =
      ((globals tree).1.respan f, (globals tree).2.map (Error.respan f)) := by
  have names := declareAll_respan f [] #[] (fileNames tree)
  have imports : (tree.respan f).imports.map (·.binding) = tree.imports.map (·.binding) := by
    simp [Tree.respan, Import.respan, Import.binding, Function.comp_def]
  simp only [globals, Globals.respan, fileNames_respan, firstClasses_respan, imports]
  rw [Array.map_empty, show Names.respan f [] = [] from rfl] at names
  rw [names]

namespace Walk

theorem respan_report (w : Walk) (kind : ErrorKind) (span : Span) :
    (w.report kind span).respan f = (w.respan f).report (kind.respan f) (f span) := by
  simp [report, Walk.respan, Error.respan]

theorem respan_reportIf (w : Walk) (broken : Bool) (kind : ErrorKind) (span : Span) :
    (w.reportIf broken kind span).respan f =
      (w.respan f).reportIf broken (kind.respan f) (f span) := by
  cases broken with
  | true => exact respan_report f w kind span
  | false => rfl

theorem respan_push (w : Walk) (names : Names) :
    (w.push names).respan f = (w.respan f).push (names.respan f) := rfl

theorem respan_pop (w : Walk) : w.pop.respan f = (w.respan f).pop := by
  simp [pop, Walk.respan]

theorem respan_declareLocal (w : Walk) (name : String) (binding : Binding) :
    (w.declareLocal name binding).respan f =
      (w.respan f).declareLocal name (binding.respan f) := by
  obtain ⟨scopes, enclosing, returnsVoid, loopDepth, errors⟩ := w
  cases scopes with
  | nil => rfl
  | cons innermost outer =>
    simp [declareLocal, Walk.respan, declare_respan, map_respan_append]

theorem resolve_respan (w : Walk) (g : Globals) (name : String) :
    (w.respan f).resolve (g.respan f) name = (w.resolve g name).map (·.respan f) := by
  have scopes : (w.respan f).scopes.findSome? (·.lookup name) =
      (w.scopes.findSome? (·.lookup name)).map (·.respan f) := by
    simp only [Walk.respan, List.findSome?_map, List.map_findSome?]
    congr 1
    funext names
    exact Names.lookup_respan f names name
  have inherited : (w.respan f).enclosing.bind ((g.respan f).member? · name) =
      (w.enclosing.bind (g.member? · name)).map (·.respan f) := by
    cases inside : w.enclosing with
    | none => simp [Walk.respan, inside]
    | some decl => simp [Walk.respan, inside, Globals.member?_respan]
  have global : (g.respan f).names.lookup name = (g.names.lookup name).map (·.respan f) :=
    Names.lookup_respan f g.names name
  rw [resolve, scopes, inherited, global, resolve, Option.map_or, Option.map_or]

end Walk

variable (g : Globals)

theorem respan_checkType (type : TypeRef) (w : Walk) :
    (checkType g type w).respan f = checkType (g.respan f) (type.respan f) (w.respan f) := by
  obtain ⟨name, depth, span⟩ := type
  cases name with
  | primitive type => rfl
  | inferred => rfl
  | named name =>
    simp only [checkType, TypeRef.respan, Walk.respan_reportIf, Globals.knowsType_respan]
    rfl

theorem respan_checkMutation (target : Expr) (w : Walk) :
    (checkMutation g target w).respan f =
      checkMutation (g.respan f) (target.respan f) (w.respan f) := by
  cases target with
  | name span text =>
    have const : ((w.respan f).resolve (g.respan f) text).any (·.isConst) =
        (w.resolve g text).any (·.isConst) := by
      rw [Walk.resolve_respan, Option.any_map]
      rfl
    simp only [checkMutation, Expr.respan, Walk.respan_reportIf, const]
    rfl
  | _ => rfl

mutual

theorem respan_checkExpr : ∀ (e : Expr) (w : Walk),
    (checkExpr g e w).respan f = checkExpr (g.respan f) (e.respan f) (w.respan f)
  | .literal _ _ _, _ => rfl
  | .null _, _ => rfl
  | .name span text, w => by
    simp only [checkExpr, Expr.respan, Walk.respan_reportIf, Walk.resolve_respan,
      Option.isNone_map]
    rfl
  | .self span, w => by
    have outside : (w.respan f).enclosing.isNone = w.enclosing.isNone := Option.isNone_map
    simp only [checkExpr, Expr.respan, Walk.respan_reportIf, outside]
    rfl
  | .unary _ op operand, w => by
    simp only [checkExpr, Expr.respan, respan_checkExpr operand]
    split
    · rw [respan_checkMutation]
    · rfl
  | .step _ _ operand, w => by
    simp only [checkExpr, Expr.respan, respan_checkExpr operand, respan_checkMutation]
  | .binary _ _ lhs rhs, w => by
    simp only [checkExpr, Expr.respan, respan_checkExpr rhs, respan_checkExpr lhs]
  | .assign _ _ target value, w => by
    simp only [checkExpr, Expr.respan, respan_checkExpr value, respan_checkExpr target,
      respan_checkMutation]
  | .call _ callee args, w => by
    simp only [checkExpr, Expr.respan, respan_checkExprs args, respan_checkExpr callee]
  | .math _ _ args, w => by
    simp only [checkExpr, Expr.respan, respan_checkExprs args]
  | .member _ object _, w => by
    simp only [checkExpr, Expr.respan, respan_checkExpr object]
  | .index _ object index, w => by
    simp only [checkExpr, Expr.respan, respan_checkExpr index, respan_checkExpr object]
  | .new _ type args, w => by
    simp only [checkExpr, Expr.respan, respan_checkExprs args, respan_checkType]

theorem respan_checkExprs : ∀ (es : List Expr) (w : Walk),
    (checkExprs g es w).respan f = checkExprs (g.respan f) (Expr.respanAll f es) (w.respan f)
  | [], _ => rfl
  | e :: rest, w => by
    simp only [checkExprs, Expr.respanAll, respan_checkExprs rest, respan_checkExpr e]

end

theorem respan_checkExpr? (e? : Option Expr) (w : Walk) :
    (checkExpr? g e? w).respan f =
      checkExpr? (g.respan f) (e?.map (·.respan f)) (w.respan f) := by
  cases e? with
  | none => rfl
  | some e => exact respan_checkExpr f g e w

theorem respan_checkVariable (decl : VariableDecl) (w : Walk) :
    (checkVariable g decl w).respan f =
      checkVariable (g.respan f) (decl.respan f) (w.respan f) := by
  simp only [checkVariable, VariableDecl.respan, respan_checkExpr?, respan_checkType]

theorem respan_checkReturn (span : Span) (value : Option Expr) (w : Walk) :
    (checkReturn span value w).respan f =
      checkReturn (f span) (value.map (·.respan f)) (w.respan f) := by
  obtain ⟨scopes, enclosing, returnsVoid, loopDepth, errors⟩ := w
  cases value <;> cases returnsVoid <;> simp [checkReturn, Walk.respan, Walk.report, Error.respan,
    ErrorKind.respan]

theorem respan_inScope {braced : Bool} {inner inner' : Walk → Walk}
    (same : ∀ w, (inner w).respan f = inner' (w.respan f)) (w : Walk) :
    (inScope braced inner w).respan f = inScope braced inner' (w.respan f) := by
  cases braced with
  | true => exact same w
  | false =>
    simp only [inScope, Bool.false_eq_true, if_false, Walk.respan_pop, same, Walk.respan_push]
    rfl

theorem respan_inLoop {inner inner' : Walk → Walk}
    (same : ∀ w, (inner w).respan f = inner' (w.respan f)) (w : Walk) :
    (inLoop inner w).respan f = inLoop inner' (w.respan f) := by
  have entered := same { w with loopDepth := w.loopDepth + 1 }
  have left : ∀ w : Walk, Walk.respan f { w with loopDepth := w.loopDepth - 1 } =
    { w.respan f with loopDepth := (w.respan f).loopDepth - 1 } := fun _ => rfl
  simp only [inLoop, left, entered]
  rfl

mutual

theorem respan_checkStmt : ∀ (s : Stmt) (w : Walk),
    (checkStmt g s w).respan f = checkStmt (g.respan f) (s.respan f) (w.respan f)
  | .block _ statements, w => by
    simp only [checkStmt, Stmt.respan, Walk.respan_pop, respan_checkStmts statements]
    rfl
  | .declare decl, w => by
    simp only [checkStmt, Stmt.respan, Walk.respan_declareLocal, respan_checkVariable]
    rfl
  | .branch _ condition onTrue none, w => by
    simp only [checkStmt, Stmt.respan, Stmt.isBlock_respan, ← respan_checkExpr]
    exact respan_inScope f (respan_checkStmt onTrue) _
  | .branch _ condition onTrue (some onFalse), w => by
    simp only [checkStmt, Stmt.respan, Stmt.isBlock_respan, ← respan_checkExpr,
      ← respan_inScope f (respan_checkStmt onTrue)]
    exact respan_inScope f (respan_checkStmt onFalse) _
  | .whileLoop _ condition body, w => by
    simp only [checkStmt, Stmt.respan, Stmt.isBlock_respan, ← respan_checkExpr]
    exact respan_inLoop f (respan_inScope f (respan_checkStmt body)) _
  | .doLoop _ body condition, w => by
    simp only [checkStmt, Stmt.respan, Stmt.isBlock_respan, ← respan_checkExpr]
    exact respan_inLoop f (respan_inScope f (respan_checkStmt body)) _
  | .forLoop _ none condition step body, w => by
    have entered : (w.push []).respan f = (w.respan f).push [] := rfl
    simp only [checkStmt, Stmt.respan, Stmt.isBlock_respan, Walk.respan_pop, ← entered,
      ← respan_checkExpr?]
    rw [respan_inLoop f (respan_inScope f (respan_checkStmt body))]
  | .forLoop _ (some init) condition step body, w => by
    have entered : (w.push []).respan f = (w.respan f).push [] := rfl
    simp only [checkStmt, Stmt.respan, Stmt.isBlock_respan, Walk.respan_pop, ← entered,
      ← respan_checkExpr?, ← respan_checkStmt init]
    rw [respan_inLoop f (respan_inScope f (respan_checkStmt body))]
  | .ret span value, w => by
    simp only [checkStmt, Stmt.respan, respan_checkExpr?, respan_checkReturn]
  | .breakLoop span, w => Walk.respan_reportIf f w _ _ span
  | .continueLoop span, w => Walk.respan_reportIf f w _ _ span
  | .eval e, w => by
    simp only [checkStmt, Stmt.respan, respan_checkExpr]

theorem respan_checkStmts : ∀ (ss : List Stmt) (w : Walk),
    (checkStmts g ss w).respan f = checkStmts (g.respan f) (Stmt.respanAll f ss) (w.respan f)
  | [], _ => rfl
  | s :: rest, w => by
    simp only [checkStmts, Stmt.respanAll, respan_checkStmts rest, respan_checkStmt s]

end

theorem checkParams_respan (names : Names) (params : List Param) (w : Walk) :
    checkParams (g.respan f) (names.respan f) (params.map (·.respan f)) (w.respan f) =
      ((checkParams g names params w).1.respan f, (checkParams g names params w).2.respan f) := by
  induction params generalizing names w with
  | nil => rfl
  | cons p rest ih =>
    have declared := declare_respan f names p.name { span := p.span }
    simp only [Binding.respan] at declared
    simp only [List.map_cons, checkParams, Param.respan, declared, ← respan_checkType, ← ih]
    simp only [Walk.respan, map_respan_append]

theorem respan_checkFunction (decl : FunctionDecl) (w : Walk) :
    (checkFunction g decl w).respan f =
      checkFunction (g.respan f) (decl.respan f) (w.respan f) := by
  have params := checkParams_respan f g [] decl.params (checkType g decl.returnType w)
  rw [show Names.respan f [] = [] from rfl] at params
  have restored : ∀ (w : Walk) (void : Bool) (depth : Nat),
      Walk.respan f { w with returnsVoid := void, loopDepth := depth } =
        { w.respan f with returnsVoid := void, loopDepth := depth } := fun _ _ _ => rfl
  simp only [checkFunction, FunctionDecl.respan, ← respan_checkType, params]
  apply (restored _ _ _).trans
  rw [Walk.respan_pop, respan_checkStmts]
  rfl

theorem respan_checkBase (decl : ClassDecl) (w : Walk) :
    (checkBase g decl w).respan f = checkBase (g.respan f) (decl.respan f) (w.respan f) := by
  cases base : decl.base with
  | none => simp [checkBase, ClassDecl.respan, base]
  | some base' =>
    simp only [checkBase, ClassDecl.respan, base, Option.map_some, BaseName.respan,
      Globals.inherits_respan, Globals.knowsType_respan]
    split
    · exact Walk.respan_report f w _ _
    · exact Walk.respan_reportIf f w _ _ _

theorem respan_checkMember (w : Walk) (m : Member) :
    (checkMember g w m).respan f = checkMember (g.respan f) (w.respan f) (m.respan f) := by
  cases m with
  | field decl => exact respan_checkVariable f g decl w
  | method decl => exact respan_checkFunction f g decl w

theorem respan_foldl {α : Type} {move : α → α} {step step' : Walk → α → Walk}
    (same : ∀ w a, (step w a).respan f = step' (w.respan f) (move a)) (items : List α) (w : Walk) :
    (items.foldl step w).respan f = (items.map move).foldl step' (w.respan f) := by
  induction items generalizing w with
  | nil => rfl
  | cons a items ih => rw [List.foldl_cons, ih, same, List.map_cons, List.foldl_cons]

theorem respan_checkClass (decl : ClassDecl) (w : Walk) :
    (checkClass g decl w).respan f = checkClass (g.respan f) (decl.respan f) (w.respan f) := by
  have names : (decl.members.map (·.respan f)).map (fun m => (m.name, m.toBinding)) =
      Names.respan f (decl.members.map fun m => (m.name, m.toBinding)) := by
    simp [Names.respan, Function.comp_def]
  have declared := declareAll_respan f [] (checkBase g decl w).errors
    (decl.members.map fun m => (m.name, m.toBinding))
  rw [show Names.respan f [] = [] from rfl] at declared
  have restored : ∀ (w : Walk) (enclosing : Option ClassDecl),
      Walk.respan f { w with enclosing := enclosing } =
        { w.respan f with enclosing := enclosing.map (·.respan f) } := fun _ _ => rfl
  unfold checkClass
  rw [← respan_checkBase]
  simp only [ClassDecl.respan, names]
  apply (restored _ _).trans
  rw [respan_foldl f (respan_checkMember f g)]
  simp only [Walk.respan] at declared ⊢
  simp only [declared]
  rfl

theorem respan_checkDeclaration (w : Walk) (d : Declaration) :
    (checkDeclaration g w d).respan f =
      checkDeclaration (g.respan f) (w.respan f) (d.respan f) := by
  cases d with
  | ofClass decl => exact respan_checkClass f g decl w
  | ofFunction decl => exact respan_checkFunction f g decl w
  | ofVariable decl => exact respan_checkVariable f g decl w

theorem findings_respan (tree : Tree) :
    findings (tree.respan f) = (findings tree).map (Error.respan f) := by
  have walked := respan_foldl f (respan_checkDeclaration f (globals tree).1) tree.items
    { errors := (globals tree).2 }
  simp only [findings, globals_respan]
  apply (congrArg (·.errors.toList) walked.symm).trans
  simp [Walk.respan]

theorem check_respan (tree : Tree) :
    check (tree.respan f) =
      ((findings tree).mergeSort fun a b => (f a.span).le (f b.span)).map (Error.respan f) := by
  rw [check, findings_respan, List.map_mergeSort]
  intro a _ b _
  rfl

end Scope

end CherryLang
