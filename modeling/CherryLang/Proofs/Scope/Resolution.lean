import CherryLang.Scope.Check
import CherryLang.Proofs.Scope.Nearest

/-! The check resolves names as lexical scoping does: at every step of the walk the open scopes and
the enclosing class are what the place in the tree can see. -/
namespace CherryLang.Scope

section

variable (tree : Tree)

/-- The names that fail at a use: one that is assigned and constant, one that is not declared. -/
def faults (use : Use) : List Error :=
  (if use.mutated && (nearest? tree use.visible use.name).any (·.isConst) then
    [⟨.assignToConst use.name, use.span⟩] else []) ++
  if (nearest? tree use.visible use.name).isNone then [⟨.undeclaredName use.name, use.span⟩] else []

def Error.isOfName (e : Error) : Bool :=
  match e.kind with
  | .undeclaredName _ | .assignToConst _ => true
  | _ => false

/-- The open scopes and the class of a walk are those visible at a place. -/
structure Sees (w : Walk) (v : Visible) : Prop where
  scopes : w.scopes.map (fun names name => names.lookup name) =
    v.blocks.map fun block name => (block.lookup name).map Meaning.binding
  enclosing : w.enclosing = v.enclosing

/-- From where `v` is visible `run` leads to where `v'` is, and reports of names what `uses` has. -/
def Does (run : Walk → Walk) (v v' : Visible) (uses : List Use) : Prop :=
  ∀ w, Sees w v → Sees (run w) v' ∧
    ∃ new, (run w).errors.toList = w.errors.toList ++ new ∧
      new.filter Error.isOfName = uses.flatMap (faults tree)

variable {tree}

theorem resolve_eq {w : Walk} {v : Visible} (sees : Sees w v) (name : String) :
    w.resolve (globals tree).1 name = (nearest? tree v name).map Meaning.binding := by
  have blocks : w.scopes.findSome? (·.lookup name) =
      (v.blocks.findSome? (·.lookup name)).map Meaning.binding := by
    have same := congrArg (List.findSome? (· name)) sees.scopes
    rw [List.findSome?_map, List.findSome?_map] at same
    rw [List.map_findSome?]
    exact same
  have members : w.enclosing.bind ((globals tree).1.member? · name) =
      ((v.enclosing.bind (inherited? tree name ((firstClasses tree).length + 1))).map
        Member.meaning).map Meaning.binding := by
    rw [sees.enclosing]
    cases v.enclosing with
    | none => rfl
    | some decl =>
      simp only [Option.bind_some, Globals.member?, memberIn?_globals, Option.map_map]
      rfl
  simp only [Walk.resolve, nearest?, blocks, members, lookup_globals, Option.map_or]

theorem Sees.reportIf {w : Walk} {v : Visible} (sees : Sees w v) (broken : Bool)
    (kind : ErrorKind) (span : Span) : Sees (w.reportIf broken kind span) v := by
  unfold Walk.reportIf
  split
  · exact ⟨sees.scopes, sees.enclosing⟩
  · exact sees

theorem errors_reportIf (w : Walk) (broken : Bool) (kind : ErrorKind) (span : Span) :
    (w.reportIf broken kind span).errors.toList =
      w.errors.toList ++ if broken then [⟨kind, span⟩] else [] := by
  unfold Walk.reportIf
  split <;> simp [Walk.report]

namespace Does

variable {run again : Walk → Walk} {v v₁ v₂ : Visible} {uses uses' : List Use}

theorem comp (first : Does tree run v v₁ uses) (second : Does tree again v₁ v₂ uses') :
    Does tree (fun w => again (run w)) v v₂ (uses ++ uses') := by
  intro w sees
  obtain ⟨sees₁, new, errors, names⟩ := first w sees
  obtain ⟨sees₂, new', errors', names'⟩ := second (run w) sees₁
  refine ⟨sees₂, new ++ new', ?_, ?_⟩
  · rw [errors', errors, List.append_assoc]
  · rw [List.filter_append, names, names', List.flatMap_append]

theorem of_uses (does : Does tree run v v₁ uses) (same : uses = uses') :
    Does tree run v v₁ uses' :=
  same ▸ does

theorem id (v : Visible) : Does tree (fun w => w) v v [] :=
  fun _ sees => ⟨sees, [], by simp, rfl⟩

theorem push (v : Visible) : Does tree (·.push []) v v.opened [] := by
  intro w sees
  refine ⟨⟨?_, sees.enclosing⟩, [], by simp [Walk.push], rfl⟩
  simp only [Walk.push, Visible.opened, List.map_cons, sees.scopes]
  rfl

theorem pop (v : Visible) : Does tree (·.pop) v v.closed [] := by
  intro w sees
  refine ⟨⟨?_, sees.enclosing⟩, [], by simp [Walk.pop], rfl⟩
  simp only [Walk.pop, Visible.closed, List.map_tail, sees.scopes]

theorem reportIf (v : Visible) {kind : ErrorKind} {span : Span}
    (other : Error.isOfName ⟨kind, span⟩ = false) (broken : Walk → Bool) :
    Does tree (fun w => w.reportIf (broken w) kind span) v v [] := by
  intro w sees
  refine ⟨sees.reportIf _ kind span, _, errors_reportIf w _ kind span, ?_⟩
  split
  · simp [other]
  · rfl

theorem report (v : Visible) {kind : ErrorKind} {span : Span}
    (other : Error.isOfName ⟨kind, span⟩ = false) :
    Does tree (·.report kind span) v v [] :=
  reportIf v other fun _ => true

theorem checkType (v : Visible) (type : TypeRef) :
    Does tree (Scope.checkType (globals tree).1 type) v v [] := by
  unfold Scope.checkType
  split
  · exact reportIf v rfl _
  · exact id v
  · exact id v

end Does

theorem filter_faults (use : Use) :
    (faults tree use).filter Error.isOfName = [use].flatMap (faults tree) := by
  rw [List.flatMap_singleton, List.filter_eq_self]
  intro e member
  obtain assigned | undeclared := List.mem_append.mp member
  · split at assigned
    · cases List.mem_singleton.mp assigned
      rfl
    · cases assigned
  · split at undeclared
    · cases List.mem_singleton.mp undeclared
      rfl
    · cases undeclared

theorem does_name (v : Visible) (span : Span) (text : String) :
    Does tree (checkExpr (globals tree).1 (.name span text)) v v
      ((Expr.name span text).uses v false) := by
  intro w sees
  refine ⟨sees.reportIf _ _ _, faults tree ⟨text, span, false, v⟩, ?_, filter_faults _⟩
  rw [checkExpr, errors_reportIf, resolve_eq sees, Option.isNone_map]
  rfl

theorem does_mutated_name (v : Visible) (span : Span) (text : String) :
    Does tree (fun w => checkExpr (globals tree).1 (.name span text)
        (checkMutation (globals tree).1 (.name span text) w)) v v
      ((Expr.name span text).uses v true) := by
  intro w sees
  have marked : ∀ broken, Sees (w.reportIf broken (.assignToConst text) span) v :=
    fun broken => sees.reportIf broken _ _
  refine ⟨(marked _).reportIf _ _ _, faults tree ⟨text, span, true, v⟩, ?_, filter_faults _⟩
  simp only [checkExpr, checkMutation, errors_reportIf, resolve_eq (marked _), resolve_eq sees,
    Option.isNone_map, Option.any_map, List.append_assoc, Meaning.isConst_binding, faults,
    Bool.true_and]

theorem Does.mutated {v : Visible} {e : Expr}
    (plain : Does tree (checkExpr (globals tree).1 e) v v (e.uses v false)) :
    Does tree (fun w => checkExpr (globals tree).1 e (checkMutation (globals tree).1 e w)) v v
      (e.uses v true) := by
  cases e with
  | name span text => exact does_mutated_name v span text
  | literal | self | null | unary | step | binary | assign | call | math | member | index | new =>
    simpa only [checkMutation, Expr.uses] using plain

mutual

theorem does_checkExpr (v : Visible) : ∀ e : Expr,
    Does tree (checkExpr (globals tree).1 e) v v (e.uses v false)
  | .literal .. => .id v
  | .null _ => .id v
  | .name span text => does_name v span text
  | .self span => .reportIf v rfl (·.enclosing.isNone)
  | .unary _ op operand => by
    have plain := does_checkExpr v operand
    simp only [checkExpr, Expr.uses]
    cases op.mutates
    · exact plain
    · exact plain.mutated
  | .step _ _ operand => (does_checkExpr v operand).mutated
  | .binary _ _ lhs rhs => (does_checkExpr v lhs).comp (does_checkExpr v rhs)
  | .assign _ _ target value => (does_checkExpr v target).mutated.comp (does_checkExpr v value)
  | .call _ callee args => (does_checkExpr v callee).comp (does_checkExprs v args)
  | .math _ _ args => does_checkExprs v args
  | .member _ object _ => does_checkExpr v object
  | .index _ object key => (does_checkExpr v object).comp (does_checkExpr v key)
  | .new _ type args => (Does.checkType v type).comp (does_checkExprs v args)

theorem does_checkExprs (v : Visible) : ∀ es : List Expr,
    Does tree (checkExprs (globals tree).1 es) v v (Expr.usesAll v es)
  | [] => .id v
  | e :: rest => (does_checkExpr v e).comp (does_checkExprs v rest)

end

theorem does_checkExpr? (v : Visible) (e? : Option Expr) :
    Does tree (checkExpr? (globals tree).1 e?) v v (Expr.uses? v e?) := by
  cases e? with
  | none => exact .id v
  | some e => exact does_checkExpr v e

theorem does_checkVariable (v : Visible) (decl : VariableDecl) :
    Does tree (checkVariable (globals tree).1 decl) v v (Expr.uses? v decl.init) :=
  (Does.checkType v decl.type).comp (does_checkExpr? v decl.init)

theorem filter_declare (names : Names) (name : String) (binding : Binding) :
    (declare names name binding).2.filter Error.isOfName = [] := by
  unfold declare
  split <;> rfl

theorem does_declareLocal (v : Visible) (decl : VariableDecl) :
    Does tree (·.declareLocal decl.name decl.toBinding) v (v.declared decl) [] := by
  intro w sees
  obtain ⟨scopes, enclosing⟩ := sees
  cases inScopes : w.scopes with
  | nil =>
    have inBlocks : v.blocks = [] := by simpa [inScopes] using scopes.symm
    simp only [Walk.declareLocal, Visible.declared, inScopes, inBlocks]
    exact ⟨⟨scopes, enclosing⟩, [], by simp, rfl⟩
  | cons innermost outer =>
    obtain ⟨block, blocks, inBlocks⟩ : ∃ block blocks, v.blocks = block :: blocks :=
      List.exists_cons_of_ne_nil fun none => by simp [inScopes, none] at scopes
    simp only [inScopes, inBlocks, List.map_cons, List.cons.injEq] at scopes
    simp only [Walk.declareLocal, Visible.declared, inScopes, inBlocks]
    refine ⟨⟨?_, enclosing⟩, (declare innermost decl.name decl.toBinding).2,
      Array.toList_appendList, filter_declare ..⟩
    refine congrArg₂ List.cons (funext fun name => ?_) scopes.2
    have entry : [(decl.name, decl.toBinding)].lookup name =
        ([(decl.name, Meaning.ofVariable decl)].lookup name).map Meaning.binding :=
      lookup_map Meaning.binding [(decl.name, .ofVariable decl)] name
    have known : innermost.lookup name = (block.lookup name).map Meaning.binding :=
      congrFun scopes.1 name
    simp only [lookup_declare, known, List.lookup_append, Option.map_or, entry]

theorem closed_after (v : Visible) (s : Stmt) : (v.after s).closed = v.closed := by
  unfold Visible.after
  split
  · unfold Visible.declared
    split
    · rfl
    · next split => simp [Visible.closed, split]
  · rfl

theorem closed_foldl_after (v : Visible) (statements : List Stmt) :
    (statements.foldl Visible.after v).closed = v.closed := by
  induction statements generalizing v with
  | nil => rfl
  | cons s rest ih => rw [List.foldl_cons, ih, closed_after]

@[simp] theorem closed_opened (v : Visible) : v.opened.closed = v := rfl

theorem Does.inScope {v : Visible} {s : Stmt}
    (inner : Does tree (checkStmt (globals tree).1 s) (v.around s) ((v.around s).after s)
      (s.uses (v.around s))) :
    Does tree (Scope.inScope s.isBlock (checkStmt (globals tree).1 s)) v v
      (s.uses (v.around s)) := by
  unfold Scope.inScope
  unfold Visible.around at inner ⊢
  cases braced : s.isBlock with
  | true =>
    simp only [braced, if_true] at inner ⊢
    cases s with
    | block span statements => exact inner
    | _ => cases braced
  | false =>
    simp only [braced, Bool.false_eq_true, if_false] at inner ⊢
    have whole := (Does.push v).comp (inner.comp (Does.pop _))
    rw [closed_after, closed_opened] at whole
    simpa using whole

theorem Does.inLoop {v : Visible} {inner : Walk → Walk} {uses : List Use}
    (body : Does tree inner v v uses) : Does tree (Scope.inLoop inner) v v uses := by
  intro w sees
  obtain ⟨⟨scopes, enclosing⟩, reported⟩ :=
    body { w with loopDepth := w.loopDepth + 1 } ⟨sees.scopes, sees.enclosing⟩
  exact ⟨⟨scopes, enclosing⟩, reported⟩

theorem does_checkReturn (v : Visible) (span : Span) (value : Option Expr) :
    Does tree (checkReturn span value) v v [] := by
  intro w sees
  unfold checkReturn
  split
  · exact Does.report v rfl w sees
  · exact Does.report v rfl w sees
  · exact Does.id v w sees

mutual

theorem does_checkStmt (v : Visible) : ∀ s : Stmt,
    Does tree (checkStmt (globals tree).1 s) v (v.after s) (s.uses v)
  | .block _ statements => by
    have whole := (Does.push v).comp ((does_checkStmts v.opened statements).comp (Does.pop _))
    rw [closed_foldl_after, closed_opened] at whole
    exact whole.of_uses (by simp [Stmt.uses])
  | .declare decl =>
    ((does_checkVariable v decl).comp (does_declareLocal v decl)).of_uses (List.append_nil _)
  | .branch _ condition onTrue none =>
    (does_checkExpr v condition).comp (does_checkStmt _ onTrue).inScope
  | .branch _ condition onTrue (some onFalse) =>
    ((does_checkExpr v condition).comp (does_checkStmt _ onTrue).inScope).comp
      (does_checkStmt _ onFalse).inScope
  | .whileLoop _ condition body =>
    (does_checkExpr v condition).comp (does_checkStmt _ body).inScope.inLoop
  | .doLoop _ body condition =>
    (does_checkExpr v condition).comp (does_checkStmt _ body).inScope.inLoop
  | .forLoop _ none condition step body => by
    have whole := (Does.push v).comp <| ((does_checkExpr? v.opened condition).comp
      (does_checkExpr? v.opened step)).comp <| (does_checkStmt _ body).inScope.inLoop.comp
      (Does.pop v.opened)
    exact whole.of_uses (by simp [Stmt.uses])
  | .forLoop _ (some init) condition step body => by
    have whole := (Does.push v).comp <| (does_checkStmt v.opened init).comp <|
      ((does_checkExpr? _ condition).comp (does_checkExpr? _ step)).comp <|
      (does_checkStmt _ body).inScope.inLoop.comp (Does.pop _)
    rw [closed_after, closed_opened] at whole
    exact whole.of_uses (by simp [Stmt.uses])
  | .ret span value => (does_checkReturn v span value).comp (does_checkExpr? v value)
  | .breakLoop span => .reportIf v rfl (·.loopDepth == 0)
  | .continueLoop span => .reportIf v rfl (·.loopDepth == 0)
  | .eval e => does_checkExpr v e

theorem does_checkStmts (v : Visible) : ∀ statements : List Stmt,
    Does tree (checkStmts (globals tree).1 statements) v (statements.foldl Visible.after v)
      (Stmt.usesAll v statements)
  | [] => .id v
  | s :: rest => (does_checkStmt v s).comp (does_checkStmts (v.after s) rest)

end

def paramNames (params : List Param) : List (String × Binding) :=
  params.map fun p => (p.name, { span := p.span })

theorem names_checkParams (g : Globals) (names : Names) (params : List Param) (w : Walk)
    (errors : Array Error) :
    (checkParams g names params w).1 = (declareAll names errors (paramNames params)).1 := by
  induction params generalizing names w errors with
  | nil => rfl
  | cons p params ih => exact ih ..

theorem does_checkParams (v : Visible) (params : List Param) (names : Names) :
    Does tree (fun w => (checkParams (globals tree).1 names params w).2) v v [] := by
  induction params generalizing names with
  | nil => exact .id v
  | cons p params ih =>
    have declares : Does tree (fun w => { w with
        errors := w.errors ++ (declare names p.name { span := p.span }).2 }) v v [] :=
      fun w sees => ⟨⟨sees.scopes, sees.enclosing⟩, _, Array.toList_appendList,
        filter_declare ..⟩
    exact (Does.checkType v p.type).comp (declares.comp (ih _))

theorem Does.pushNames (v : Visible) {names : Names} {block : List (String × Meaning)}
    (same : ∀ name, names.lookup name = (block.lookup name).map Meaning.binding) :
    Does tree (·.push names) v { v with blocks := block :: v.blocks } [] :=
  fun _ sees => ⟨⟨congrArg₂ List.cons (funext same) sees.scopes, sees.enclosing⟩, [],
    (List.append_nil _).symm, rfl⟩

theorem Does.entering (v : Visible) (returnsVoid : Bool) (loopDepth : Nat) :
    Does tree (fun w => { w with returnsVoid := returnsVoid, loopDepth := loopDepth }) v v [] :=
  fun _ sees => ⟨⟨sees.scopes, sees.enclosing⟩, [], (List.append_nil _).symm, rfl⟩

theorem does_checkFunction (enclosing : Option ClassDecl) (decl : FunctionDecl) :
    Does tree (checkFunction (globals tree).1 decl) ⟨[], enclosing⟩ ⟨[], enclosing⟩
      (decl.uses enclosing) := by
  have looks : ∀ name, (declareAll [] #[] (paramNames decl.params)).1.lookup name =
      ((decl.params.map fun p => (p.name, Meaning.ofParam p)).lookup name).map
        Meaning.binding := by
    intro name
    rw [lookup_declareAll, ← lookup_map, List.map_map]
    rfl
  have header : Does tree _ _ _ _ := (Does.checkType ⟨[], enclosing⟩ decl.returnType).comp
    (does_checkParams _ decl.params [])
  have body : Does tree _ _ _ _ := (Does.pushNames ⟨[], enclosing⟩ looks).comp
    ((does_checkStmts _ decl.body.statements).comp (Does.pop _))
  rw [closed_foldl_after] at body
  intro w sees
  have whole : Does tree _ _ _ (decl.uses enclosing) :=
    (header.comp ((Does.entering _ decl.returnType.isVoid 0).comp
      (body.comp (Does.entering _ w.returnsVoid w.loopDepth)))).of_uses
      (by simp [FunctionDecl.uses])
  simp only [checkFunction]
  rw [names_checkParams _ _ _ _ #[]]
  exact whole w sees

theorem filter_declareAll (names : Names) (errors : Array Error)
    (entries : List (String × Binding)) :
    ∃ new, (declareAll names errors entries).2.toList = errors.toList ++ new ∧
      new.filter Error.isOfName = [] := by
  induction entries generalizing names errors with
  | nil => exact ⟨[], by simp [declareAll], rfl⟩
  | cons entry entries ih =>
    obtain ⟨new, later, none⟩ := ih (declare names entry.1 entry.2).1
      (errors ++ (declare names entry.1 entry.2).2)
    refine ⟨(declare names entry.1 entry.2).2 ++ new, ?_, ?_⟩
    · rw [declareAll, later, Array.toList_appendList, List.append_assoc]
    · rw [List.filter_append, filter_declare, none, List.append_nil]

theorem does_checkBase (v : Visible) (decl : ClassDecl) :
    Does tree (checkBase (globals tree).1 decl) v v [] := by
  unfold checkBase
  split
  · exact .id v
  · split
    · exact .report v rfl
    · exact .reportIf v rfl _

theorem does_foldl {α : Type} {step : Walk → α → Walk} {v : Visible} {uses : α → List Use}
    (does : ∀ a, Does tree (step · a) v v (uses a)) (as : List α) :
    Does tree (as.foldl step) v v (as.flatMap uses) := by
  induction as with
  | nil => exact .id v
  | cons a as ih => exact (does a).comp ih

theorem does_checkMember (decl : ClassDecl) (member : Member) :
    Does tree (checkMember (globals tree).1 · member) ⟨[], some decl⟩ ⟨[], some decl⟩
      (member.uses decl) := by
  cases member with
  | field field => exact does_checkVariable _ field
  | method method => exact does_checkFunction (some decl) method

theorem does_checkClass (decl : ClassDecl) :
    Does tree (checkClass (globals tree).1 decl) {} {} (decl.members.flatMap (·.uses decl)) := by
  have enter : Does tree (fun w => { w with
      errors := (declareAll [] w.errors (decl.members.map fun m => (m.name, m.toBinding))).2
      enclosing := some decl }) {} ⟨[], some decl⟩ [] :=
    fun w sees => ⟨⟨sees.scopes, rfl⟩, filter_declareAll [] w.errors _⟩
  have leave : Does tree (fun w => { w with enclosing := none }) ⟨[], some decl⟩ {} [] :=
    fun w sees => ⟨⟨sees.scopes, rfl⟩, [], (List.append_nil _).symm, rfl⟩
  have members : Does tree _ _ _ _ := does_foldl (does_checkMember decl) decl.members
  have whole : Does tree _ _ _ (decl.members.flatMap (·.uses decl)) :=
    ((does_checkBase {} decl).comp (enter.comp (members.comp leave))).of_uses (by simp)
  intro w sees
  simp only [checkClass, sees.enclosing]
  exact whole w sees

theorem does_checkDeclaration (item : Declaration) :
    Does tree (checkDeclaration (globals tree).1 · item) {} {} item.uses := by
  cases item with
  | ofClass decl => exact does_checkClass decl
  | ofFunction decl => exact does_checkFunction none decl
  | ofVariable decl => exact does_checkVariable {} decl

theorem filter_findings (tree : Tree) :
    (findings tree).filter Error.isOfName = tree.uses.flatMap (faults tree) := by
  obtain ⟨old, started, none⟩ := filter_declareAll [] #[] (fileNames tree)
  have items : Does tree _ _ _ _ := does_foldl does_checkDeclaration tree.items
  obtain ⟨-, new, reported, names⟩ := items { errors := (globals tree).2 } ⟨rfl, rfl⟩
  have errors : findings tree = (globals tree).2.toList ++ new := reported
  have start : (globals tree).2.toList = old := started
  rw [errors, start, List.filter_append, none, names]
  rfl

end

section

variable (tree : Tree) (use : Use)

theorem isNone_nearest?_iff (v : Visible) (name : String) :
    (nearest? tree v name).isNone ↔ ¬ ∃ meaning, tree.Nearest v name meaning := by
  rw [Option.isNone_iff_eq_none, Option.eq_none_iff_forall_ne_some]
  simp only [ne_eq, nearest?_eq_some_iff, not_exists]

theorem any_isConst_nearest?_iff (v : Visible) (name : String) :
    (nearest? tree v name).any (·.isConst) ↔
      ∃ meaning, tree.Nearest v name meaning ∧ meaning.isConst := by
  simp only [Option.any_eq_true, nearest?_eq_some_iff]

/-- No declaration of the name is visible. -/
def Undeclared : Prop := ¬ ∃ meaning, tree.Nearest use.visible use.name meaning

/-- The name is assigned or stepped, and its nearest visible declaration is a constant variable. -/
def Frozen : Prop :=
  use.mutated ∧ ∃ meaning, tree.Nearest use.visible use.name meaning ∧ meaning.isConst

theorem frozen_iff :
    Frozen tree use ↔ use.mutated ∧ ∃ decl,
      tree.Nearest use.visible use.name (.ofVariable decl) ∧ .const ∈ decl.modifiers := by
  unfold Frozen
  simp only [Meaning.isConst_iff]
  refine and_congr_right fun _ => ⟨?_, ?_⟩
  · rintro ⟨_, nearest, decl, rfl, const⟩
    exact ⟨decl, nearest, const⟩
  · rintro ⟨decl, nearest, const⟩
    exact ⟨_, nearest, decl, rfl, const⟩

instance : DecidablePred (Undeclared tree) := fun use =>
  decidable_of_iff _ (isNone_nearest?_iff tree use.visible use.name)

instance : DecidablePred (Frozen tree) := fun use =>
  decidable_of_iff _ (and_congr_right fun _ => any_isConst_nearest?_iff tree use.visible use.name)

theorem faults_eq :
    faults tree use = (if Frozen tree use then [⟨.assignToConst use.name, use.span⟩] else []) ++
      if Undeclared tree use then [⟨.undeclaredName use.name, use.span⟩] else [] := by
  have frozen : (use.mutated && (nearest? tree use.visible use.name).any (·.isConst)) = true ↔
      Frozen tree use := by
    rw [Bool.and_eq_true, any_isConst_nearest?_iff]
    rfl
  have undeclared : (nearest? tree use.visible use.name).isNone = true ↔ Undeclared tree use :=
    isNone_nearest?_iff tree use.visible use.name
  simp only [faults, frozen, undeclared]

end

def ErrorKind.isUndeclaredName : ErrorKind → Bool
  | .undeclaredName _ => true
  | _ => false

def ErrorKind.isAssignToConst : ErrorKind → Bool
  | .assignToConst _ => true
  | _ => false

theorem filter_flatMap_faults_undeclared (tree : Tree) (uses : List Use) :
    (uses.flatMap (faults tree)).filter (·.kind.isUndeclaredName) =
      (uses.filter (Undeclared tree)).map fun use => ⟨.undeclaredName use.name, use.span⟩ := by
  induction uses with
  | nil => rfl
  | cons use uses ih =>
    rw [List.flatMap_cons, List.filter_append, ih, faults_eq]
    by_cases undeclared : Undeclared tree use <;> by_cases frozen : Frozen tree use <;>
      simp [undeclared, frozen, ErrorKind.isUndeclaredName]

theorem filter_flatMap_faults_frozen (tree : Tree) (uses : List Use) :
    (uses.flatMap (faults tree)).filter (·.kind.isAssignToConst) =
      (uses.filter (Frozen tree)).map fun use => ⟨.assignToConst use.name, use.span⟩ := by
  induction uses with
  | nil => rfl
  | cons use uses ih =>
    rw [List.flatMap_cons, List.filter_append, ih, faults_eq]
    by_cases undeclared : Undeclared tree use <;> by_cases frozen : Frozen tree use <;>
      simp [undeclared, frozen, ErrorKind.isAssignToConst]

theorem check_perm_findings (tree : Tree) : (check tree).Perm (findings tree) :=
  List.mergeSort_perm ..

/-- Names resolve by lexical scoping. An undeclared name is reported once at every name expression
without a visible declaration and nowhere else, and an assignment to a constant once at every name
that is assigned or stepped and whose nearest declaration is a constant variable. -/
theorem check_names (tree : Tree) :
    ((check tree).filter (·.kind.isUndeclaredName)).Perm
        ((tree.uses.filter (Undeclared tree)).map fun use =>
          ⟨.undeclaredName use.name, use.span⟩) ∧
      ((check tree).filter (·.kind.isAssignToConst)).Perm
        ((tree.uses.filter (Frozen tree)).map fun use =>
          ⟨.assignToConst use.name, use.span⟩) := by
  have named : ∀ p : Error → Bool, (∀ e, p e → e.isOfName) →
      (findings tree).filter p = (tree.uses.flatMap (faults tree)).filter p := by
    intro p within
    rw [← filter_findings, List.filter_filter]
    refine List.filter_congr fun e _ => ?_
    cases chosen : p e with
    | false => rfl
    | true => rw [within e chosen, Bool.true_and]
  constructor
  · rw [← filter_flatMap_faults_undeclared, ← named]
    · exact (check_perm_findings tree).filter _
    · rintro ⟨kind, span⟩ chosen
      cases kind <;> simp_all [ErrorKind.isUndeclaredName, Error.isOfName]
  · rw [← filter_flatMap_faults_frozen, ← named]
    · exact (check_perm_findings tree).filter _
    · rintro ⟨kind, span⟩ chosen
      cases kind <;> simp_all [ErrorKind.isAssignToConst, Error.isOfName]

end CherryLang.Scope
