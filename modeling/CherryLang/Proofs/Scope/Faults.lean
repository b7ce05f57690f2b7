import CherryLang.Proofs.Scope.Frame
import CherryLang.Proofs.Scope.Parts

namespace CherryLang.Scope

/-- What is reported of declarations in a scope that has `names` already. -/
def clashes (names : Names) (new : ScopeDecls) : List Error := (declareAll names #[] new).2.toList

section

variable (g : Globals)

def typeFaults (type : TypeRef) : List Error :=
  match type.name with
  | .named name => if g.knowsType name then [] else [⟨.unknownType name, type.span⟩]
  | .primitive _ | .inferred => []

def selfFaults (enclosing : Option ClassDecl) (e : Expr) : List Error :=
  (e.self?.filter fun _ => enclosing.isNone).toList.map (⟨.thisOutsideClass, ·⟩)

def exprFaults (enclosing : Option ClassDecl) (e : Expr) : List Error :=
  e.newType?.toList.flatMap (typeFaults g) ++ selfFaults enclosing e

def jumpFaults (returnsVoid : Bool) (part : Stmt.Part) : List Error :=
  part.strayBreak?.toList.map (⟨.breakOutsideLoop, ·⟩) ++
    part.strayContinue?.toList.map (⟨.continueOutsideLoop, ·⟩) ++
    if returnsVoid then part.valueReturn?.toList.map (⟨.returnValueInVoid, ·⟩)
    else part.bareReturn?.toList.map (⟨.missingReturnValue, ·⟩)

def partFaults (enclosing : Option ClassDecl) (returnsVoid : Bool) (part : Stmt.Part) :
    List Error :=
  jumpFaults returnsVoid part ++ part.stmt.declaredType?.toList.flatMap (typeFaults g) ++
    part.stmt.exprs.flatMap (exprFaults g enclosing) ++ part.stmt.scopes.flatMap (clashes [])

def variableFaults (enclosing : Option ClassDecl) (decl : VariableDecl) : List Error :=
  typeFaults g decl.type ++ decl.exprs.flatMap (exprFaults g enclosing)

def functionFaults (enclosing : Option ClassDecl) (decl : FunctionDecl) : List Error :=
  typeFaults g decl.returnType ++ decl.params.flatMap (fun p => typeFaults g p.type) ++
    clashes [] (decl.params.map (fun p => (p.name, { span := p.span })) ++
      decl.body.statements.flatMap Stmt.declared) ++
    decl.parts.flatMap (partFaults g enclosing decl.returnType.isVoid)

def memberFaults (enclosing : Option ClassDecl) : Member → List Error
  | .field decl => variableFaults g enclosing decl
  | .method decl => functionFaults g enclosing decl

def baseFaults (decl : ClassDecl) (base : BaseName) : List Error :=
  if base.text == decl.name || g.inherits base.text decl.name then
    [⟨.cyclicInheritance decl.name, base.span⟩]
  else if g.knowsType base.text then [] else [⟨.unknownBaseClass base.text, base.span⟩]

def itemFaults : Declaration → List Error
  | .ofClass decl =>
    decl.base.toList.flatMap (baseFaults g decl) ++
      clashes [] (decl.members.map fun m => (m.name, m.toBinding)) ++
      decl.members.flatMap (memberFaults g (some decl))
  | .ofFunction decl => functionFaults g none decl
  | .ofVariable decl => variableFaults g none decl

end

section

variable (g : Globals) (enclosing : Option ClassDecl) (returnsVoid inLoop : Bool) (span : Span)

theorem jumpFaults_eq_nil {part : Stmt.Part} (stays : part.stmt.isJump = false) :
    jumpFaults returnsVoid part = [] := by
  obtain ⟨s, inLoop⟩ := part
  cases s with
  | ret | breakLoop | continueLoop => cases stays
  | _ => cases returnsVoid <;> rfl

theorem jumpFaults_breakLoop :
    jumpFaults returnsVoid ⟨.breakLoop span, inLoop⟩ =
      if inLoop then [] else [⟨.breakOutsideLoop, span⟩] := by
  cases inLoop <;> cases returnsVoid <;> rfl

theorem jumpFaults_continueLoop :
    jumpFaults returnsVoid ⟨.continueLoop span, inLoop⟩ =
      if inLoop then [] else [⟨.continueOutsideLoop, span⟩] := by
  cases inLoop <;> cases returnsVoid <;> rfl

@[simp] theorem partFaults_block (statements : List Stmt) :
    partFaults g enclosing returnsVoid ⟨.block span statements, inLoop⟩ =
      clashes [] (statements.flatMap Stmt.declared) := by
  rw [partFaults, jumpFaults_eq_nil returnsVoid rfl]
  simp [Stmt.exprs, Stmt.ownExprs, Stmt.declaredType?, Stmt.scopes]

@[simp] theorem partFaults_declare (decl : VariableDecl) :
    partFaults g enclosing returnsVoid ⟨.declare decl, inLoop⟩ =
      variableFaults g enclosing decl := by
  rw [partFaults, jumpFaults_eq_nil returnsVoid rfl]
  simp [Stmt.exprs, Stmt.ownExprs, Stmt.declaredType?, Stmt.scopes,
    variableFaults, VariableDecl.exprs]

@[simp] theorem partFaults_branch (condition : Expr) (onTrue : Stmt) :
    partFaults g enclosing returnsVoid ⟨.branch span condition onTrue none, inLoop⟩ =
      condition.parts.flatMap (exprFaults g enclosing) ++
        onTrue.bareScope.flatMap (clashes []) := by
  rw [partFaults, jumpFaults_eq_nil returnsVoid rfl]
  simp [Stmt.exprs, Stmt.ownExprs, Stmt.declaredType?, Stmt.scopes]

@[simp] theorem partFaults_branchElse (condition : Expr) (onTrue onFalse : Stmt) :
    partFaults g enclosing returnsVoid ⟨.branch span condition onTrue (some onFalse), inLoop⟩ =
      condition.parts.flatMap (exprFaults g enclosing) ++
        (onTrue.bareScope.flatMap (clashes []) ++ onFalse.bareScope.flatMap (clashes [])) := by
  rw [partFaults, jumpFaults_eq_nil returnsVoid rfl]
  simp [Stmt.exprs, Stmt.ownExprs, Stmt.declaredType?, Stmt.scopes]

@[simp] theorem partFaults_whileLoop (condition : Expr) (body : Stmt) :
    partFaults g enclosing returnsVoid ⟨.whileLoop span condition body, inLoop⟩ =
      condition.parts.flatMap (exprFaults g enclosing) ++ body.bareScope.flatMap (clashes []) := by
  rw [partFaults, jumpFaults_eq_nil returnsVoid rfl]
  simp [Stmt.exprs, Stmt.ownExprs, Stmt.declaredType?, Stmt.scopes]

@[simp] theorem partFaults_doLoop (condition : Expr) (body : Stmt) :
    partFaults g enclosing returnsVoid ⟨.doLoop span body condition, inLoop⟩ =
      condition.parts.flatMap (exprFaults g enclosing) ++ body.bareScope.flatMap (clashes []) := by
  rw [partFaults, jumpFaults_eq_nil returnsVoid rfl]
  simp [Stmt.exprs, Stmt.ownExprs, Stmt.declaredType?, Stmt.scopes]

@[simp] theorem partFaults_forLoop (init : Option Stmt) (condition step : Option Expr)
    (body : Stmt) :
    partFaults g enclosing returnsVoid ⟨.forLoop span init condition step body, inLoop⟩ =
      ((condition.toList ++ step.toList).flatMap Expr.parts).flatMap (exprFaults g enclosing) ++
        (clashes [] (init.elim [] Stmt.declared) ++ body.bareScope.flatMap (clashes [])) := by
  rw [partFaults, jumpFaults_eq_nil returnsVoid rfl]
  cases init <;> simp [Stmt.exprs, Stmt.ownExprs, Stmt.declaredType?, Stmt.scopes]

@[simp] theorem partFaults_ret (value : Option Expr) :
    partFaults g enclosing returnsVoid ⟨.ret span value, inLoop⟩ =
      jumpFaults returnsVoid ⟨.ret span value, inLoop⟩ ++
        (value.toList.flatMap Expr.parts).flatMap (exprFaults g enclosing) := by
  simp [partFaults, Stmt.exprs, Stmt.ownExprs, Stmt.declaredType?, Stmt.scopes]

@[simp] theorem partFaults_breakLoop :
    partFaults g enclosing returnsVoid ⟨.breakLoop span, inLoop⟩ =
      if inLoop then [] else [⟨.breakOutsideLoop, span⟩] := by
  simp [partFaults, jumpFaults_breakLoop, Stmt.exprs, Stmt.ownExprs, Stmt.declaredType?,
    Stmt.scopes]

@[simp] theorem partFaults_continueLoop :
    partFaults g enclosing returnsVoid ⟨.continueLoop span, inLoop⟩ =
      if inLoop then [] else [⟨.continueOutsideLoop, span⟩] := by
  simp [partFaults, jumpFaults_continueLoop, Stmt.exprs, Stmt.ownExprs, Stmt.declaredType?,
    Stmt.scopes]

@[simp] theorem partFaults_eval (e : Expr) :
    partFaults g enclosing returnsVoid ⟨.eval e, inLoop⟩ =
      e.parts.flatMap (exprFaults g enclosing) := by
  rw [partFaults, jumpFaults_eq_nil returnsVoid rfl]
  simp [Stmt.exprs, Stmt.ownExprs, Stmt.declaredType?, Stmt.scopes]

end

/-- Everything that is wrong with a tree beside names. -/
def treeFaults (tree : Tree) : List Error :=
  clashes [] (fileNames tree) ++ tree.items.flatMap (itemFaults (globals tree).1)

theorem knowsType_iff (tree : Tree) (name : String) :
    (globals tree).1.knowsType name = true ↔ tree.KnowsType name := by
  simp only [Globals.knowsType, class?_globals, Bool.or_eq_true, Tree.class?, Tree.KnowsType,
    List.find?_isSome, beq_iff_eq, List.contains_iff_mem]
  apply or_congr_right
  exact List.mem_map

/-- What an error is of, without the names in it. -/
inductive Rule where
  | undeclaredName | duplicateDeclaration | breakOutsideLoop | continueOutsideLoop
  | returnValueInVoid | missingReturnValue | assignToConst | unknownType | unknownBaseClass
  | cyclicInheritance | thisOutsideClass
  deriving DecidableEq, Repr

def ErrorKind.rule : ErrorKind → Rule
  | .undeclaredName _ => .undeclaredName
  | .duplicateDeclaration .. => .duplicateDeclaration
  | .breakOutsideLoop => .breakOutsideLoop
  | .continueOutsideLoop => .continueOutsideLoop
  | .returnValueInVoid => .returnValueInVoid
  | .missingReturnValue => .missingReturnValue
  | .assignToConst _ => .assignToConst
  | .unknownType _ => .unknownType
  | .unknownBaseClass _ => .unknownBaseClass
  | .cyclicInheritance _ => .cyclicInheritance
  | .thisOutsideClass => .thisOutsideClass

namespace Rule

def isOfJump : Rule → Bool
  | .breakOutsideLoop | .continueOutsideLoop | .returnValueInVoid | .missingReturnValue => true
  | _ => false

def isOfBase : Rule → Bool
  | .unknownBaseClass | .cyclicInheritance => true
  | _ => false

theorem unrepeated_of_isOfJump {rule : Rule} (jump : rule.isOfJump = true) :
    rule ≠ .duplicateDeclaration := by
  rintro rfl
  cases jump

theorem unrepeated_of_isOfBase {rule : Rule} (inherited : rule.isOfBase = true) :
    rule ≠ .duplicateDeclaration := by
  rintro rfl
  cases inherited

end Rule

def against (rule : Rule) (errors : List Error) : List Error :=
  errors.filter (·.kind.rule == rule)

section

variable (rule : Rule)

@[simp] theorem against_append (errors errors' : List Error) :
    against rule (errors ++ errors') = against rule errors ++ against rule errors' :=
  List.filter_append ..

@[simp] theorem against_flatMap {α : Type} (parts : List α) (faults : α → List Error) :
    against rule (parts.flatMap faults) = parts.flatMap fun part => against rule (faults part) :=
  List.filter_flatMap ..

theorem against_of_forall {errors : List Error} {own : Rule}
    (all : ∀ e ∈ errors, e.kind.rule = own) :
    against rule errors = if rule = own then errors else [] := by
  unfold against
  split
  · next same =>
    apply List.filter_eq_self.mpr
    intro e member
    simp [all e member, same]
  · next other =>
    apply List.filter_eq_nil_iff.mpr
    intro e member
    simpa [all e member] using Ne.symm other

@[simp] theorem against_typeFaults (g : Globals) (type : TypeRef) :
    against rule (typeFaults g type) = if rule = .unknownType then typeFaults g type else [] := by
  apply against_of_forall
  intro e member
  unfold typeFaults at member
  split at member
  · split at member
    · cases member
    · cases List.mem_singleton.mp member
      rfl
  · cases member
  · cases member

@[simp] theorem against_map (kind : ErrorKind) (spans : List Span) :
    against rule (spans.map (⟨kind, ·⟩)) =
      if rule = kind.rule then spans.map (⟨kind, ·⟩) else [] := by
  apply against_of_forall
  intro e member
  obtain ⟨span, -, rfl⟩ := List.mem_map.mp member
  rfl

@[simp] theorem against_selfFaults (enclosing : Option ClassDecl) (e : Expr) :
    against rule (selfFaults enclosing e) =
      if rule = .thisOutsideClass then selfFaults enclosing e else [] :=
  against_map rule .thisOutsideClass _

theorem flatMap_ite {α : Type} (parts : List α) (broken : α → Prop) [DecidablePred broken]
    (faults : α → List Error) :
    parts.flatMap (fun part => if broken part then faults part else []) =
      (parts.filter broken).flatMap faults := by
  induction parts with
  | nil => rfl
  | cons part parts ih => by_cases here : broken part <;> simp [here, ih]

theorem flatMap_singleton_ite {α : Type} (parts : List α) (broken : α → Prop)
    [DecidablePred broken] (error : α → Error) :
    parts.flatMap (fun part => if broken part then [error part] else []) =
      (parts.filter broken).map error := by
  rw [flatMap_ite, List.map_eq_flatMap]

@[simp] theorem flatMap_nothing {α : Type} (parts : List α) :
    parts.flatMap (fun _ => ([] : List Error)) = [] := by
  simp [List.flatMap_eq_nil_iff]

theorem against_jumpFaults {rule : Rule} (other : rule.isOfJump = false) (returnsVoid : Bool)
    (part : Stmt.Part) : against rule (jumpFaults returnsVoid part) = [] := by
  cases rule with
  | breakOutsideLoop | continueOutsideLoop | returnValueInVoid | missingReturnValue => cases other
  | _ => cases returnsVoid <;> simp [jumpFaults, ErrorKind.rule]

theorem against_baseFaults {rule : Rule} (other : rule.isOfBase = false) (g : Globals)
    (decl : ClassDecl) (base : BaseName) : against rule (baseFaults g decl base) = [] := by
  apply List.filter_eq_nil_iff.mpr
  intro e member
  have inherited : e.kind.rule.isOfBase = true := by
    unfold baseFaults at member
    split at member
    · cases List.mem_singleton.mp member
      rfl
    · split at member
      · cases member
      · cases List.mem_singleton.mp member
        rfl
  rw [beq_iff_eq]
  rintro rfl
  simp [inherited] at other

end

def entered (names : Names) (new : ScopeDecls) : Names := (declareAll names #[] new).1

section

variable (names : Names)

@[simp] theorem clashes_nil : clashes names [] = [] := rfl

theorem clashes_cons (name : String) (binding : Binding) (new : ScopeDecls) :
    clashes names ((name, binding) :: new) =
      (declare names name binding).2 ++ clashes (declare names name binding).1 new := by
  rw [clashes, declareAll, errors_declareAll]
  simp [clashes]

theorem clashes_singleton (name : String) (binding : Binding) :
    clashes names [(name, binding)] = (declare names name binding).2 := by
  rw [clashes_cons, clashes_nil, List.append_nil]

theorem entered_cons (name : String) (binding : Binding) (new : ScopeDecls) :
    entered names ((name, binding) :: new) = entered (declare names name binding).1 new := by
  have blind : ∀ errors names, (declareAll names errors new).1 = entered names new := by
    unfold entered
    induction new with
    | nil => exact fun _ _ => rfl
    | cons entry new ih => exact fun _ names => (ih _ _).trans (ih _ _).symm
  exact blind _ _

theorem clashes_append (first second : ScopeDecls) :
    clashes names (first ++ second) =
      clashes names first ++ clashes (entered names first) second := by
  induction first generalizing names with
  | nil => rfl
  | cons entry first ih =>
    obtain ⟨name, binding⟩ := entry
    rw [List.cons_append, clashes_cons, clashes_cons, entered_cons, ih, List.append_assoc]

theorem rule_clashes (new : ScopeDecls) :
    ∀ e ∈ clashes names new, e.kind.rule = .duplicateDeclaration := by
  induction new generalizing names with
  | nil => simp
  | cons entry new ih =>
    obtain ⟨name, binding⟩ := entry
    intro e member
    rw [clashes_cons, List.mem_append] at member
    rcases member with here | later
    · unfold declare at here
      split at here
      · cases List.mem_singleton.mp here
        rfl
      · cases here
    · exact ih _ e later

theorem filter_clashes (new : ScopeDecls) :
    (clashes names new).filter (!·.isOfName) = clashes names new := by
  apply List.filter_eq_self.mpr
  rintro ⟨kind, span⟩ member
  have duplicate := rule_clashes names new _ member
  cases kind <;> first | rfl | cases duplicate

@[simp] theorem against_clashes (rule : Rule) (new : ScopeDecls) :
    against rule (clashes names new) =
      if rule = .duplicateDeclaration then clashes names new else [] :=
  against_of_forall rule (rule_clashes names new)

end

end CherryLang.Scope
