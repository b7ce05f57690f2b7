import CherryLang.Proofs.Scope.Reports

namespace CherryLang

def FunctionDecl.ReturnsVoid (decl : FunctionDecl) : Prop :=
  decl.returnType.name = .primitive .void ∧ decl.returnType.arrayDepth = 0

instance : DecidablePred FunctionDecl.ReturnsVoid := fun _ => inferInstanceAs (Decidable (_ ∧ _))

def TypeRef.named? (type : TypeRef) : Option (String × Span) :=
  match type.name with
  | .named name => some (name, type.span)
  | .primitive _ | .inferred => none

namespace Scope

/-- The rules about the surroundings are kept exactly: each of these parts of the tree is reported
once, and no other. -/
structure ContextRules (tree : Tree) (errors : List Error) : Prop where
  breaks : (against .breakOutsideLoop errors).Perm
    ((tree.allFunctions.flatMap (·.parts.filterMap Stmt.Part.strayBreak?)).map
      (⟨.breakOutsideLoop, ·⟩))
  continues : (against .continueOutsideLoop errors).Perm
    ((tree.allFunctions.flatMap (·.parts.filterMap Stmt.Part.strayContinue?)).map
      (⟨.continueOutsideLoop, ·⟩))
  values : (against .returnValueInVoid errors).Perm
    (((tree.allFunctions.filter FunctionDecl.ReturnsVoid).flatMap
      (·.parts.filterMap Stmt.Part.valueReturn?)).map (⟨.returnValueInVoid, ·⟩))
  bare : (against .missingReturnValue errors).Perm
    (((tree.allFunctions.filter (¬ ·.ReturnsVoid)).flatMap
      (·.parts.filterMap Stmt.Part.bareReturn?)).map (⟨.missingReturnValue, ·⟩))
  selfs : (against .thisOutsideClass errors).Perm
    ((tree.freeExprs.filterMap Expr.self?).map (⟨.thisOutsideClass, ·⟩))
  types : (against .unknownType errors).Perm
    (((tree.types.filterMap TypeRef.named?).filter (¬ tree.KnowsType ·.1)).map
      fun (name, span) => ⟨.unknownType name, span⟩)

theorem isVoid_iff (decl : FunctionDecl) :
    decl.returnType.isVoid = true ↔ decl.ReturnsVoid := by
  simp [TypeRef.isVoid, FunctionDecl.ReturnsVoid]

/-- A rule that is neither about bases nor about scopes finds nothing in a class but its members. -/
theorem against_classFaults {rule : Rule} (underived : rule.isOfBase = false)
    (unrepeated : rule ≠ .duplicateDeclaration) (g : Globals) (decl : ClassDecl) :
    against rule (itemFaults g (.ofClass decl)) =
      decl.members.flatMap fun m => against rule (memberFaults g (some decl) m) := by
  simp [itemFaults, against_baseFaults underived, unrepeated]

section

variable {rule : Rule} (jump : rule.isOfJump = true) (g : Globals)
include jump

theorem jumps_variableFaults (enclosing : Option ClassDecl) (decl : VariableDecl) :
    against rule (variableFaults g enclosing decl) = [] := by
  cases rule with
  | breakOutsideLoop | continueOutsideLoop | returnValueInVoid | missingReturnValue =>
    simp [variableFaults, exprFaults]
  | _ => cases jump

theorem jumps_functionFaults (enclosing : Option ClassDecl) (decl : FunctionDecl) :
    against rule (functionFaults g enclosing decl) =
      decl.parts.flatMap fun part => against rule (jumpFaults decl.returnType.isVoid part) := by
  cases rule with
  | breakOutsideLoop | continueOutsideLoop | returnValueInVoid | missingReturnValue =>
    simp [functionFaults, partFaults, exprFaults]
  | _ => cases jump

theorem jumps_itemFaults (d : Declaration) :
    against rule (itemFaults g d) = d.functions.flatMap fun decl =>
      decl.parts.flatMap fun part => against rule (jumpFaults decl.returnType.isVoid part) := by
  cases d with
  | ofClass decl =>
    have underived : rule.isOfBase = false := by cases rule <;> first | rfl | cases jump
    have unrepeated := Rule.unrepeated_of_isOfJump jump
    rw [against_classFaults underived unrepeated, Declaration.functions, List.flatMap_assoc]
    congr 1
    funext m
    cases m with
    | field field => exact jumps_variableFaults jump g (some decl) field
    | method method =>
      simpa [Member.functions, memberFaults] using jumps_functionFaults jump g (some decl) method
  | ofFunction decl =>
    simpa [Declaration.functions, itemFaults] using jumps_functionFaults jump g none decl
  | ofVariable decl => exact jumps_variableFaults jump g none decl

theorem jumps_treeFaults (tree : Tree) :
    against rule (treeFaults tree) = tree.allFunctions.flatMap fun decl =>
      decl.parts.flatMap fun part => against rule (jumpFaults decl.returnType.isVoid part) := by
  have unrepeated := Rule.unrepeated_of_isOfJump jump
  simp [treeFaults, unrepeated, jumps_itemFaults jump, Tree.allFunctions, List.flatMap_assoc]

end

section

variable (returnsVoid : Bool) (part : Stmt.Part)

theorem breaks_jumpFaults :
    against .breakOutsideLoop (jumpFaults returnsVoid part) =
      part.strayBreak?.toList.map (⟨.breakOutsideLoop, ·⟩) := by
  cases returnsVoid <;> simp [jumpFaults, ErrorKind.rule]

theorem continues_jumpFaults :
    against .continueOutsideLoop (jumpFaults returnsVoid part) =
      part.strayContinue?.toList.map (⟨.continueOutsideLoop, ·⟩) := by
  cases returnsVoid <;> simp [jumpFaults, ErrorKind.rule]

theorem values_jumpFaults :
    against .returnValueInVoid (jumpFaults returnsVoid part) =
      if returnsVoid then part.valueReturn?.toList.map (⟨.returnValueInVoid, ·⟩) else [] := by
  cases returnsVoid <;> simp [jumpFaults, ErrorKind.rule]

theorem bare_jumpFaults :
    against .missingReturnValue (jumpFaults returnsVoid part) =
      if ¬ returnsVoid then part.bareReturn?.toList.map (⟨.missingReturnValue, ·⟩) else [] := by
  cases returnsVoid <;> simp [jumpFaults, ErrorKind.rule]

end

theorem flatMap_picked (kind : ErrorKind) (pick : Stmt.Part → Option Span)
    (functions : List FunctionDecl) :
    (functions.flatMap fun decl => decl.parts.flatMap fun part =>
        (pick part).toList.map (Error.mk kind)) =
      (functions.flatMap (·.parts.filterMap pick)).map (Error.mk kind) := by
  simp [List.map_flatMap, List.filterMap_eq_flatMap_toList]

/-- What is picked only in functions of one sort is picked in all functions of that sort. -/
theorem flatMap_picked_ite (kind : ErrorKind) (pick : Stmt.Part → Option Span)
    (sort : FunctionDecl → Prop) [DecidablePred sort] (functions : List FunctionDecl) :
    (functions.flatMap fun decl => decl.parts.flatMap fun part =>
        if sort decl then (pick part).toList.map (Error.mk kind) else []) =
      ((functions.filter sort).flatMap (·.parts.filterMap pick)).map (Error.mk kind) := by
  rw [← flatMap_picked, ← flatMap_ite]
  congr 1
  funext decl
  by_cases here : sort decl <;> simp [here]

section

variable (g : Globals)

theorem selfFaults_none :
    selfFaults none = fun e => e.self?.toList.map (⟨.thisOutsideClass, ·⟩) := by
  funext e
  unfold selfFaults
  cases e.self? <;> rfl

@[simp] theorem selfFaults_some (decl : ClassDecl) (e : Expr) :
    selfFaults (some decl) e = [] := by
  simp [selfFaults]

theorem selfs_variableFaults (enclosing : Option ClassDecl) (decl : VariableDecl) :
    against .thisOutsideClass (variableFaults g enclosing decl) =
      decl.exprs.flatMap (selfFaults enclosing) := by
  simp [variableFaults, exprFaults]

theorem selfs_functionFaults (enclosing : Option ClassDecl) (decl : FunctionDecl) :
    against .thisOutsideClass (functionFaults g enclosing decl) =
      decl.exprs.flatMap (selfFaults enclosing) := by
  simp [functionFaults, partFaults, exprFaults, FunctionDecl.exprs, List.flatMap_assoc,
    @against_jumpFaults .thisOutsideClass rfl]

theorem selfs_itemFaults (d : Declaration) :
    against .thisOutsideClass (itemFaults g d) = d.freeExprs.flatMap (selfFaults none) := by
  cases d with
  | ofClass decl =>
    rw [against_classFaults rfl (by decide)]
    apply List.flatMap_eq_nil_iff.mpr
    intro m _
    cases m with
    | field field => simp [memberFaults, selfs_variableFaults]
    | method method => simp [memberFaults, selfs_functionFaults]
  | ofFunction decl => exact selfs_functionFaults g none decl
  | ofVariable decl => exact selfs_variableFaults g none decl

theorem selfs_treeFaults (tree : Tree) :
    against .thisOutsideClass (treeFaults tree) =
      (tree.freeExprs.filterMap Expr.self?).map (⟨.thisOutsideClass, ·⟩) := by
  simp [treeFaults, selfs_itemFaults, selfFaults_none, Tree.freeExprs,
    List.filterMap_eq_flatMap_toList, List.flatMap_assoc, List.map_flatMap]

end

section

variable (g : Globals)

theorem types_exprs (exprs : List Expr) :
    exprs.flatMap (fun e => e.newType?.toList.flatMap (typeFaults g)) =
      (exprs.filterMap Expr.newType?).flatMap (typeFaults g) := by
  rw [List.filterMap_eq_flatMap_toList, List.flatMap_assoc]

theorem types_variableFaults (enclosing : Option ClassDecl) (decl : VariableDecl) :
    against .unknownType (variableFaults g enclosing decl) =
      decl.types.flatMap (typeFaults g) := by
  simp [variableFaults, exprFaults, VariableDecl.types, types_exprs]

theorem types_functionFaults (enclosing : Option ClassDecl) (decl : FunctionDecl) :
    against .unknownType (functionFaults g enclosing decl) =
      decl.types.flatMap (typeFaults g) := by
  simp [functionFaults, partFaults, exprFaults, FunctionDecl.types, Stmt.types, types_exprs,
    List.flatMap_assoc, List.flatMap_map, @against_jumpFaults .unknownType rfl]

theorem types_itemFaults (d : Declaration) :
    against .unknownType (itemFaults g d) = d.types.flatMap (typeFaults g) := by
  cases d with
  | ofClass decl =>
    rw [against_classFaults rfl (by decide), Declaration.types, List.flatMap_assoc]
    congr 1
    funext m
    cases m with
    | field field => exact types_variableFaults g (some decl) field
    | method method => exact types_functionFaults g (some decl) method
  | ofFunction decl => exact types_functionFaults g none decl
  | ofVariable decl => exact types_variableFaults g none decl

theorem typeFaults_eq (tree : Tree) (type : TypeRef) :
    typeFaults (globals tree).1 type = type.named?.toList.flatMap fun use =>
      if ¬ tree.KnowsType use.1 then [⟨.unknownType use.1, use.2⟩] else [] := by
  obtain ⟨name, arrayDepth, span⟩ := type
  cases name with
  | named name => simp [typeFaults, TypeRef.named?, knowsType_iff]
  | primitive | inferred => rfl

theorem types_treeFaults (tree : Tree) :
    against .unknownType (treeFaults tree) =
      ((tree.types.filterMap TypeRef.named?).filter (¬ tree.KnowsType ·.1)).map
        fun use => ⟨.unknownType use.1, use.2⟩ := by
  have listed : against .unknownType (treeFaults tree) =
      tree.types.flatMap (typeFaults (globals tree).1) := by
    simp [treeFaults, types_itemFaults, Tree.types, List.flatMap_assoc]
  rw [listed, ← flatMap_singleton_ite, List.filterMap_eq_flatMap_toList, List.flatMap_assoc]
  congr 1
  funext type
  exact typeFaults_eq tree type

end

theorem check_context (tree : Tree) : ContextRules tree (check tree) where
  breaks := by
    apply (against_check tree (by decide) (by decide)).trans
    rw [jumps_treeFaults rfl]
    simp only [breaks_jumpFaults]
    rw [flatMap_picked]
  continues := by
    apply (against_check tree (by decide) (by decide)).trans
    rw [jumps_treeFaults rfl]
    simp only [continues_jumpFaults]
    rw [flatMap_picked]
  values := by
    apply (against_check tree (by decide) (by decide)).trans
    rw [jumps_treeFaults rfl]
    simp only [values_jumpFaults, isVoid_iff]
    rw [flatMap_picked_ite]
  bare := by
    apply (against_check tree (by decide) (by decide)).trans
    rw [jumps_treeFaults rfl]
    simp only [bare_jumpFaults, isVoid_iff]
    rw [flatMap_picked_ite]
  selfs := by
    apply (against_check tree (by decide) (by decide)).trans
    rw [selfs_treeFaults]
  types := by
    apply (against_check tree (by decide) (by decide)).trans
    rw [types_treeFaults]

end Scope

end CherryLang
