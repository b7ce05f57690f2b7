import CherryLang.Proofs.Scope.Frame

/-! The order of a file does not matter. If no two of its imports and items have the same name then
its tables answer alike in every order, and since no item leaves anything behind for the next one,
the same errors are found. If two have the same name, that alone is an error in every order. -/
namespace CherryLang

def Tree.names (tree : Tree) : List String :=
  tree.imports.map (·.binding) ++ tree.items.map (·.name)

namespace Scope

/-- Tables that give the same answers. Chains of bases may be equally long in both. -/
structure Globals.Alike (g g' : Globals) : Prop where
  names : ∀ name, g.names.lookup name = g'.names.lookup name
  classes : ∀ name, g.class? name = g'.class? name
  chains : g.classes.length = g'.classes.length
  imports : ∀ name, g.imports.contains name = g'.imports.contains name

namespace Globals.Alike

variable {g g' : Globals}

theorem knowsType (alike : g.Alike g') (name : String) : g.knowsType name = g'.knowsType name := by
  simp only [Globals.knowsType, alike.classes, alike.imports]

theorem reaches (alike : g.Alike g') (target : String) (steps : Nat) (name : String) :
    g.reaches target steps name = g'.reaches target steps name := by
  induction steps generalizing name with
  | zero => rfl
  | succ steps ih => simp only [Globals.reaches, alike.classes, ih]

theorem inherits (alike : g.Alike g') (name target : String) :
    g.inherits name target = g'.inherits name target := by
  simp only [Globals.inherits, alike.chains, alike.reaches]

theorem memberIn? (alike : g.Alike g') (name : String) (steps : Nat) (decl : ClassDecl) :
    g.memberIn? name steps decl = g'.memberIn? name steps decl := by
  induction steps generalizing decl with
  | zero => rfl
  | succ steps ih =>
    have above : g.memberIn? name steps = g'.memberIn? name steps := funext ih
    simp only [Globals.memberIn?, alike.classes, above]

theorem resolve (alike : g.Alike g') (w : Walk) (name : String) :
    w.resolve g name = w.resolve g' name := by
  simp only [Walk.resolve, Globals.member?, alike.chains, alike.memberIn?, alike.names]

theorem checkType (alike : g.Alike g') (type : TypeRef) : checkType g type = checkType g' type := by
  funext w
  simp only [Scope.checkType, alike.knowsType]

theorem checkMutation (alike : g.Alike g') (target : Expr) :
    checkMutation g target = checkMutation g' target := by
  funext w
  simp only [Scope.checkMutation, alike.resolve]

mutual

theorem checkExpr (alike : g.Alike g') : ∀ e : Expr, checkExpr g e = checkExpr g' e
  | .literal .. | .null _ | .self _ => by
    funext w
    simp only [Scope.checkExpr]
  | .name _ _ => by
    funext w
    simp only [Scope.checkExpr, alike.resolve]
  | .unary _ _ operand | .step _ _ operand | .member _ operand _ => by
    funext w
    simp only [Scope.checkExpr, alike.checkMutation, alike.checkExpr operand]
  | .binary _ _ lhs rhs | .assign _ _ lhs rhs | .index _ lhs rhs => by
    funext w
    simp only [Scope.checkExpr, alike.checkMutation, alike.checkExpr lhs, alike.checkExpr rhs]
  | .call _ callee args => by
    funext w
    simp only [Scope.checkExpr, alike.checkExpr callee, alike.checkExprs args]
  | .math _ _ args | .new _ _ args => by
    funext w
    simp only [Scope.checkExpr, alike.checkType, alike.checkExprs args]

theorem checkExprs (alike : g.Alike g') : ∀ es : List Expr, checkExprs g es = checkExprs g' es
  | [] => rfl
  | e :: rest => by
    funext w
    simp only [Scope.checkExprs, alike.checkExpr e, alike.checkExprs rest]

end

theorem checkExpr? (alike : g.Alike g') (e? : Option Expr) :
    checkExpr? g e? = checkExpr? g' e? := by
  funext w
  cases e? with
  | none => rfl
  | some e => simp only [Scope.checkExpr?, alike.checkExpr]

theorem checkVariable (alike : g.Alike g') (decl : VariableDecl) :
    checkVariable g decl = checkVariable g' decl := by
  funext w
  simp only [Scope.checkVariable, alike.checkType, alike.checkExpr?]

mutual

theorem checkStmt (alike : g.Alike g') : ∀ s : Stmt, checkStmt g s = checkStmt g' s
  | .block _ statements => by
    funext w
    simp only [Scope.checkStmt, alike.checkStmts statements]
  | .declare decl => by
    funext w
    simp only [Scope.checkStmt, alike.checkVariable]
  | .branch _ _ onTrue none => by
    funext w
    simp only [Scope.checkStmt, alike.checkExpr, alike.checkStmt onTrue]
  | .branch _ _ onTrue (some onFalse) => by
    funext w
    simp only [Scope.checkStmt, alike.checkExpr, alike.checkStmt onTrue, alike.checkStmt onFalse]
  | .whileLoop _ _ body | .doLoop _ body _ => by
    funext w
    simp only [Scope.checkStmt, alike.checkExpr, alike.checkStmt body]
  | .forLoop _ none _ _ body => by
    funext w
    simp only [Scope.checkStmt, alike.checkExpr?, alike.checkStmt body]
  | .forLoop _ (some init) _ _ body => by
    funext w
    simp only [Scope.checkStmt, alike.checkExpr?, alike.checkStmt init, alike.checkStmt body]
  | .ret _ _ => by
    funext w
    simp only [Scope.checkStmt, alike.checkExpr?]
  | .breakLoop _ | .continueLoop _ => by
    funext w
    simp only [Scope.checkStmt]
  | .eval e => by
    funext w
    simp only [Scope.checkStmt, alike.checkExpr]

theorem checkStmts (alike : g.Alike g') :
    ∀ statements : List Stmt, checkStmts g statements = checkStmts g' statements
  | [] => rfl
  | s :: rest => by
    funext w
    simp only [Scope.checkStmts, alike.checkStmt s, alike.checkStmts rest]

end

theorem checkParams (alike : g.Alike g') (params : List Param) (names : Names) (w : Walk) :
    checkParams g names params w = checkParams g' names params w := by
  induction params generalizing names w with
  | nil => rfl
  | cons p params ih => simp only [Scope.checkParams, alike.checkType, ih]

theorem checkFunction (alike : g.Alike g') (decl : FunctionDecl) :
    checkFunction g decl = checkFunction g' decl := by
  funext w
  simp only [Scope.checkFunction, alike.checkType, alike.checkParams, alike.checkStmts]

theorem checkMember (alike : g.Alike g') : checkMember g = checkMember g' := by
  funext w m
  cases m with
  | field decl => simp only [Scope.checkMember, alike.checkVariable]
  | method decl => simp only [Scope.checkMember, alike.checkFunction]

theorem checkClass (alike : g.Alike g') (decl : ClassDecl) :
    checkClass g decl = checkClass g' decl := by
  funext w
  simp only [Scope.checkClass, checkBase, alike.inherits, alike.knowsType, alike.checkMember]

theorem itemFindings (alike : g.Alike g') : itemFindings g = itemFindings g' := by
  funext d
  cases d with
  | ofClass decl => simp only [Scope.itemFindings, checkDeclaration, alike.checkClass]
  | ofFunction decl => simp only [Scope.itemFindings, checkDeclaration, alike.checkFunction]
  | ofVariable decl => simp only [Scope.itemFindings, checkDeclaration, alike.checkVariable]

end Globals.Alike

section

variable {α : Type} {key : α → String} {items items' : List α}

theorem find?_perm (perm : items.Perm items') (distinct : (items.map key).Nodup) (name : String) :
    items.find? (key · == name) = items'.find? (key · == name) := by
  induction perm with
  | nil => rfl
  | cons a _ ih =>
    rw [List.map_cons, List.nodup_cons] at distinct
    rw [List.find?_cons, List.find?_cons, ih distinct.2]
  | swap a b items =>
    have different : key b ≠ key a := by
      rw [List.map_cons, List.nodup_cons] at distinct
      exact fun same => distinct.1 (same ▸ .head _)
    by_cases first : key a = name
    · simp [first, first ▸ different]
    · simp [List.find?_cons, first]
  | trans first _ ih ih' => exact (ih distinct).trans (ih' ((first.map key).nodup distinct))

end

theorem lookup_eq_find? {α : Type} (entries : List (String × α)) (name : String) :
    entries.lookup name = (entries.find? (·.1 == name)).map (·.2) := by
  induction entries with
  | nil => rfl
  | cons entry entries ih =>
    obtain ⟨key, value⟩ := entry
    rw [List.lookup_cons, List.find?_cons, ih, BEq.comm]
    cases key == name <;> rfl

theorem foldl_keepFirst {classes found : List ClassDecl}
    (distinct : (found.map (·.name) ++ classes.map (·.name)).Nodup) :
    classes.foldl keepFirst found = classes.reverse ++ found := by
  induction classes generalizing found with
  | nil => rfl
  | cons decl classes ih =>
    have order : (found.map (·.name) ++ (decl :: classes).map (·.name)).Perm
        ((decl :: found).map (·.name) ++ classes.map (·.name)) := List.perm_middle
    have rest := order.nodup distinct
    have new : found.any (·.name == decl.name) = false := by
      rw [List.map_cons, List.cons_append, List.nodup_cons] at rest
      rw [List.any_eq_false]
      intro earlier member same
      have known := List.mem_map_of_mem (f := (·.name)) member
      exact rest.1 (List.mem_append_left _ (eq_of_beq same ▸ known))
    rw [List.foldl_cons, keepFirst, new, if_neg Bool.false_ne_true, ih rest]
    simp

theorem firstClasses_of_distinct {tree : Tree} (distinct : (tree.classes.map (·.name)).Nodup) :
    firstClasses tree = tree.classes := by
  have all := @foldl_keepFirst tree.classes [] distinct
  rw [List.append_nil] at all
  exact (congrArg List.reverse all).trans (List.reverse_reverse _)

theorem errors_declareAll_eq_nil_iff (names : Names) (entries : List (String × Binding)) :
    (declareAll names #[] entries).2.toList = [] ↔
      (entries.map (·.1)).Nodup ∧ ∀ name ∈ entries.map (·.1), names.lookup name = none := by
  induction entries generalizing names with
  | nil => simp [declareAll]
  | cons entry entries ih =>
    obtain ⟨name, binding⟩ := entry
    rw [declareAll, errors_declareAll, Array.toList_appendList, Array.toList_appendList,
      Array.toList_empty, List.nil_append, List.append_eq_nil_iff, ih]
    cases known : names.lookup name with
    | some previous =>
      constructor
      · rintro ⟨reported, -⟩
        simp [declare, known] at reported
      · rintro ⟨-, new⟩
        cases known.symm.trans (new name (.head _))
    | none =>
      have others : ∀ other, ((name, binding) :: names).lookup other = none ↔
          other ≠ name ∧ names.lookup other = none := by
        intro other
        by_cases same : other = name
        · simp [same]
        · rw [lookup_cons_ne same, and_iff_right same]
      simp only [declare, known, others, List.map_cons, List.nodup_cons, List.forall_mem_cons,
        true_and]
      constructor
      · rintro ⟨distinct, new⟩
        exact ⟨⟨fun member => (new name member).1 rfl, distinct⟩, fun other member =>
          (new other member).2⟩
      · rintro ⟨⟨fresh, distinct⟩, new⟩
        refine ⟨distinct, fun other member => ⟨?_, new other member⟩⟩
        rintro rfl
        exact fresh member

theorem map_fst_fileNames (tree : Tree) : (fileNames tree).map (·.1) = tree.names := by
  simp [fileNames, Tree.names, Function.comp_def]

theorem errors_globals_eq_nil_iff (tree : Tree) :
    (globals tree).2.toList = [] ↔ tree.names.Nodup := by
  rw [← map_fst_fileNames]
  exact (errors_declareAll_eq_nil_iff [] (fileNames tree)).trans (by simp)

theorem names_classes_sublist (tree : Tree) :
    (tree.classes.map (·.name)).Sublist (tree.items.map (·.name)) := by
  unfold Tree.classes
  induction tree.items with
  | nil => exact .slnil
  | cons item items ih =>
    cases item with
    | ofClass decl => exact ih.cons_cons decl.name
    | ofFunction decl => exact ih.cons decl.name
    | ofVariable decl => exact ih.cons decl.name

section

variable {tree tree' : Tree} (imports : tree.imports.Perm tree'.imports)
  (items : tree.items.Perm tree'.items)
include imports items

theorem names_perm : tree.names.Perm tree'.names :=
  (imports.map _).append (items.map _)

theorem globals_alike (distinct : tree.names.Nodup) :
    (globals tree).1.Alike (globals tree').1 := by
  have classes : tree.classes.Perm tree'.classes := items.filterMap _
  have entries : (fileNames tree).Perm (fileNames tree') := (imports.map _).append (items.map _)
  have distinctClasses : (tree.classes.map (·.name)).Nodup :=
    (distinct.sublist (List.sublist_append_right _ _)).sublist (names_classes_sublist tree)
  constructor
  case names =>
    intro name
    rw [← map_fst_fileNames] at distinct
    simp only [globals, lookup_declareAll, lookup_eq_find? (fileNames _),
      find?_perm entries distinct]
  case classes =>
    intro name
    rw [class?_globals, class?_globals]
    exact find?_perm classes distinctClasses name
  case chains =>
    show (firstClasses tree).length = (firstClasses tree').length
    rw [firstClasses_of_distinct distinctClasses,
      firstClasses_of_distinct ((classes.map _).nodup distinctClasses), classes.length_eq]
  case imports =>
    intro name
    rw [Bool.eq_iff_iff, List.contains_iff_mem, List.contains_iff_mem]
    exact (imports.map _).mem_iff

theorem check_perm_of_distinct (distinct : tree.names.Nodup) :
    (check tree).Perm (check tree') := by
  have distinct' := (names_perm imports items).nodup distinct
  have found : (findings tree).Perm (findings tree') := by
    rw [findings_eq, findings_eq, (errors_globals_eq_nil_iff tree).mpr distinct,
      (errors_globals_eq_nil_iff tree').mpr distinct',
      (globals_alike imports items distinct).itemFindings]
    exact items.flatMap_right _
  exact (check_perm_findings tree).trans (found.trans (check_perm_findings tree').symm)

theorem check_eq_nil_of_perm (accepted : check tree = []) : check tree' = [] := by
  have none : findings tree = [] := List.nil_perm.mp (accepted ▸ check_perm_findings tree)
  rw [findings_eq, List.append_eq_nil_iff, errors_globals_eq_nil_iff] at none
  have same := check_perm_of_distinct imports items none.1
  rw [accepted] at same
  exact List.nil_perm.mp same

end

/-- A file whose imports and items all have different names is checked with the same errors in every
order of its imports and of its items, and any file is accepted in all orders or in none. -/
theorem check_order {tree tree' : Tree} (imports : tree.imports.Perm tree'.imports)
    (items : tree.items.Perm tree'.items) :
    (tree.names.Nodup → (check tree).Perm (check tree')) ∧
      (check tree = [] ↔ check tree' = []) :=
  ⟨check_perm_of_distinct imports items, check_eq_nil_of_perm imports items,
    check_eq_nil_of_perm imports.symm items.symm⟩

/-- On one line each: two imports, `const B b = x;`, `class B extends C { }` and
`class C extends B { void f() { b = null; } }`. -/
def tangledTree : Tree where
  file := {}
  imports := [⟨["io"], ⟨1, 1⟩⟩, ⟨["lib", "List"], ⟨1, 12⟩⟩]
  items := [.ofVariable ⟨[.const], ⟨.named "B", 0, ⟨2, 7⟩⟩, "b", some (.name ⟨2, 13⟩ "x"), ⟨2, 1⟩⟩,
    .ofClass ⟨[], .classWord, "B", some ⟨"C", ⟨3, 17⟩⟩, [], ⟨3, 1⟩⟩,
    .ofClass ⟨[], .classWord, "C", some ⟨"B", ⟨4, 17⟩⟩,
      [.method ⟨[], ⟨.primitive .void, 0, ⟨4, 21⟩⟩, "f", [],
        ⟨[.eval (.assign ⟨4, 32⟩ .set (.name ⟨4, 32⟩ "b") (.null ⟨4, 36⟩))], ⟨4, 30⟩⟩,
        ⟨4, 21⟩⟩], ⟨4, 1⟩⟩]

def tangledBackwards : Tree :=
  ⟨{}, tangledTree.imports.reverse, tangledTree.items.reverse⟩

theorem check_order_tangled :
    tangledTree.names.Nodup ∧
      (findings tangledBackwards).map (·.kind) =
        [.cyclicInheritance "C", .assignToConst "b", .cyclicInheritance "B", .undeclaredName "x"] ∧
      (check tangledTree).Perm (check tangledBackwards) ∧
      (check tangledTree = [] ↔ check tangledBackwards = []) := by
  have distinct : tangledTree.names.Nodup := by decide
  have orders := @check_order tangledTree tangledBackwards
    (List.reverse_perm _).symm (List.reverse_perm _).symm
  exact ⟨distinct, by decide, orders.1 distinct, orders.2⟩

end Scope

end CherryLang
