import CherryLang.Proofs.Scope.Reports

namespace CherryLang.Scope

/-- The declaration at `place`, if the scope has its name already; the first one counts. -/
def repeatAt? (scope : ScopeDecls) : (String × Binding) × Nat → Option Error
  | ((name, binding), place) => ((scope.take place).lookup name).map fun first =>
    ⟨.duplicateDeclaration name first.span, binding.span⟩

def repeats (scope : ScopeDecls) : List Error := scope.zipIdx.filterMap (repeatAt? scope)

theorem clashes_behind {names : Names} {earlier : ScopeDecls}
    (known : ∀ name, names.lookup name = earlier.lookup name) (later : ScopeDecls) :
    clashes names later =
      (later.zipIdx earlier.length).filterMap (repeatAt? (earlier ++ later)) := by
  induction later generalizing names earlier with
  | nil => rfl
  | cons entry later ih =>
    obtain ⟨name, binding⟩ := entry
    have next : ∀ other, (declare names name binding).1.lookup other =
        (earlier ++ [(name, binding)]).lookup other := by
      intro other
      rw [lookup_declare, List.lookup_append, known]
    have rest := ih next
    have here : repeatAt? (earlier ++ (name, binding) :: later) ((name, binding), earlier.length) =
        (earlier.lookup name).map fun first =>
          ⟨.duplicateDeclaration name first.span, binding.span⟩ := by
      simp only [repeatAt?, List.take_left]
    rw [List.append_assoc, List.singleton_append, List.length_append, List.length_singleton] at rest
    rw [clashes_cons, rest, List.zipIdx_cons, List.filterMap_cons, here]
    cases first : earlier.lookup name with
    | none => simp [declare, known, first]
    | some previous => simp [declare, known, first]

theorem clashes_eq_repeats (scope : ScopeDecls) : clashes [] scope = repeats scope :=
  @clashes_behind [] [] (fun _ => rfl) scope

section

variable (g : Globals)

theorem duplicates_functionFaults (enclosing : Option ClassDecl) (decl : FunctionDecl) :
    against .duplicateDeclaration (functionFaults g enclosing decl) =
      decl.scopes.flatMap (clashes []) := by
  have parts : ∀ part, against .duplicateDeclaration
      (partFaults g enclosing decl.returnType.isVoid part) =
        part.stmt.scopes.flatMap (clashes []) := by
    intro part
    simp [partFaults, exprFaults, @against_jumpFaults .duplicateDeclaration rfl]
  simp [functionFaults, FunctionDecl.scopes, parts, List.flatMap_assoc]

theorem duplicates_memberFaults (enclosing : Option ClassDecl) (m : Member) :
    against .duplicateDeclaration (memberFaults g enclosing m) = m.scopes.flatMap (clashes []) := by
  cases m with
  | field decl => simp [memberFaults, variableFaults, exprFaults, Member.scopes]
  | method decl => exact duplicates_functionFaults g enclosing decl

theorem duplicates_itemFaults (d : Declaration) :
    against .duplicateDeclaration (itemFaults g d) = d.scopes.flatMap (clashes []) := by
  cases d with
  | ofClass decl =>
    simp [itemFaults, Declaration.scopes, @against_baseFaults .duplicateDeclaration rfl,
      duplicates_memberFaults, List.flatMap_assoc]
  | ofFunction decl => exact duplicates_functionFaults g none decl
  | ofVariable decl => simp [itemFaults, variableFaults, exprFaults, Declaration.scopes]

end

/-- In each scope of a file a duplicate is reported once at every declaration of a name that this
scope has already, with the place of the first one, and nowhere else. Another declaration of the
name around the scope or beside it does not count. -/
theorem check_duplicates (tree : Tree) :
    (against .duplicateDeclaration (check tree)).Perm (tree.scopes.flatMap repeats) := by
  have faults : against .duplicateDeclaration (treeFaults tree) =
      tree.scopes.flatMap (clashes []) := by
    simp [treeFaults, Tree.scopes, duplicates_itemFaults, List.flatMap_assoc]
  rw [← funext clashes_eq_repeats, ← faults]
  exact against_check tree (by decide) (by decide)

end CherryLang.Scope
