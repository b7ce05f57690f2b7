import CherryLang.Proofs.Scope.Reports
import Mathlib.Logic.Relation

/-! Chains of bases. The search along them is cut off by the number of classes, but what a chain
reaches it reaches before that, so that a class is found to be circular exactly if it is. -/
namespace CherryLang

/-- The first class called `name` has a base called `base`. -/
def Tree.Extends (tree : Tree) (name base : String) : Prop :=
  ∃ decl parent, tree.class? name = some decl ∧ decl.base = some parent ∧ parent.text = base

namespace Scope

section

variable {α : Type} {next : α → Option α} {a b : α}

theorem exists_iterate_iff :
    (∃ n, iterate next n a = some b) ↔
      Relation.ReflTransGen (fun a b => next a = some b) a b := by
  constructor
  · rintro ⟨n, leads⟩
    induction n generalizing a with
    | zero =>
      cases leads
      exact .refl
    | succ n ih =>
      obtain ⟨c, step, later⟩ := Option.bind_eq_some_iff.mp leads
      exact .head step (ih later)
  · intro chain
    induction chain using Relation.ReflTransGen.head_induction_on with
    | refl => exact ⟨0, rfl⟩
    | head step _ ih =>
      obtain ⟨n, leads⟩ := ih
      exact ⟨n + 1, by simp [iterate, step, leads]⟩

end

section

variable (tree : Tree)

def baseName? (name : String) : Option String :=
  ((tree.class? name).bind (·.base)).map (·.text)

theorem baseName?_eq_some_iff (name base : String) :
    baseName? tree name = some base ↔ tree.Extends name base := by
  simp only [baseName?, Tree.Extends, Option.map_eq_some_iff, Option.bind_eq_some_iff]
  constructor
  · rintro ⟨parent, ⟨decl, known, bases⟩, same⟩
    exact ⟨decl, parent, known, bases, same⟩
  · rintro ⟨decl, parent, known, bases, same⟩
    exact ⟨parent, ⟨decl, known, bases⟩, same⟩

theorem reaches_iff (target : String) (steps : Nat) (name : String) :
    (globals tree).1.reaches target steps name = true ↔
      ∃ n < steps, iterate (baseName? tree) (n + 1) name = some target := by
  induction steps generalizing name with
  | zero => simp [Globals.reaches]
  | succ steps ih =>
    simp only [Globals.reaches, class?_globals]
    cases based : (tree.class? name).bind (·.base) with
    | none => simp [iterate, baseName?, based]
    | some base =>
      have first : ∀ n, iterate (baseName? tree) (n + 1) name =
          iterate (baseName? tree) n base.text := by
        intro n
        simp [iterate, baseName?, based]
      simp only [Bool.or_eq_true, beq_iff_eq, ih, first]
      constructor
      · rintro (here | ⟨n, before, leads⟩)
        · exact ⟨0, Nat.succ_pos steps, congrArg some here⟩
        · exact ⟨n + 1, Nat.succ_lt_succ before, leads⟩
      · rintro ⟨n, before, leads⟩
        cases n with
        | zero => exact .inl (Option.some.inj leads)
        | succ n => exact .inr ⟨n, Nat.lt_of_succ_lt_succ before, leads⟩

/-- The class is its own base, or it is reached from its base. -/
def Circular (derived : ClassDecl × BaseName) : Prop :=
  Relation.ReflTransGen tree.Extends derived.2.text derived.1.name

/-- The class is not circular, and nothing has the name of its base. -/
def Unfounded (derived : ClassDecl × BaseName) : Prop :=
  ¬ Circular tree derived ∧ ¬ tree.KnowsType derived.2.text

/-- Following bases for as many steps as there are classes, and one more, finds all that there is
to find. -/
theorem inherits_iff (decl : ClassDecl) (base : BaseName) :
    (base.text == decl.name || (globals tree).1.inherits base.text decl.name) = true ↔
      Circular tree (decl, base) := by
  have closed : ∀ a b, baseName? tree a = some b →
      b ∈ (firstClasses tree).filterMap fun decl => decl.base.map (·.text) := by
    intro a b leads
    obtain ⟨decl, parent, known, bases, rfl⟩ := (baseName?_eq_some_iff tree a b).mp leads
    rw [← find?_firstClasses] at known
    exact List.mem_filterMap.mpr ⟨decl, List.mem_of_find?_eq_some known, by simp [bases]⟩
  have steps : (fun a b => baseName? tree a = some b) = tree.Extends := by
    funext a b
    exact propext (baseName?_eq_some_iff tree a b)
  have few := List.length_filterMap_le (fun decl : ClassDecl => decl.base.map (·.text))
    (firstClasses tree)
  unfold Circular
  rw [← steps, ← exists_iterate_iff, Bool.or_eq_true, beq_iff_eq]
  unfold Globals.inherits
  rw [reaches_iff]
  constructor
  · rintro (same | ⟨n, -, leads⟩)
    · exact ⟨0, congrArg some same⟩
    · exact ⟨n + 1, leads⟩
  · rintro ⟨n, leads⟩
    -- A chain longer than there are bases meets one of them twice, and what is between can go.
    obtain ⟨m, bound, leads⟩ := iterate_bounded closed leads
    cases m with
    | zero => exact .inl (Option.some.inj leads)
    | succ m =>
      have enough : m < (firstClasses tree).length + 1 := by omega
      exact .inr ⟨m, enough, leads⟩

instance : DecidablePred (Circular tree) := fun (decl, base) =>
  decidable_of_iff _ (inherits_iff tree decl base)

instance : DecidablePred (Unfounded tree) := fun _ => inferInstanceAs (Decidable (_ ∧ _))

theorem baseFaults_eq (decl : ClassDecl) (base : BaseName) :
    baseFaults (globals tree).1 decl base =
      (if Circular tree (decl, base) then [⟨.cyclicInheritance decl.name, base.span⟩] else []) ++
        if Unfounded tree (decl, base) then [⟨.unknownBaseClass base.text, base.span⟩] else [] := by
  unfold baseFaults
  simp only [inherits_iff, knowsType_iff, Unfounded]
  by_cases circular : Circular tree (decl, base)
  · simp [circular]
  · simp only [circular, if_false, not_false_eq_true, true_and, List.nil_append, ite_not]

theorem against_cyclic_baseFaults (decl : ClassDecl) (base : BaseName) :
    against .cyclicInheritance (baseFaults (globals tree).1 decl base) =
      if Circular tree (decl, base) then [⟨.cyclicInheritance decl.name, base.span⟩] else [] := by
  rw [baseFaults_eq]
  split <;> split <;> rfl

theorem against_unknown_baseFaults (decl : ClassDecl) (base : BaseName) :
    against .unknownBaseClass (baseFaults (globals tree).1 decl base) =
      if Unfounded tree (decl, base) then [⟨.unknownBaseClass base.text, base.span⟩] else [] := by
  rw [baseFaults_eq]
  split <;> split <;> rfl

end

section

variable {rule : Rule} (inherited : rule.isOfBase = true) (g : Globals)
include inherited

theorem bases_functionFaults (enclosing : Option ClassDecl) (decl : FunctionDecl) :
    against rule (functionFaults g enclosing decl) = [] := by
  cases rule with
  | unknownBaseClass =>
    simp [functionFaults, partFaults, exprFaults, @against_jumpFaults .unknownBaseClass rfl]
  | cyclicInheritance =>
    simp [functionFaults, partFaults, exprFaults, @against_jumpFaults .cyclicInheritance rfl]
  | _ => cases inherited

theorem bases_variableFaults (enclosing : Option ClassDecl) (decl : VariableDecl) :
    against rule (variableFaults g enclosing decl) = [] := by
  cases rule with
  | unknownBaseClass | cyclicInheritance => simp [variableFaults, exprFaults]
  | _ => cases inherited

theorem bases_itemFaults (d : Declaration) :
    against rule (itemFaults g d) =
      d.derivation?.toList.flatMap fun (decl, base) => against rule (baseFaults g decl base) := by
  cases d with
  | ofFunction decl => exact bases_functionFaults inherited g none decl
  | ofVariable decl => exact bases_variableFaults inherited g none decl
  | ofClass decl =>
    have members : ∀ m, against rule (memberFaults g (some decl) m) = [] := by
      intro m
      cases m with
      | field field => exact bases_variableFaults inherited g (some decl) field
      | method method => exact bases_functionFaults inherited g (some decl) method
    have unrepeated := Rule.unrepeated_of_isOfBase inherited
    cases based : decl.base with
    | none => simp [itemFaults, Declaration.derivation?, based, members, unrepeated]
    | some base => simp [itemFaults, Declaration.derivation?, based, members, unrepeated]

theorem bases_treeFaults (tree : Tree) :
    against rule (treeFaults tree) =
      tree.derivations.flatMap fun (decl, base) =>
        against rule (baseFaults (globals tree).1 decl base) := by
  have unrepeated := Rule.unrepeated_of_isOfBase inherited
  rw [Tree.derivations, List.filterMap_eq_flatMap_toList, List.flatMap_assoc]
  simp [treeFaults, unrepeated, bases_itemFaults inherited]

end

/-- Circular classes and unknown bases are reported exactly, once for each class at its base. For
the first class of its name to be circular is to lie on a cycle; to lead into one is not enough. -/
theorem check_inheritance (tree : Tree) :
    (against .cyclicInheritance (check tree)).Perm
        ((tree.derivations.filter (Circular tree)).map fun (decl, base) =>
          ⟨.cyclicInheritance decl.name, base.span⟩) ∧
      (against .unknownBaseClass (check tree)).Perm
        ((tree.derivations.filter (Unfounded tree)).map fun (_, base) =>
          ⟨.unknownBaseClass base.text, base.span⟩) ∧
      ∀ decl base, tree.class? decl.name = some decl → decl.base = some base →
        (Circular tree (decl, base) ↔ Relation.TransGen tree.Extends decl.name decl.name) := by
  refine ⟨?_, ?_, ?_⟩
  · apply (against_check tree (by decide) (by decide)).trans
    rw [bases_treeFaults rfl]
    simp only [against_cyclic_baseFaults]
    exact .of_eq (flatMap_singleton_ite tree.derivations (Circular tree) _)
  · apply (against_check tree (by decide) (by decide)).trans
    rw [bases_treeFaults rfl]
    simp only [against_unknown_baseFaults]
    exact .of_eq (flatMap_singleton_ite tree.derivations (Unfounded tree) _)
  · intro decl base first based
    have own : ∀ name, tree.Extends decl.name name ↔ name = base.text := by
      intro name
      constructor
      · rintro ⟨decl', base', known, bases, rfl⟩
        cases first.symm.trans known
        cases based.symm.trans bases
        rfl
      · rintro rfl
        exact ⟨decl, base, first, based, rfl⟩
    rw [Relation.TransGen.head'_iff]
    simp only [own, exists_eq_left]
    rfl

end Scope

end CherryLang
