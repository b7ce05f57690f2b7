import CherryLang.Proofs.Scope.Chain

namespace CherryLang

def Meaning.binding : Meaning → Binding
  | .ofVariable decl => decl.toBinding
  | .ofParam param => { span := param.span }
  | .ofFunction decl => { span := decl.span }
  | .ofClass decl => { span := decl.span }
  | .ofImport i => { span := i.span }

theorem Meaning.isConst_binding (meaning : Meaning) :
    meaning.binding.isConst = meaning.isConst := by
  cases meaning <;> rfl

theorem Member.binding_meaning (member : Member) : member.meaning.binding = member.toBinding := by
  cases member <;> rfl

namespace Scope

theorem lookup_map {α β : Type} (f : α → β) (names : List (String × α)) (name : String) :
    (names.map fun entry => (entry.1, f entry.2)).lookup name = (names.lookup name).map f := by
  induction names with
  | nil => rfl
  | cons entry names ih =>
    obtain ⟨key, value⟩ := entry
    simp only [List.map_cons, List.lookup_cons, ih]
    cases name == key <;> rfl

theorem lookup_cons_ne {name other : String} (different : other ≠ name) (binding : Binding)
    (names : Names) : ((name, binding) :: names).lookup other = names.lookup other := by
  have unequal : (other == name) = false := by simpa using different
  simp only [List.lookup_cons, unequal]

theorem lookup_declare (names : Names) (name other : String) (binding : Binding) :
    (declare names name binding).1.lookup other =
      (names.lookup other).or ([(name, binding)].lookup other) := by
  unfold declare
  by_cases same : other = name
  · subst same
    cases known : names.lookup other with
    | some previous => simp [known]
    | none => simp
  · rw [lookup_cons_ne same, List.lookup_nil, Option.or_none]
    split
    · rfl
    · exact lookup_cons_ne same binding names

theorem lookup_declareAll (names : Names) (errors : Array Error)
    (entries : List (String × Binding)) (name : String) :
    (declareAll names errors entries).1.lookup name =
      (names.lookup name).or (entries.lookup name) := by
  induction entries generalizing names errors with
  | nil => simp [declareAll]
  | cons entry entries ih =>
    rw [declareAll, ih, lookup_declare, Option.or_assoc, ← List.lookup_append]
    rfl

section

variable (tree : Tree)

theorem class?_globals (name : String) : (globals tree).1.class? name = tree.class? name :=
  find?_firstClasses tree name

theorem memberIn?_globals (name : String) (steps : Nat) (decl : ClassDecl) :
    (globals tree).1.memberIn? name steps decl =
      (inherited? tree name steps decl).map (·.meaning.binding) := by
  induction steps generalizing decl with
  | zero => rfl
  | succ steps ih =>
    have climb : decl.base.bind ((globals tree).1.class? ·.text) = parent? tree decl := by
      simp only [class?_globals, parent?]
    simp only [Globals.memberIn?, inherited?, climb]
    cases own : ownMember? name decl with
    | some member =>
      unfold ownMember? at own
      simp [own, Member.binding_meaning]
    | none =>
      unfold ownMember? at own
      cases parent? tree decl with
      | none => simp [own]
      | some parent => simp [own, ih parent]

theorem lookup_globals (name : String) :
    (globals tree).1.names.lookup name = (tree.meanings.lookup name).map Meaning.binding := by
  have entries : fileNames tree = tree.meanings.map fun entry => (entry.1, entry.2.binding) := by
    simp only [fileNames, Tree.meanings, List.map_append, List.map_map]
    congr 2
    funext item
    cases item <;> rfl
  simp only [globals]
  rw [lookup_declareAll, entries, lookup_map]
  rfl

def nearest? (v : Visible) (name : String) : Option Meaning :=
  (v.blocks.findSome? (·.lookup name)).or
    (((v.enclosing.bind (inherited? tree name ((firstClasses tree).length + 1))).map
      Member.meaning).or (tree.meanings.lookup name))

theorem nearest?_eq_some_iff {v : Visible} {name : String} {meaning : Meaning} :
    nearest? tree v name = some meaning ↔ tree.Nearest v name meaning := by
  unfold nearest?
  constructor
  · intro found
    obtain inBlock | ⟨outside, found⟩ := Option.or_eq_some_iff.mp found
    · exact .inBlock inBlock
    obtain inClass | ⟨missing, inFile⟩ := Option.or_eq_some_iff.mp found
    · obtain ⟨member, search, rfl⟩ := Option.map_eq_some_iff.mp inClass
      obtain ⟨decl, enclosing, search⟩ := Option.bind_eq_some_iff.mp search
      exact .inClass outside enclosing (inherited?_eq_some_iff.mp search)
    · refine .inFile outside ?_ inFile
      intro decl member enclosing has
      simp [enclosing, inherited?_eq_some_iff.mpr has] at missing
  · intro near
    cases near with
    | inBlock found => simp [found]
    | inClass outside enclosing has =>
      simp [outside, enclosing, inherited?_eq_some_iff.mpr has]
    | inFile outside missing found =>
      cases enclosing : v.enclosing with
      | none => simp [outside, found]
      | some decl =>
        cases search : inherited? tree name ((firstClasses tree).length + 1) decl with
        | none => simp [outside, search, found]
        | some member =>
          exact absurd (inherited?_eq_some_iff.mp search) (missing decl member enclosing)

end

end Scope

end CherryLang
