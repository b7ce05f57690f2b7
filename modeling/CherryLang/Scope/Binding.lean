import CherryLang.Scope.Error
import CherryLang.Syntax.Tree

namespace CherryLang

/-- What a name stands for: where it was declared, and whether it may be assigned. -/
structure Binding where
  span : Span
  isConst : Bool := false
  deriving DecidableEq, Repr

def VariableDecl.toBinding (decl : VariableDecl) : Binding := ⟨decl.span, decl.isConst⟩

def Member.toBinding : Member → Binding
  | .field decl => decl.toBinding
  | .method decl => { span := decl.span }

def Declaration.toBinding : Declaration → Binding
  | .ofVariable decl => decl.toBinding
  | .ofClass decl => { span := decl.span }
  | .ofFunction decl => { span := decl.span }

namespace Scope

/-- The names of one scope; each has one entry. -/
abbrev Names := List (String × Binding)

/-- Declare `name` unless the scope has it already, which is an error at the new declaration. -/
def declare (names : Names) (name : String) (binding : Binding) : Names × List Error :=
  match names.lookup name with
  | some previous => (names, [⟨.duplicateDeclaration name previous.span, binding.span⟩])
  | none => ((name, binding) :: names, [])

def declareAll (names : Names) (errors : Array Error) :
    List (String × Binding) → Names × Array Error
  | [] => (names, errors)
  | (name, binding) :: rest =>
    let (names, new) := declare names name binding
    declareAll names (errors ++ new) rest

structure Globals where
  names : Names
  classes : List ClassDecl
  imports : List String

namespace Globals

def class? (g : Globals) (name : String) : Option ClassDecl :=
  g.classes.find? (·.name == name)

def knowsType (g : Globals) (name : String) : Bool :=
  (g.class? name).isSome || g.imports.contains name

/-- Whether following bases from the class `name` reaches `target` in at most `steps` steps. -/
def reaches (g : Globals) (target : String) : Nat → String → Bool
  | 0, _ => false
  | steps + 1, name =>
    match (g.class? name).bind (·.base) with
    | none => false
    | some base => base.text == target || g.reaches target steps base.text

/-- Whether following bases from the class `name` reaches `target`. A chain with more steps than
there are classes has looped. -/
def inherits (g : Globals) (name target : String) : Bool :=
  g.reaches target (g.classes.length + 1) name

/-- Look `name` up in `decl` and then along its bases, in at most `steps` classes. -/
def memberIn? (g : Globals) (name : String) : Nat → ClassDecl → Option Binding
  | 0, _ => none
  | steps + 1, decl =>
    match decl.members.find? (·.name == name) with
    | some found => some found.toBinding
    | none => (decl.base.bind (g.class? ·.text)).bind (g.memberIn? name steps)

def member? (g : Globals) (decl : ClassDecl) (name : String) : Option Binding :=
  g.memberIn? name (g.classes.length + 1) decl

end Globals

def firstClasses (tree : Tree) : List ClassDecl :=
  (tree.classes.foldl (fun found decl =>
    if found.any (·.name == decl.name) then found else decl :: found) []).reverse

/-- What a file declares: imports in order, then items in order. -/
def fileNames (tree : Tree) : List (String × Binding) :=
  tree.imports.map (fun i => (i.binding, { span := i.span })) ++
    tree.items.map fun item => (item.name, item.toBinding)

def globals (tree : Tree) : Globals × Array Error :=
  let (names, errors) := declareAll [] #[] (fileNames tree)
  (⟨names, firstClasses tree, tree.imports.map (·.binding)⟩, errors)

end Scope

end CherryLang
