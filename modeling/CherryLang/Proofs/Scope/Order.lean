import CherryLang.Proofs.Lexical.Lossless
import CherryLang.Proofs.Scope.Parts
import CherryLang.Proofs.Syntax.Spells

/-! The declarations of a scope are at tokens of its construct, and in the order of these tokens.
Only the scope of the file is in two parts: it has the imports ahead of the items, wherever they
stand. -/
namespace CherryLang

/-- The places are those of some of the tokens, in their order. -/
def Along (spans : List Span) (ts : List Token) : Prop := spans.Sublist (ts.map (·.span))

namespace Along

theorem nil (ts : List Token) : Along [] ts := List.nil_sublist _

theorem mono {spans : List Span} {ts us : List Token} (along : Along spans ts)
    (longer : ts.Sublist us) : Along spans us := along.trans (longer.map _)

theorem append {spans spans' : List Span} {ts us : List Token} (first : Along spans ts)
    (later : Along spans' us) : Along (spans ++ spans') (ts ++ us) := by
  unfold Along
  rw [List.map_append]
  exact List.Sublist.append first later

theorem of_startsAt {span : Span} {ts : List Token} (starts : Syntax.StartsAt span ts) :
    Along [span] ts := by
  cases ts with
  | nil => cases starts
  | cons t ts =>
    cases starts
    exact List.singleton_sublist.mpr List.mem_cons_self

end Along

namespace Scope

def places (scope : ScopeDecls) : List Span := scope.map (·.2.span)

@[simp] theorem places_append (first later : ScopeDecls) :
    places (first ++ later) = places first ++ places later := List.map_append

def AllAlong (scopes : List ScopeDecls) (ts : List Token) : Prop :=
  ∀ scope ∈ scopes, Along (places scope) ts

section

variable {ts us : List Token}

@[simp] theorem allAlong_nil : AllAlong [] ts := nofun

@[simp] theorem allAlong_cons {scope : ScopeDecls} {scopes : List ScopeDecls} :
    AllAlong (scope :: scopes) ts ↔ Along (places scope) ts ∧ AllAlong scopes ts :=
  List.forall_mem_cons

@[simp] theorem allAlong_append {scopes scopes' : List ScopeDecls} :
    AllAlong (scopes ++ scopes') ts ↔ AllAlong scopes ts ∧ AllAlong scopes' ts :=
  List.forall_mem_append

theorem AllAlong.mono {scopes : List ScopeDecls} (along : AllAlong scopes ts)
    (longer : ts.Sublist us) : AllAlong scopes us :=
  fun scope member => (along scope member).mono longer

end

/-- What statements declare where they stand is in the order of the tokens, and so are the scopes
in them. -/
structure InOrder (declared : ScopeDecls) (parts : Bool → List Stmt.Part) (ts : List Token) :
    Prop where
  declared : Along (places declared) ts
  inner : ∀ inLoop, AllAlong ((parts inLoop).flatMap (·.stmt.scopes)) ts

theorem InOrder.mono {declared : ScopeDecls} {parts : Bool → List Stmt.Part} {ts us : List Token}
    (ordered : InOrder declared parts ts) (longer : ts.Sublist us) : InOrder declared parts us :=
  ⟨ordered.declared.mono longer, fun inLoop => (ordered.inner inLoop).mono longer⟩

theorem InOrder.both {declared declared' : ScopeDecls} {parts parts' : Bool → List Stmt.Part}
    {ts : List Token} (first : InOrder declared parts ts) (later : InOrder declared' parts' ts)
    (inLoop inLoop' : Bool) :
    AllAlong ((parts inLoop ++ parts' inLoop').flatMap (·.stmt.scopes)) ts := by
  rw [List.flatMap_append]
  exact allAlong_append.mpr ⟨first.inner inLoop, later.inner inLoop'⟩

abbrev StmtInOrder (s : Stmt) : List Token → Prop := InOrder s.declared (s.parts ·)

theorem InOrder.bareScope {s : Stmt} {ts : List Token} (ordered : StmtInOrder s ts) :
    AllAlong s.bareScope ts := by
  unfold Stmt.bareScope
  split
  · exact allAlong_nil
  · exact allAlong_cons.mpr ⟨ordered.declared, allAlong_nil⟩

open Syntax

theorem inOrder_simple {s : Stmt} {ts : List Token} (spelled : SpellsSimple s ts) :
    StmtInOrder s ts := by
  cases spelled with
  | declare spelled =>
    exact ⟨.of_startsAt spelled.starts, fun _ => by simp [Stmt.parts, Stmt.scopes]⟩
  | eval => exact ⟨.nil _, fun _ => by simp [Stmt.parts, Stmt.scopes]⟩

/-- A statement that holds others declares nothing where it stands. -/
theorem inOrder_compound {s : Stmt} {ts : List Token} {parts : Bool → List Stmt.Part}
    (still : s.declared = []) (own : AllAlong s.scopes ts)
    (inner : ∀ inLoop, AllAlong ((parts inLoop).flatMap (·.stmt.scopes)) ts)
    (parted : ∀ inLoop, s.parts inLoop = ⟨s, inLoop⟩ :: parts inLoop) : StmtInOrder s ts := by
  refine ⟨still ▸ .nil ts, fun inLoop => ?_⟩
  rw [parted, List.flatMap_cons]
  exact allAlong_append.mpr ⟨own, inner inLoop⟩

mutual

theorem inOrder_stmt : ∀ (s : Stmt) {ts : List Token}, SpellsStmt s ts → StmtInOrder s ts
  | .block _ statements, us, spelled => by
    cases spelled with
    | simple spelled => cases spelled
    | @block _ ts left right opens inside closes =>
      have longer : ts.Sublist (left :: (ts ++ [right])) := by simp
      have inner := (inOrder_stmts statements inside).mono longer
      exact inOrder_compound rfl (allAlong_cons.mpr ⟨inner.declared, allAlong_nil⟩) inner.inner
        fun _ => by rw [Stmt.parts]
  | .declare _, us, spelled => by
    cases spelled with
    | simple spelled => exact inOrder_simple spelled
  | .branch _ _ onTrue none, us, spelled => by
    cases spelled with
    | simple spelled => cases spelled
    | @branch _ _ cs ts word kind test first =>
      have longer : ts.Sublist (word :: (cs ++ ts)) := by simp
      have inner := (inOrder_stmt onTrue first).mono longer
      exact inOrder_compound rfl inner.bareScope inner.inner fun _ => by rw [Stmt.parts]
  | .branch _ _ onTrue (some onFalse), us, spelled => by
    cases spelled with
    | simple spelled => cases spelled
    | @branchElse _ _ _ cs ts us word other kind test first otherwise second =>
      have longer : ts.Sublist (word :: (cs ++ (ts ++ other :: us))) := by grind
      have longer' : us.Sublist (word :: (cs ++ (ts ++ other :: us))) := by grind
      have inner := (inOrder_stmt onTrue first).mono longer
      have inner' := (inOrder_stmt onFalse second).mono longer'
      exact inOrder_compound rfl (allAlong_append.mpr ⟨inner.bareScope, inner'.bareScope⟩)
        (fun inLoop => inner.both inner' inLoop inLoop) fun _ => by rw [Stmt.parts]
  | .whileLoop _ _ body, us, spelled => by
    cases spelled with
    | simple spelled => cases spelled
    | @whileLoop _ _ cs ts word kind test inner =>
      have longer : ts.Sublist (word :: (cs ++ ts)) := by simp
      have inner := (inOrder_stmt body inner).mono longer
      exact inOrder_compound rfl inner.bareScope (fun _ => inner.inner true)
        fun _ => by rw [Stmt.parts]
  | .doLoop _ body _, us, spelled => by
    cases spelled with
    | simple spelled => cases spelled
    | @doLoop _ _ ts cs word again semi kind inner repeats test ends =>
      have longer : ts.Sublist (word :: (ts ++ again :: (cs ++ [semi]))) := by grind
      have inner := (inOrder_stmt body inner).mono longer
      exact inOrder_compound rfl inner.bareScope (fun _ => inner.inner true)
        fun _ => by rw [Stmt.parts]
  | .forLoop _ none _ _ body, us, spelled => by
    cases spelled with
    | simple spelled => cases spelled
    | @forLoop _ _ _ _ is cs ss ts word left semi right kind opens first test ends advance closes
        inner =>
      have longer : ts.Sublist (word :: left :: (is ++ (cs ++ semi :: (ss ++ right :: ts)))) := by
        grind
      have inner := (inOrder_stmt body inner).mono longer
      exact inOrder_compound rfl (allAlong_cons.mpr ⟨.nil _, inner.bareScope⟩)
        (fun _ => inner.inner true) fun _ => by rw [Stmt.parts]
  | .forLoop _ (some init) _ _ body, us, spelled => by
    cases spelled with
    | simple spelled => cases spelled
    | @forLoop _ _ _ _ is cs ss ts word left semi right kind opens first test ends advance closes
        inner =>
      cases first with
      | some first =>
        have longer :
            ts.Sublist (word :: left :: (is ++ (cs ++ semi :: (ss ++ right :: ts)))) := by grind
        have longer' :
            is.Sublist (word :: left :: (is ++ (cs ++ semi :: (ss ++ right :: ts)))) := by grind
        have inner := (inOrder_stmt body inner).mono longer
        have first := (inOrder_stmt init (.simple first)).mono longer'
        exact inOrder_compound rfl (allAlong_cons.mpr ⟨first.declared, inner.bareScope⟩)
          (fun inLoop => first.both inner inLoop true) fun _ => by rw [Stmt.parts]
  | .ret _ _, _, _ | .breakLoop _, _, _ | .continueLoop _, _, _ | .eval _, _, _ =>
    ⟨.nil _, fun _ => by simp [Stmt.parts, Stmt.scopes]⟩

theorem inOrder_stmts : ∀ (statements : List Stmt) {ts : List Token},
    Series SpellsStmt statements ts →
      InOrder (statements.flatMap Stmt.declared) (Stmt.partsAll · statements) ts
  | [], _, _ => ⟨.nil _, fun _ => by simp [Stmt.partsAll]⟩
  | s :: rest, _, spelled => by
    cases spelled with
    | @cons _ _ ts us first later =>
      have here := inOrder_stmt s first
      have behind := inOrder_stmts rest later
      refine ⟨?_, fun inLoop => ?_⟩
      · rw [List.flatMap_cons, places_append]
        exact here.declared.append behind.declared
      · exact (here.mono (List.sublist_append_left ts us)).both
          (behind.mono (List.sublist_append_right ts us)) inLoop inLoop

end

section

variable {α : Type} {spells : α → List Token → Prop} {place : α → Span}
  {scopes : α → List ScopeDecls}

theorem along_series (each : ∀ a ts, spells a ts → Along [place a] ts) {parts : List α}
    {ts : List Token} (spelled : Series spells parts ts) : Along (parts.map place) ts := by
  induction spelled with
  | nil => exact .nil _
  | cons first _ ih => exact (each _ _ first).append ih

theorem allAlong_series (each : ∀ a ts, spells a ts → AllAlong (scopes a) ts) {parts : List α}
    {ts : List Token} (spelled : Series spells parts ts) : AllAlong (parts.flatMap scopes) ts := by
  induction spelled with
  | nil => exact allAlong_nil
  | @cons part parts ts us first _ ih =>
    rw [List.flatMap_cons, allAlong_append]
    exact ⟨(each part ts first).mono (List.sublist_append_left ts us),
      ih.mono (List.sublist_append_right ts us)⟩

theorem along_commaSeries (each : ∀ a ts, spells a ts → Along [place a] ts) {parts : List α}
    {ts : List Token} (spelled : CommaSeries spells parts ts) : Along (parts.map place) ts := by
  induction spelled with
  | @last part ts right only closes =>
    exact (each part ts only).mono (List.sublist_append_left ts [right])
  | @more part parts ts us comma first goesOn rest ih =>
    exact (each part ts first).append (ih.mono (List.sublist_cons_self comma us))

theorem along_parenthesized (each : ∀ a ts, spells a ts → Along [place a] ts) {parts : List α}
    {ts : List Token} (spelled : Parenthesized spells parts ts) : Along (parts.map place) ts := by
  cases spelled with
  | empty => exact .nil _
  | @filled parts ts left opens inside =>
    exact (along_commaSeries each inside).mono (List.sublist_cons_self left ts)

end

theorem along_param (p : Param) (ts : List Token) (spelled : SpellsParam p ts) :
    Along [p.span] ts := by
  cases spelled with
  | @mk ts name type named place =>
    rw [place]
    exact (Along.of_startsAt (.head name)).mono (List.sublist_append_right ts [name])

theorem allAlong_function {decl : FunctionDecl} {ts : List Token}
    (spelled : FormsFunction decl ts) : AllAlong decl.scopes ts := by
  cases spelled with
  | @mk ms ts ps bs name modifiers type named params body =>
    obtain ⟨-, body⟩ := body
    cases body with
    | @mk ss left right opens inside closes =>
      have within : ss.Sublist (left :: (ss ++ [right])) := by simp
      have inner := (inOrder_stmts decl.body.statements inside).mono within
      have own := (along_parenthesized along_param params).append inner.declared
      have longer : (ps ++ left :: (ss ++ [right])).Sublist
          (ms ++ (ts ++ name :: (ps ++ left :: (ss ++ [right])))) := by grind
      have longer' : (left :: (ss ++ [right])).Sublist
          (ms ++ (ts ++ name :: (ps ++ left :: (ss ++ [right])))) := by grind
      refine allAlong_cons.mpr ⟨?_, (inner.inner false).mono longer'⟩
      rw [places_append, places, List.map_map]
      exact own.mono longer

theorem span_toBinding (m : Member) : m.toBinding.span = m.span := by
  cases m <;> rfl

theorem Declaration.span_toBinding (d : Declaration) : d.toBinding.span = d.span := by
  cases d <;> rfl

theorem allAlong_member (m : Member) (ts : List Token) (spelled : SpellsMember m ts) :
    AllAlong m.scopes ts := by
  cases m with
  | field decl => exact allAlong_nil
  | method decl => exact allAlong_function spelled.form

theorem allAlong_declaration {d : Declaration} {ts : List Token}
    (spelled : SpellsDeclaration d ts) : AllAlong d.scopes ts := by
  cases d with
  | ofVariable decl => exact allAlong_nil
  | ofFunction decl => exact allAlong_function spelled.form
  | ofClass decl =>
    cases spelled.form with
    | @mk ms bs ts word name left right modifiers kind named base opens inside closes =>
      have longer : ts.Sublist (ms ++ word :: name :: (bs ++ left :: (ts ++ [right]))) := by grind
      have members := along_series (fun m ts spelled => Along.of_startsAt spelled.starts) inside
      refine allAlong_cons.mpr ⟨?_, (allAlong_series allAlong_member inside).mono longer⟩
      rw [places, List.map_map]
      simpa [Function.comp_def, span_toBinding] using members.mono longer

/-- What a spelled file has in order: its imports, its items, and every scope in its items. -/
structure FileInOrder (imports : List Import) (items : List Declaration) (ts : List Token) :
    Prop where
  imported : Along (imports.map (·.span)) ts
  declared : Along (items.map (·.span)) ts
  inner : AllAlong (items.flatMap Declaration.scopes) ts

theorem fileInOrder_of_spells {imports : List Import} {items : List Declaration} {ts : List Token}
    (spelled : SpellsFile imports items ts) : FileInOrder imports items ts := by
  induction spelled with
  | nil => exact ⟨.nil _, .nil _, allAlong_nil⟩
  | @ofImport i imports items ts us first rest ih =>
    have longer := List.sublist_append_right ts us
    exact ⟨(Along.of_startsAt first.starts).append ih.imported, ih.declared.mono longer,
      ih.inner.mono longer⟩
  | @ofItem item imports items ts us first rest ih =>
    have longer := List.sublist_append_right ts us
    refine ⟨ih.imported.mono longer, (Along.of_startsAt first.starts).append ih.declared, ?_⟩
    rw [List.flatMap_cons, allAlong_append]
    exact ⟨(allAlong_declaration first).mono (List.sublist_append_left ts us),
      ih.inner.mono longer⟩

theorem apart_of_spells {imports : List Import} {items : List Declaration} {ts : List Token}
    (spelled : SpellsFile imports items ts) (increasing : (ts.map (·.span)).Pairwise Span.Before)
    {i : Import} (given : i ∈ imports) {item : Declaration} (given' : item ∈ items) :
    i.span.Before item.span ∨ item.span.Before i.span := by
  induction spelled with
  | nil => cases given
  | @ofImport i' imports items ts us first rest ih =>
    rw [List.map_append, List.pairwise_append] at increasing
    obtain ⟨-, later, ahead⟩ := increasing
    cases given with
    | tail _ given => exact ih later given given'
    | head =>
      have here := List.singleton_sublist.mp (Along.of_startsAt first.starts)
      have behind := (fileInOrder_of_spells rest).declared.subset (List.mem_map_of_mem given')
      exact .inl (ahead _ here _ behind)
  | @ofItem item' imports items ts us first rest ih =>
    rw [List.map_append, List.pairwise_append] at increasing
    obtain ⟨-, later, ahead⟩ := increasing
    cases given' with
    | tail _ given' => exact ih later given given'
    | head =>
      have here := List.singleton_sublist.mp (Along.of_startsAt first.starts)
      have behind := (fileInOrder_of_spells rest).imported.subset (List.mem_map_of_mem given)
      exact .inr (ahead _ here _ behind)

end Scope

end CherryLang
