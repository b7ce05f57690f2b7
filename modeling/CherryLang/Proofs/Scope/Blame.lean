import CherryLang.Proofs.Layout.Verdict
import CherryLang.Proofs.Scope.Duplicates
import CherryLang.Proofs.Scope.Order
import CherryLang.Proofs.Soundness.File

namespace CherryLang.Scope

theorem exists_of_mem_repeats {scope : ScopeDecls}
    {Behind : String × Binding → String × Binding → Prop} (ordered : scope.Pairwise Behind)
    {e : Error} (found : e ∈ repeats scope) :
    ∃ name first again, Behind (name, first) (name, again) ∧
      e = ⟨.duplicateDeclaration name first.span, again.span⟩ := by
  obtain ⟨⟨⟨name, again⟩, place⟩, entry, repeated⟩ := List.mem_filterMap.mp found
  obtain ⟨first, known, rfl⟩ := Option.map_eq_some_iff.mp repeated
  have here : (scope.drop place)[0]? = some (name, again) := by
    rw [List.getElem?_drop]
    exact List.mk_mem_zipIdx_iff_getElem?.mp entry
  obtain ⟨before, after, split, -⟩ := List.lookup_eq_some_iff.mp known
  have earlier : (name, first) ∈ scope.take place := by simp [split]
  rw [← List.take_append_drop place scope, List.pairwise_append] at ordered
  obtain ⟨-, -, behind⟩ := ordered
  exact ⟨name, first, again, behind _ earlier _ (List.mem_of_getElem? here), rfl⟩

theorem mem_repeats {before : ScopeDecls} {name : String} {first : Binding} (again : Binding)
    (after : ScopeDecls) (known : before.lookup name = some first) :
    ⟨.duplicateDeclaration name first.span, again.span⟩ ∈
      repeats (before ++ (name, again) :: after) := by
  refine List.mem_filterMap.mpr ⟨((name, again), before.length), ?_, ?_⟩
  · rw [List.mk_mem_zipIdx_iff_getElem?]
    simp
  · simp [repeatAt?, known]

/-- An import of this name stands behind an item of this name, which is at `span`. -/
def LateImport (tree : Tree) (name : String) (previous span : Span) : Prop :=
  ∃ i ∈ tree.imports, ∃ item ∈ tree.items, i.binding = name ∧ item.name = name ∧
    i.span = previous ∧ item.span = span ∧ span.Before previous

section

variable {tree : Tree} {ts : List Token}

theorem pairwise_of_along {scope : ScopeDecls} (along : Along (places scope) ts)
    (increasing : (ts.map (·.span)).Pairwise Span.Before) :
    scope.Pairwise fun a b => a.2.span.Before b.2.span :=
  List.pairwise_map.mp (increasing.sublist along)

theorem pairwise_fileNames (spelled : Syntax.SpellsFile tree.imports tree.items ts)
    (increasing : (ts.map (·.span)).Pairwise Span.Before) :
    (fileNames tree).Pairwise fun a b => a.1 = b.1 →
      a.2.span.Before b.2.span ∨ LateImport tree b.1 a.2.span b.2.span := by
  have order := fileInOrder_of_spells spelled
  have imports := List.pairwise_map.mp (increasing.sublist order.imported)
  have items := List.pairwise_map.mp (increasing.sublist order.declared)
  unfold fileNames
  rw [List.pairwise_append, List.pairwise_map, List.pairwise_map]
  refine ⟨imports.imp fun before _ => .inl before, ?_, ?_⟩
  · refine items.imp fun before _ => .inl ?_
    simpa only [Declaration.span_toBinding] using before
  · rw [List.forall_mem_map]
    intro i given
    rw [List.forall_mem_map]
    intro item given' same
    simp only [Declaration.span_toBinding]
    rcases apart_of_spells spelled increasing given given' with ahead | behind
    · exact .inl ahead
    · exact .inr ⟨i, given, item, given', same, rfl, rfl, rfl, behind⟩

theorem blames_of_spells (spelled : Syntax.SpellsFile tree.imports tree.items ts)
    (increasing : (ts.map (·.span)).Pairwise Span.Before) {e : Error} (found : e ∈ check tree)
    {name : String} {previous : Span} (kind : e.kind = .duplicateDeclaration name previous) :
    previous.Before e.span ∨ LateImport tree name previous e.span := by
  have against : e ∈ against .duplicateDeclaration (check tree) :=
    List.mem_filter.mpr ⟨found, by rw [kind]; rfl⟩
  obtain ⟨scope, known, repeated⟩ :=
    List.mem_flatMap.mp ((check_duplicates tree).mem_iff.mp against)
  cases known with
  | head =>
    obtain ⟨name, first, again, behind, rfl⟩ :=
      exists_of_mem_repeats (pairwise_fileNames spelled increasing) repeated
    cases kind
    exact behind rfl
  | tail _ known =>
    have along := (fileInOrder_of_spells spelled).inner scope known
    obtain ⟨name, first, again, behind, rfl⟩ :=
      exists_of_mem_repeats (pairwise_of_along along increasing) repeated
    cases kind
    exact .inl behind

end

theorem lookup_imports (imports : List Import) (name : String) :
    (imports.map fun i => (i.binding, ({ span := i.span } : Binding))).lookup name =
      (imports.find? (·.binding == name)).map fun i => { span := i.span } := by
  induction imports with
  | nil => rfl
  | cons i imports ih =>
    rw [List.map_cons, List.lookup_cons, List.find?_cons, ih, BEq.comm]
    cases i.binding == name <;> rfl

theorem blames_imported {tree : Tree} {item : Declaration} (given : item ∈ tree.items) {i : Import}
    (imported : tree.imports.find? (·.binding == item.name) = some i) :
    ⟨.duplicateDeclaration item.name i.span, item.span⟩ ∈ check tree := by
  obtain ⟨front, back, split⟩ := List.append_of_mem given
  have whole : fileNames tree = (tree.imports.map fun i => (i.binding, { span := i.span })) ++
      (front.map fun item => (item.name, item.toBinding)) ++
      (item.name, item.toBinding) :: back.map fun item => (item.name, item.toBinding) := by
    simp [fileNames, split]
  have known : ((tree.imports.map fun i => (i.binding, ({ span := i.span } : Binding))) ++
      front.map fun item => (item.name, item.toBinding)).lookup item.name =
        some { span := i.span } := by
    rw [List.lookup_append, lookup_imports, imported]
    rfl
  have repeated := mem_repeats item.toBinding
    (back.map fun item => (item.name, item.toBinding)) known
  rw [← whole, Declaration.span_toBinding] at repeated
  have against := (check_duplicates tree).mem_iff.mpr
    (List.mem_flatMap.mpr ⟨fileNames tree, List.mem_cons_self, repeated⟩)
  exact (List.mem_filter.mp against).1

/-- Whatever a text declares again in one scope is blamed at the later declaration, with one
exception: an item is blamed for an import of its name wherever that import stands, so that the
blame is on the earlier one if the import is behind the item. -/
theorem check_blames {file : FileId} {text : String} {scanned : Lexical.Scanned} {tree : Tree}
    (read : Lexical.scan file (.ofText text) = .ok scanned)
    (parsed : Syntax.parse scanned.tokens = .ok tree) :
    (∀ e ∈ check tree, ∀ name previous, e.kind = .duplicateDeclaration name previous →
      previous.Before e.span ∨ LateImport tree name previous e.span) ∧
    ∀ item ∈ tree.items, ∀ i, tree.imports.find? (·.binding == item.name) = some i →
      ⟨.duplicateDeclaration item.name i.span, item.span⟩ ∈ check tree := by
  rw [Lexical.scan_ofText] at read
  cases read
  have spelled := Syntax.parse_spells parsed
  have increasing := (Lexical.pairwise_before_tokens file text.toList).sublist
    ((List.takeWhile_sublist fun t => t.kind ≠ .endOfStream).map _)
  constructor
  · intro e found name previous kind
    exact blames_of_spells spelled increasing found kind
  · intro item given i imported
    exact blames_imported given imported

def importedLate : String := "int a;\nimport a;"

theorem exists_check_importedLate :
    ∃ tree, Syntax.parse (Lexical.tokensBehind {} [] importedLate.toList) = .ok tree ∧
      check tree = [⟨.duplicateDeclaration "a" ⟨2, 1⟩, ⟨1, 1⟩⟩] := by
  have found : (Syntax.parse (Lexical.tokensBehind {} [] importedLate.toList)).toOption.map check =
      some [⟨.duplicateDeclaration "a" ⟨2, 1⟩, ⟨1, 1⟩⟩] := by
    decide +kernel
  cases parsed : Syntax.parse (Lexical.tokensBehind {} [] importedLate.toList) with
  | error e => simp [parsed, Except.toOption] at found
  | ok tree => exact ⟨tree, rfl, by simpa [parsed, Except.toOption] using found⟩

/-- The later declaration is not always the one that is blamed. -/
theorem not_blames_later :
    ¬ ∀ file text scanned tree, Lexical.scan file (.ofText text) = .ok scanned →
      Syntax.parse scanned.tokens = .ok tree →
        ∀ e ∈ check tree, ∀ name previous, e.kind = .duplicateDeclaration name previous →
          previous.Before e.span := by
  intro later
  obtain ⟨tree, parsed, found⟩ := exists_check_importedLate
  have read := Lexical.scan_ofText {} importedLate
  have before := later {} importedLate _ tree read parsed
    ⟨.duplicateDeclaration "a" ⟨2, 1⟩, ⟨1, 1⟩⟩ (by simp [found]) "a" ⟨2, 1⟩ rfl
  simp [Span.Before] at before

theorem lateImport_importedLate : ∃ scanned tree,
    Lexical.scan {} (.ofText importedLate) = .ok scanned ∧
      Syntax.parse scanned.tokens = .ok tree ∧ LateImport tree "a" ⟨2, 1⟩ ⟨1, 1⟩ := by
  obtain ⟨tree, parsed, found⟩ := exists_check_importedLate
  have read := Lexical.scan_ofText {} importedLate
  obtain ⟨blamed, -⟩ := check_blames read parsed
  have either := blamed ⟨.duplicateDeclaration "a" ⟨2, 1⟩, ⟨1, 1⟩⟩ (by simp [found]) "a" ⟨2, 1⟩ rfl
  exact ⟨_, tree, read, parsed, either.resolve_left (by simp [Span.Before])⟩

end CherryLang.Scope
