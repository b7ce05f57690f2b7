import CherryLang.Proofs.Soundness.Statement
import CherryLang.Syntax.File

namespace CherryLang.Syntax

theorem takes_dottedNames (bound : Nat) (found : Array String) (rest : List Token) (depth : Nat) :
    Takes (dottedNames bound found) ⟨rest, depth⟩ fun path ts s' =>
      s'.depth = depth ∧ ∃ names, path = found.toList ++ names ∧
        ∀ first t, WritesName first t → WritesPath (first :: names) (t :: ts) := by
  induction bound generalizing found rest with
  | zero => exact takes_pure ⟨rfl, [], by simp, fun _ _ named => .last named⟩
  | succ bound ih =>
    refine takes_eat ?_ (takes_pure ⟨rfl, [], by simp, fun _ _ named => .last named⟩)
    rintro dot rest rfl kind
    apply takes_expectName
    intro name rest isName
    refine (ih (found.push name.lexeme) rest).imp ?_
    rintro path ts s' ⟨kept, names, rfl, written⟩
    refine ⟨kept, name.lexeme :: names, by simp, fun first t named => ?_⟩
    exact .more named kind (written name.lexeme name ⟨isName, rfl⟩)

theorem returns_importDecl : Returns importDecl fun _ => SpellsImport := by
  intro rest depth
  apply takes_expect
  intro word rest kind
  apply takes_expectName
  intro first rest named
  apply takes_get
  refine (takes_dottedNames _ _ rest depth).bind ?_
  rintro path ts ⟨rest, _⟩ ⟨rfl, names, rfl, written⟩
  apply takes_semicolon
  intro semi rest ends
  refine takes_pure ⟨rfl, .head word, ?_⟩
  change WritesImport _ (word :: (first :: ts) ++ [semi])
  exact .mk kind (written first.lexeme first ⟨named, rfl⟩) ends

theorem returns_param : Returns param fun _ => SpellsParam := by
  intro rest depth
  apply returns_typeRef.bind
  intro type ts rest typed
  apply takes_expectName
  intro name rest named
  refine takes_pure ⟨rfl, ?_⟩
  exact .mk typed ⟨named, rfl⟩ rfl

theorem FormsMember.ne_nil {m : Member} {ts : List Token} (form : FormsMember m ts) : ts ≠ [] := by
  cases m with
  | field decl => exact FormsVariable.ne_nil form
  | method decl =>
    cases form
    simp

/-- The modifiers of the member and its place are known to the caller. -/
theorem returns_member (words : List Modifier) (span : Span) :
    Returns (member words span) fun depth m ts =>
      m.height ≤ room depth * room depth ∧ m.span = span ∧
        ∀ ms, WritesModifiers words ms → FormsMember m (ms ++ ts) := by
  intro rest depth
  apply returns_typeRef.bind
  intro type ts rest typed
  apply takes_expectName
  intro name rest named
  refine takes_isNext ?_ ?_
  · apply (returns_parenthesized returns_param).bind
    intro params ps rest listed
    apply returns_block.last
    intro body bs s' kept within
    refine ⟨kept, within.low, rfl, ?_⟩
    intro ms modifiers
    exact .mk modifiers typed ⟨named, rfl⟩ listed within.spelled
  · apply returns_initializer.bind
    intro init is rest value
    apply takes_semicolon
    intro semi rest ends
    refine takes_pure ⟨rfl, value.low, rfl, ?_⟩
    intro ms modifiers
    exact .mk modifiers typed ⟨named, rfl⟩ value.spelled ends

theorem returns_classMember :
    Returns classMember fun depth =>
      Bounded SpellsMember Member.height (room depth * room depth) := by
  intro rest depth
  refine takes_peek? (fun _ => takes_unexpected _) ?_
  rintro first rest rfl live
  refine Takes.placed live FormsMember.ne_nil ?_
  apply returns_modifiers.bind
  intro words ms rest modifiers
  refine (returns_member words first.span rest depth).imp ?_
  rintro m ts s' ⟨kept, low, place, form⟩
  exact ⟨kept, low, place, form ms modifiers⟩

theorem returns_baseName :
    Returns baseName fun _ => Maybe (Behind (.keyword .kwExtends) SpellsBase) := by
  intro rest depth
  refine takes_eat ?_ (takes_pure ⟨rfl, .none⟩)
  rintro word rest rfl kind
  apply takes_expectName
  intro name rest named
  refine takes_pure ⟨rfl, ?_⟩
  exact .some (.mk kind (.mk ⟨named, rfl⟩ rfl))

theorem returns_classDecl (words : List Modifier) (word : ClassWord) (span : Span) :
    Returns (classDecl words word span) fun depth decl ts =>
      decl.height ≤ room depth * room depth ∧ decl.span = span ∧
        ∀ ms t, WritesModifiers words ms → t.kind = .keyword word.keyword →
          FormsClass decl (ms ++ t :: ts) := by
  intro rest depth
  apply takes_expectName
  intro name rest named
  apply returns_baseName.bind
  intro base bs rest based
  apply takes_expect
  intro left rest opens
  apply (returns_untilBrace returns_classMember).last
  intro members us s' kept list
  refine ⟨kept, ?_⟩
  obtain ⟨ts, right, rfl, series, closes⟩ := list
  refine ⟨series.bounded.low, rfl, fun ms t modifiers kind => ?_⟩
  exact .mk modifiers kind ⟨named, rfl⟩ based opens series.bounded.spelled closes

theorem keyword_of_classWord? {kind : Kind} {word : ClassWord}
    (found : classWord? kind = some word) : kind = .keyword word.keyword := by
  unfold classWord? at found
  split at found <;> cases found <;> rfl

theorem FormsDeclaration.ne_nil {d : Declaration} {ts : List Token} (form : FormsDeclaration d ts) :
    ts ≠ [] := by
  cases d with
  | ofClass decl =>
    cases form
    simp
  | ofFunction decl => exact FormsMember.ne_nil (m := .method decl) form
  | ofVariable decl => exact FormsMember.ne_nil (m := .field decl) form

theorem returns_declaration :
    Returns declaration fun depth =>
      Bounded SpellsDeclaration Declaration.height (room depth * room depth) := by
  intro rest depth
  refine takes_peek? (fun _ => takes_unexpected _) ?_
  rintro first rest rfl live
  refine Takes.placed live FormsDeclaration.ne_nil ?_
  apply returns_modifiers.bind
  intro words ms rest modifiers
  refine takes_peekKind? (fun _ => takes_unexpected _) ?_
  rintro t rest rfl live
  simp only
  split
  · next word found =>
    apply takes_advance live
    apply (returns_classDecl words word first.span).last
    intro decl ts s' kept within
    obtain ⟨low, place, form⟩ := within
    exact ⟨kept, low, place, form ms t modifiers (keyword_of_classWord? found)⟩
  · split
    · apply (returns_member words first.span).bind
      intro m ts rest within
      obtain ⟨low, place, form⟩ := within
      rw [← List.append_nil ts] at form
      cases m with
      | field decl => exact takes_pure ⟨rfl, low, place, form ms modifiers⟩
      | method decl => exact takes_pure ⟨rfl, low, place, form ms modifiers⟩
    · exact takes_unexpected _

theorem takes_fileRule (bound : Nat) (imports : Array Import) (items : Array Declaration)
    (rest : List Token) (depth : Nat) :
    Takes (fileRule bound imports items) ⟨rest, depth⟩ fun result ts s' =>
      beforeEnd s'.rest = [] ∧ ∃ is ds, result = (imports.toList ++ is, items.toList ++ ds) ∧
        SpellsFile is ds ts ∧ highest Declaration.height ds ≤ room depth * room depth := by
  induction bound generalizing imports items rest with
  | zero => exact takes_unexpected _
  | succ bound ih =>
    unfold fileRule
    refine takes_peekKind? (fun nothing => takes_pure ⟨nothing, [], [], ?_⟩) ?_
    · exact ⟨by simp, .nil, Nat.zero_le _⟩
    · rintro t rest rfl live
      simp only
      split
      · apply returns_importDecl.bind
        intro i ts rest spelled
        refine (ih (imports.push i) items rest).imp ?_
        rintro result us s' ⟨nothing, is, ds, rfl, others, low⟩
        exact ⟨nothing, i :: is, ds, by simp, .ofImport spelled others, low⟩
      · apply returns_declaration.bind
        intro d ts rest within
        refine (ih imports (items.push d) rest).imp ?_
        rintro result us s' ⟨nothing, is, ds, rfl, others, low⟩
        refine ⟨nothing, is, d :: ds, by simp, .ofItem within.spelled others, ?_⟩
        exact Nat.max_le.mpr ⟨within.low, low⟩

theorem fileRule_of_parse {tokens : List Token} {tree : Tree} (parsed : parse tokens = .ok tree) :
    ∃ s, fileRule (tokens.length + 1) #[] #[] ⟨tokens, 0⟩ =
      .ok ((tree.imports, tree.items), s) := by
  unfold parse at parsed
  split at parsed
  · cases parsed
  · next imports items s run =>
    cases parsed
    exact ⟨s, run⟩

/-- The tokens of a file that is accepted, up to the end of the stream, are those that its tree is
spelled with. -/
theorem parse_spells {tokens : List Token} {tree : Tree} (parsed : parse tokens = .ok tree) :
    SpellsFile tree.imports tree.items (beforeEnd tokens) := by
  obtain ⟨s, run⟩ := fileRule_of_parse parsed
  obtain ⟨ts, taken, nothing, is, ds, same, spelled, _⟩ :=
    (takes_fileRule _ #[] #[] tokens 0).of_run run
  rw [nothing, List.append_nil] at taken
  obtain ⟨rfl, rfl⟩ : is = tree.imports ∧ ds = tree.items := by simpa using same.symm
  rw [taken]
  exact spelled

def marked (kind : Kind) (text : String) (line column : Nat) : Token :=
  ⟨kind, text, {}, ⟨line, column⟩⟩

/-- `import lib.io;` and on the next line `const List[] x = (a).b;`, with a comma behind the end. -/
def markedTokens : List Token :=
  [marked (.keyword .kwImport) "import" 1 1, marked .identifier "lib" 1 8,
    marked (.symbol .dot) "." 1 11, marked .identifier "io" 1 12,
    marked (.symbol .semicolon) ";" 1 14, marked (.modifier .const) "const" 2 1,
    marked .identifier "List" 2 7, marked (.symbol .leftBracket) "[" 2 11,
    marked (.symbol .rightBracket) "]" 2 12, marked .identifier "x" 2 14,
    marked (.symbol .assign) "=" 2 16, marked (.symbol .leftParen) "(" 2 18,
    marked .identifier "a" 2 19, marked (.symbol .rightParen) ")" 2 20,
    marked (.symbol .dot) "." 2 21, marked .identifier "b" 2 22,
    marked (.symbol .semicolon) ";" 2 23, marked .endOfStream "" 2 24,
    marked (.symbol .comma) "," 2 25]

def markedTree : Tree where
  file := {}
  imports := [⟨["lib", "io"], ⟨1, 1⟩⟩]
  items := [.ofVariable ⟨[.const], ⟨.named "List", 1, ⟨2, 7⟩⟩, "x",
    some (.member ⟨2, 19⟩ (.name ⟨2, 19⟩ "a") "b"), ⟨2, 1⟩⟩]

theorem parse_marked : parse markedTokens = .ok markedTree ∧
    SpellsFile markedTree.imports markedTree.items (markedTokens.take 17) := by
  have parsed : parse markedTokens = .ok markedTree := rfl
  exact ⟨parsed, parse_spells parsed⟩

end CherryLang.Syntax
