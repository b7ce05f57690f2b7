import CherryLang.Proofs.Completeness.Statement
import CherryLang.Syntax.File

namespace CherryLang.Syntax

section

variable {k : List Token} {depth n : Nat}

theorem WritesType.starts {type : TypeRef} {ts : List Token} (written : WritesType type ts) :
    ∃ t us, ts = t :: us ∧ (typeName? t).isSome = true := by
  cases written with
  | mk name brackets => exact ⟨_, _, rfl, by rw [typeName?_of_writes name]; rfl⟩

theorem typeName?_ne {t : Token} (named : (typeName? t).isSome = true) {kind : Kind}
    (other : ∀ u : Token, u.kind = kind → typeName? u = none) : t.kind ≠ kind := by
  intro same
  rw [other t same] at named
  cases named

def bareParam (p : Param) : Param := p.respan nowhere

theorem reads_param : Reads param WritesParam bareParam (fun _ _ => True) depth n := by
  intro p ts k written _ _
  cases written with
  | @mk ts name type named =>
    simp only [param, yields_bind, List.append_assoc, List.cons_append, List.nil_append]
    refine yields_typeRef type (named.not_bracket _) fun place => ?_
    rw [yields_expectName_cons named.kind, yields_pure]
    refine ⟨?_, rfl⟩
    simp only [bareParam, Param.respan, TypeRef.respan, nowhere, named.lexeme]

theorem reads_params {ps : List Param} {us : List Token}
    (written : Parenthesized WritesParam ps us) :
    Yields (parenthesized param) ⟨us ++ k, depth⟩ (TooDeep (nestingLimit < depth + us.length))
      fun ps' s => ps'.map bareParam = ps.map bareParam ∧ s = ⟨k, depth⟩ := by
  refine reads_parenthesized (n := us.length) reads_param (fun _ _ _ _ => trivial) ?_ written
    (Nat.le_succ _)
  intro p ts written
  cases written with
  | mk type named =>
    obtain ⟨t, us, rfl, starts⟩ := type.starts
    exact ⟨t, _, rfl, typeName?_ne starts fun u kind => by simp [typeName?, kind]⟩

def bareMember (m : Member) : Member := m.respan nowhere

theorem not_paren_of_writesInit {init : Option Expr} {is : List Token}
    (written : WritesInit init is)
    {semi : Token} (ends : semi.kind = .symbol .semicolon) :
    ((ahead? (is ++ semi :: k)).map (·.kind) == some (.symbol .leftParen)) = false := by
  cases written with
  | none => simp [ahead?, ends]
  | some kind value => simp [ahead?, kind]

theorem reads_field {decl : VariableDecl} {ts is : List Token} {name semi : Token}
    (type : WritesType decl.type ts) (named : WritesName decl.name name)
    (init : WritesInit decl.init is) (ends : semi.kind = .symbol .semicolon) (span : Span) :
    Yields (member decl.modifiers span) ⟨ts ++ name :: (is ++ semi :: k), depth⟩
      (TooDeep (nestingLimit < depth + is.length)) (Gives bareMember (.field decl) k depth) := by
  simp only [member, yields_bind]
  refine yields_typeRef type (named.not_bracket _) fun place => ?_
  simp only [yields_expectName_cons named.kind, yields_isNext, not_paren_of_writesInit init ends,
    Bool.false_eq_true, if_false, yields_bind]
  refine (reads_initializer init ends).imp (fun _ => id) ?_
  rintro init' s ⟨same, rfl⟩
  rw [yields_semicolon_cons ends, yields_pure]
  refine ⟨?_, rfl⟩
  simp only [bareMember, Member.respan, VariableDecl.respan, TypeRef.respan, nowhere, named.lexeme]
  rw [show init'.map (·.respan nowhere) = decl.init.map (·.respan nowhere) from same]

theorem reads_method {decl : FunctionDecl} {ts ps bs : List Token} {name : Token}
    (type : WritesType decl.returnType ts) (named : WritesName decl.name name)
    (params : Parenthesized WritesParam decl.params ps) (body : WritesBlock decl.body bs)
    (span : Span) :
    Yields (member decl.modifiers span) ⟨ts ++ name :: (ps ++ (bs ++ k)), depth⟩
      (TooDeep (nestingLimit < depth + (ps.length + bs.length)))
      (Gives bareMember (.method decl) k depth) := by
  obtain ⟨left, vs, split, opens⟩ := params.opens
  have front :
      ((ahead? (ps ++ (bs ++ k))).map (·.kind) == some (.symbol .leftParen)) = true := by
    simp [split, ahead?, opens]
  simp only [member, yields_bind]
  refine yields_typeRef type (named.not_bracket _) fun place => ?_
  simp only [yields_expectName_cons named.kind, yields_isNext, front, if_true, yields_bind]
  refine (reads_params params).imp (TooDeep.imp fun _ => by omega) ?_
  rintro ps' s ⟨sameParams, rfl⟩
  apply (reads_block body).imp (TooDeep.imp fun _ => by omega)
  rintro body' s ⟨sameBody, rfl⟩
  refine ⟨?_, rfl⟩
  simp only [bareMember, Member.respan, FunctionDecl.respan, TypeRef.respan, nowhere, named.lexeme]
  rw [show ps'.map (·.respan nowhere) = decl.params.map (·.respan nowhere) from sameParams,
    show body'.respan nowhere = decl.body.respan nowhere from sameBody]

theorem reads_modified {m : Member} {ts : List Token} (written : WritesMember m ts) (span : Span) :
    Yields (do member (← modifiers) span) ⟨ts ++ k, depth⟩
      (TooDeep (nestingLimit < depth + ts.length)) (Gives bareMember m k depth) := by
  cases written with
  | field written =>
    cases written with
    | @mk ms ts is name semi modifiers type named init ends =>
      simp only [List.append_assoc, List.cons_append, List.nil_append, yields_bind]
      rw [yields_modifiers modifiers (modifier?_of_writesType type _)]
      refine (reads_field type named init ends span).imp (TooDeep.imp fun _ => ?_) fun _ _ => id
      simp only [List.length_append, List.length_cons]
      omega
  | method written =>
    cases written with
    | @mk ms ts ps bs name modifiers type named params body =>
      simp only [List.append_assoc, List.cons_append, yields_bind]
      rw [yields_modifiers modifiers (modifier?_of_writesType type _)]
      refine (reads_method type named params body span).imp (TooDeep.imp fun _ => ?_)
        fun _ _ => id
      simp only [List.length_append, List.length_cons]
      omega

theorem WritesModifiers.starts {words : List Modifier} {ms : List Token}
    (written : WritesModifiers words ms) {type : TypeRef} {ts : List Token}
    (typed : WritesType type ts) (rest : List Token) :
    ∃ t us, ms ++ (ts ++ rest) = t :: us ∧
      ((modifier? t).isSome = true ∨ (typeName? t).isSome = true) := by
  obtain ⟨-, rfl⟩ | ⟨t, us, word, rfl, kind⟩ := written.front
  · obtain ⟨t, us, rfl, named⟩ := typed.starts
    exact ⟨t, _, rfl, .inr named⟩
  · exact ⟨t, _, rfl, .inl (by simp [modifier?, kind])⟩

theorem WritesMember.starts {m : Member} {ts : List Token} (written : WritesMember m ts) :
    ∃ t us, ts = t :: us ∧ ((modifier? t).isSome = true ∨ (typeName? t).isSome = true) := by
  cases written with
  | field written =>
    cases written with
    | mk modifiers type =>
      simp only [List.append_assoc]
      exact modifiers.starts type _
  | method written =>
    cases written with
    | mk modifiers type =>
      simp only [List.append_assoc]
      exact modifiers.starts type _

theorem kind_ne_of_starts {t : Token} {kind : Kind}
    (starts : (modifier? t).isSome = true ∨ (typeName? t).isSome = true)
    (other : ∀ u : Token, u.kind = kind → modifier? u = none ∧ typeName? u = none) :
    t.kind ≠ kind := by
  intro same
  obtain ⟨noModifier, noType⟩ := other t same
  simp [noModifier, noType] at starts

theorem reads_classMember :
    Reads classMember WritesMember bareMember (fun _ _ => True) depth n := by
  intro m ts k written _ _
  obtain ⟨t, us, split, starts⟩ := written.starts
  have live : t.kind ≠ .endOfStream :=
    kind_ne_of_starts starts fun u kind => by simp [modifier?, typeName?, kind]
  have front : ahead? (ts ++ k) = some t := by
    rw [split]
    exact ahead?_cons live
  have inner : Yields (do member (← modifiers) t.span) ⟨ts ++ k, depth⟩ _ _ :=
    reads_modified written t.span
  simp only [yields_bind] at inner
  simpa only [classMember, yields_bind, yields_peek?, front] using inner

theorem reads_baseName {base : Option BaseName} {bs : List Token} (written : WritesBase base bs)
    {left : Token} (opens : left.kind = .symbol .leftBrace) {fails : Failure → Prop} :
    Yields baseName ⟨bs ++ left :: k, depth⟩ fails fun base' s =>
      base'.map (·.respan nowhere) = base.map (·.respan nowhere) ∧ s = ⟨left :: k, depth⟩ := by
  cases written with
  | none => simp [baseName, yields_eat, ahead?, opens]
  | some kind named =>
    simp [baseName, yields_eat_cons kind, yields_expectName_cons named.kind, BaseName.respan,
      named.lexeme, nowhere]

def bareDeclaration (item : Declaration) : Declaration := item.respan nowhere

theorem reads_classDecl {decl : ClassDecl} {bs ts : List Token} {name left right : Token}
    (named : WritesName decl.name name) (base : WritesBase decl.base bs)
    (opens : left.kind = .symbol .leftBrace) (inside : Series WritesMember decl.members ts)
    (closes : right.kind = .symbol .rightBrace) (span : Span) :
    Yields (classDecl decl.modifiers decl.word span)
      ⟨name :: (bs ++ left :: (ts ++ right :: k)), depth⟩
      (TooDeep (nestingLimit < depth + ts.length)) fun decl' s =>
        decl'.respan nowhere = decl.respan nowhere ∧ s = ⟨k, depth⟩ := by
  have starts : ∀ m ts, WritesMember m ts → ∃ t us, ts = t :: us ∧
      t.kind ≠ .symbol .rightBrace ∧ t.kind ≠ .endOfStream := by
    intro m ts written
    obtain ⟨t, us, rfl, starts⟩ := written.starts
    exact ⟨t, us, rfl,
      kind_ne_of_starts starts fun u kind => by simp [modifier?, typeName?, kind],
      kind_ne_of_starts starts fun u kind => by simp [modifier?, typeName?, kind]⟩
  simp only [classDecl, yields_bind, yields_expectName_cons named.kind]
  apply (reads_baseName base opens).imp (fun _ => id)
  rintro base' s ⟨sameBase, rfl⟩
  simp only [yields_expect_cons opens, ne_eq, reduceCtorEq, not_false_eq_true, untilBrace,
    yields_bind, yields_get]
  have enough : ts.length < (ts ++ right :: k).length + 1 :=
    Nat.lt_succ_of_le (List.prefix_append ts _).length_le
  refine (reads_untilClose (n := ts.length) reads_classMember (fun _ _ _ _ => trivial)
    (fun _ _ _ _ _ => trivial) starts inside (Nat.le_refl _) closes enough #[]).imp (fun _ => id) ?_
  rintro members' s ⟨same, rfl⟩
  refine ⟨?_, rfl⟩
  simp only [List.map_nil, List.nil_append] at same
  simp only [ClassDecl.respan, named.lexeme, sameBase, nowhere]
  rw [show members'.map (·.respan nowhere) = decl.members.map (·.respan nowhere) from same]

theorem WritesDeclaredType.starts {type : TypeRef} {ts : List Token}
    (written : WritesDeclaredType type ts) :
    ∃ t us, ts = t :: us ∧ t.kind ≠ .endOfStream ∧ classWord? t.kind = none ∧
      (isTypeWord t.kind || t.kind == .identifier) = true := by
  obtain ⟨⟨name, -⟩, plain⟩ := written
  next ts t =>
  refine ⟨t, ts, rfl, live_of_typeName? (typeName?_of_writes name), ?_⟩
  cases typeName : type.name with
  | primitive type =>
    rw [typeName] at name
    simp [show t.kind = .primitive type from name, classWord?, isTypeWord, Kind.category]
  | inferred =>
    rw [typeName] at name
    simp [show t.kind = .keyword .kwVar from name, classWord?, isTypeWord]
  | named text =>
    rw [typeName] at name
    have either := name.kind
    simp only [Kind.isName, Bool.or_eq_true, beq_iff_eq] at either
    have kind := either.resolve_right (plain t (List.mem_cons_self ..))
    simp [kind, classWord?]

theorem reads_declaration_class {decl : ClassDecl} {ts : List Token}
    (written : WritesClass decl ts) :
    Yields declaration ⟨ts ++ k, depth⟩ (TooDeep (nestingLimit < depth + ts.length))
      (Gives bareDeclaration (.ofClass decl) k depth) := by
  cases written with
  | @mk ms bs ts word name left right modifiers kind named base opens inside closes =>
    have isWord : classWord? word.kind = some decl.word := by
      rw [kind]
      cases decl.word <;> rfl
    have live : word.kind ≠ .endOfStream := by simp [kind]
    have noModifier : modifier? word = none := by simp [modifier?, kind]
    obtain ⟨first, front⟩ : ∃ first, ahead? (ms ++ word :: (name :: (bs ++ left :: (ts ++
        right :: k)))) = some first := by
      obtain ⟨-, rfl⟩ | ⟨t, us, word', rfl, kind'⟩ := modifiers.front
      · exact ⟨word, ahead?_cons live⟩
      · exact ⟨t, ahead?_cons (by simp [kind'])⟩
    simp only [List.length_append, List.length_cons, List.length_nil]
    simp only [List.append_assoc, List.cons_append, List.nil_append, declaration, yields_bind,
      yields_peek?, front]
    rw [yields_modifiers modifiers (by simpa using noModifier)]
    simp only [yields_peekKind?, ahead?_cons live, Option.map_some, isWord, yields_bind,
      yields_advance, List.tail_cons]
    refine (reads_classDecl named base opens inside closes first.span).imp
      (TooDeep.imp fun _ => by omega) ?_
    rintro decl' s ⟨same, rfl⟩
    exact ⟨congrArg Declaration.ofClass same, rfl⟩

def itemOf : Member → Declaration
  | .field decl => .ofVariable decl
  | .method decl => .ofFunction decl

theorem bareDeclaration_itemOf {m m' : Member} (same : bareMember m' = bareMember m) :
    bareDeclaration (itemOf m') = bareDeclaration (itemOf m) := by
  have shows : ∀ m, bareDeclaration (itemOf m) = itemOf (bareMember m) := by
    intro m
    cases m <;> rfl
  rw [shows, shows, same]

theorem yields_declaration_member {words : List Modifier} {ms ts rest : List Token}
    {type : TypeRef} (modifiers : WritesModifiers words ms) (typed : WritesDeclaredType type ts)
    {m : Member} {excuse : Prop}
    (inner : ∀ span, Yields (member words span) ⟨ts ++ rest, depth⟩ (TooDeep excuse)
      (Gives bareMember m k depth)) :
    Yields declaration ⟨ms ++ (ts ++ rest), depth⟩ (TooDeep excuse)
      (Gives bareDeclaration (itemOf m) k depth) := by
  obtain ⟨t, us, split, live, noClass, starts⟩ := typed.starts
  obtain ⟨first, front⟩ : ∃ first, ahead? (ms ++ (ts ++ rest)) = some first := by
    obtain ⟨-, rfl⟩ | ⟨u, us, word, rfl, kind⟩ := modifiers.front
    · exact ⟨t, by rw [split]; exact ahead?_cons live⟩
    · exact ⟨u, ahead?_cons (by simp [kind])⟩
  have front' : (ahead? (ts ++ rest)).map (·.kind) = some t.kind := by
    simp [split, ahead?_cons live]
  simp only [declaration, yields_bind, yields_peek?, front]
  rw [yields_modifiers modifiers (modifier?_of_writesType typed.1 _)]
  simp only [yields_peekKind?, front', noClass, starts, if_true, yields_bind]
  apply (inner first.span).imp (fun _ => id)
  rintro m' s ⟨same, rfl⟩
  have shown := bareDeclaration_itemOf same
  cases m' with
  | field decl => exact ⟨shown, rfl⟩
  | method decl => exact ⟨shown, rfl⟩

theorem reads_declaration :
    Reads declaration WritesDeclaration bareDeclaration (fun _ _ => True) depth n := by
  intro item ts k written _ _
  cases written with
  | ofClass written => exact reads_declaration_class written
  | @ofVariable decl _ written =>
    cases written with
    | mk modifiers type named init ends =>
      simp only [List.length_append, List.length_cons, List.length_nil]
      simp only [List.append_assoc, List.cons_append, List.nil_append]
      exact yields_declaration_member (m := .field decl) modifiers type fun span =>
        (reads_field type.1 named init ends span).imp (TooDeep.imp fun _ => by omega) fun _ _ => id
  | @ofFunction decl _ written =>
    cases written with
    | mk modifiers type named params body =>
      simp only [List.length_append, List.length_cons]
      simp only [List.append_assoc, List.cons_append]
      exact yields_declaration_member (m := .method decl) modifiers type fun span =>
        (reads_method type.1 named params body span).imp (TooDeep.imp fun _ => by omega)
          fun _ _ => id

theorem reads_dottedNames {path : List String} {ts : List Token} (written : WritesPath path ts)
    {semi : Token} (ends : semi.kind = .symbol .semicolon) (bound : Nat)
    (enough : ts.length ≤ bound + 1) (found : Array String) {fails : Failure → Prop} :
    ∃ t us, ts = t :: us ∧ t.kind.isName = true ∧
      Yields (dottedNames bound (found.push t.lexeme)) ⟨us ++ semi :: k, depth⟩ fails
        fun path' s => path' = found.toList ++ path ∧ s = ⟨semi :: k, depth⟩ := by
  induction written generalizing bound found with
  | @last name t named =>
    refine ⟨t, [], rfl, named.kind, ?_⟩
    cases bound with
    | zero => simp [dottedNames, named.lexeme]
    | succ bound => simp [dottedNames, yields_eat, ahead?, ends, named.lexeme]
  | @more name names ts t dot named kind rest ih =>
    refine ⟨t, dot :: ts, rfl, named.kind, ?_⟩
    simp only [List.length_cons] at enough
    obtain ⟨bound, rfl⟩ : ∃ b, bound = b + 1 := ⟨bound - 1, by omega⟩
    obtain ⟨u, us, rfl, next, inner⟩ := ih bound (by omega) (found.push t.lexeme)
    simp only [dottedNames, yields_bind, List.cons_append, yields_eat_cons kind, ne_eq,
      reduceCtorEq, not_false_eq_true, if_true, yields_expectName_cons next]
    apply inner.imp (fun _ => id)
    rintro path' s ⟨rfl, rfl⟩
    simp [named.lexeme]

theorem reads_importDecl {i : Import} {ts : List Token} (written : WritesImport i ts)
    {fails : Failure → Prop} :
    Yields importDecl ⟨ts ++ k, depth⟩ fails fun i' s =>
      i'.respan nowhere = i.respan nowhere ∧ s = ⟨k, depth⟩ := by
  cases written with
  | @mk ts word semi kind path ends =>
    simp only [importDecl, yields_bind, List.append_assoc, List.cons_append, List.nil_append,
      yields_expect_cons kind, ne_eq, reduceCtorEq, not_false_eq_true]
    obtain ⟨t, us, rfl, named, inner⟩ : ∃ t us, ts = t :: us ∧ t.kind.isName = true ∧
        Yields (dottedNames (ts.length + k.length) (#[].push t.lexeme)) ⟨us ++ semi :: k, depth⟩
          fails _ :=
      reads_dottedNames path ends (ts.length + k.length) (by omega) #[]
    have bound : (t :: us).length + k.length = (us ++ semi :: k).length := by
      simp only [List.length_append, List.length_cons]
      omega
    rw [bound] at inner
    simp only [List.cons_append, yields_expectName_cons named, yields_get]
    apply inner.imp (fun _ => id)
    rintro path' s ⟨rfl, rfl⟩
    rw [yields_semicolon_cons ends, yields_pure]
    exact ⟨rfl, rfl⟩

theorem WritesImport.starts {i : Import} {ts : List Token} (written : WritesImport i ts) :
    ∃ t us, ts = t :: us ∧ t.kind = .keyword .kwImport := by
  cases written with
  | mk kind path ends => exact ⟨_, _, rfl, kind⟩

theorem WritesDeclaration.starts {item : Declaration} {ts : List Token}
    (written : WritesDeclaration item ts) :
    ∃ t us, ts = t :: us ∧ t.kind ≠ .keyword .kwImport ∧ t.kind ≠ .endOfStream := by
  have typed : ∀ {words ms type ts rest}, WritesModifiers words ms → WritesType type ts →
      ∃ t us, ms ++ (ts ++ rest) = t :: us ∧ t.kind ≠ .keyword .kwImport ∧
        t.kind ≠ .endOfStream := by
    intro words ms type ts rest modifiers type
    obtain ⟨t, us, split, starts⟩ := modifiers.starts type rest
    exact ⟨t, us, split,
      kind_ne_of_starts starts fun u kind => by simp [modifier?, typeName?, kind],
      kind_ne_of_starts starts fun u kind => by simp [modifier?, typeName?, kind]⟩
  cases written with
  | @ofClass decl _ written =>
    cases written with
    | @mk ms bs ts word name left right modifiers kind =>
      simp only [List.append_assoc, List.cons_append]
      obtain ⟨-, rfl⟩ | ⟨t, us, word', rfl, kind'⟩ := modifiers.front
      · refine ⟨word, _, rfl, ?_, by simp [kind]⟩
        rw [kind]
        cases decl.word <;> simp [ClassWord.keyword]
      · exact ⟨t, _, rfl, by simp [kind'], by simp [kind']⟩
  | ofFunction written =>
    cases written with
    | mk modifiers type =>
      simp only [List.append_assoc]
      exact typed modifiers type.1
  | ofVariable written =>
    cases written with
    | mk modifiers type =>
      simp only [List.append_assoc]
      exact typed modifiers type.1

theorem reads_fileRule {imports : List Import} {items : List Declaration} {ts tail : List Token}
    (written : WritesFile imports items ts) (ended : ahead? tail = none) (bound : Nat)
    (enough : ts.length < bound) (imports₀ : Array Import) (items₀ : Array Declaration) :
    Yields (fileRule bound imports₀ items₀) ⟨ts ++ tail, depth⟩
      (TooDeep (nestingLimit < depth + ts.length)) fun result _ =>
        result.1.map (·.respan nowhere) =
            imports₀.toList.map (·.respan nowhere) ++ imports.map (·.respan nowhere) ∧
          result.2.map bareDeclaration =
            items₀.toList.map bareDeclaration ++ items.map bareDeclaration := by
  induction written generalizing bound imports₀ items₀ with
  | nil =>
    obtain ⟨bound, rfl⟩ : ∃ b, bound = b + 1 := ⟨bound - 1, by omega⟩
    simp [fileRule, ended]
  | @ofImport i imports items ts us first rest ih =>
    obtain ⟨bound, rfl⟩ : ∃ b, bound = b + 1 := ⟨bound - 1, by omega⟩
    obtain ⟨t, vs, split, kind⟩ := first.starts
    have front : (ahead? (ts ++ (us ++ tail))).map (·.kind) = some (.keyword .kwImport) := by
      simp [split, ahead?, kind]
    have nonempty : 0 < ts.length := by simp [split]
    simp only [List.length_append] at enough ⊢
    simp only [fileRule, yields_bind, yields_peekKind?, List.append_assoc, front, if_true]
    apply (reads_importDecl first).imp (fun _ => id)
    rintro i' s ⟨same, rfl⟩
    refine (ih bound (by omega) (imports₀.push i') items₀).imp
      (TooDeep.imp fun _ => by omega) ?_
    rintro result s ⟨sameImports, sameItems⟩
    simp [sameImports, sameItems, same]
  | @ofItem item imports items ts us first rest ih =>
    obtain ⟨bound, rfl⟩ : ∃ b, bound = b + 1 := ⟨bound - 1, by omega⟩
    obtain ⟨t, vs, split, other, live⟩ := first.starts
    have front : (ahead? (ts ++ (us ++ tail))).map (·.kind) = some t.kind := by
      simp [split, ahead?_cons live]
    have nonempty : 0 < ts.length := by simp [split]
    simp only [List.length_append] at enough ⊢
    simp only [fileRule, yields_bind, yields_peekKind?, List.append_assoc, front, if_neg other]
    refine (reads_declaration first (Nat.le_refl _) trivial).imp
      (TooDeep.imp fun _ => by omega) ?_
    rintro item' s ⟨same, rfl⟩
    refine (ih bound (by omega) imports₀ (items₀.push item')).imp
      (TooDeep.imp fun _ => by omega) ?_
    rintro result s ⟨sameImports, sameItems⟩
    simp [sameImports, sameItems, same]

end

/-- A written tree is read back up to places and file, unless the nesting is reported as too deep,
which takes more tokens than there are levels. No other tree and no other error comes out. -/
theorem parse_of_writes {tree : Tree} {tokens : List Token} (written : Writes tree tokens) :
    (∃ parsed, parse tokens = .ok parsed ∧ parsed.bare = tree.bare) ∨
      ∃ e, parse tokens = .error e ∧ e.kind = .nestingTooDeep ∧ nestingLimit < tokens.length := by
  obtain ⟨ts, tail, rfl, inside, ends⟩ := written
  have ended : ahead? tail = none := by
    cases tail with
    | nil => rfl
    | cons t rest => simp [ahead?, ends t rfl]
  have yields : Yields (fileRule ((ts ++ tail).length + 1) #[] #[]) ⟨ts ++ tail, 0⟩ _ _ :=
    reads_fileRule inside ended _ (Nat.lt_succ_of_le (List.prefix_append ts tail).length_le) #[] #[]
  unfold Yields at yields
  unfold parse StateT.run
  split at yields
  · next result s run =>
    obtain ⟨sameImports, sameItems⟩ := yields
    refine .inl ⟨_, by rw [run], ?_⟩
    simp only [List.map_nil, List.nil_append] at sameImports sameItems
    simp only [Tree.bare, Tree.respan, sameImports]
    rw [show result.2.map (·.respan nowhere) = tree.items.map (·.respan nowhere) from sameItems]
  · next failure run =>
    refine .inr ⟨_, by rw [run], yields.1, ?_⟩
    have deep := yields.2
    simp only [List.length_append]
    omega

def sample (kind : Kind) (text : String) : Token := ⟨kind, text, {}, {}⟩

/-- A variable that starts as a chain of two subtractions, the second of a product. -/
def sampleVariable : VariableDecl where
  modifiers := [.const]
  type := ⟨.primitive .int, 0, {}⟩
  name := "x"
  init := some (.binary {} .sub (.binary {} .sub (.name {} "a") (.name {} "b"))
    (.binary {} .mul (.name {} "c") (.unary {} .negate (.name {} "d"))))
  span := {}

/-- `(a - b) - c * -(d)` -/
def sampleValue : List Token :=
  [sample (.symbol .leftParen) "(", sample .identifier "a", sample (.symbol .minus) "-",
    sample .identifier "b", sample (.symbol .rightParen) ")", sample (.symbol .minus) "-",
    sample .identifier "c", sample (.symbol .star) "*", sample (.symbol .minus) "-",
    sample (.symbol .leftParen) "(", sample .identifier "d", sample (.symbol .rightParen) ")"]

def sampleTokens : List Token :=
  [sample (.modifier .const) "const", sample (.primitive .int) "int", sample .identifier "x",
    sample (.symbol .assign) "="] ++ sampleValue ++
    [sample (.symbol .semicolon) ";", sample .endOfStream ""]

theorem writes_sampleValue : WritesInit sampleVariable.init
    (sample (.symbol .assign) "=" :: sampleValue) := by
  have name : ∀ least text, least ≤ 12 →
      Operand least (.name {} text) [sample .identifier text] :=
    fun least text tight => .bare tight (.name ⟨rfl, rfl⟩)
  have inner : WritesExpr (.binary {} .sub (.name {} "a") (.name {} "b"))
      ([sample .identifier "a"] ++ sample (.symbol .minus) "-" :: [sample .identifier "b"]) :=
    .binary (name _ "a" (by decide)) rfl (name _ "b" (by decide))
  have left : Operand BinaryOp.sub.precedence
      (.binary {} .sub (.name {} "a") (.name {} "b")) (sampleValue.take 5) :=
    .paren rfl (.bare (Nat.zero_le _) inner) rfl
  have negated : Operand (BinaryOp.mul.precedence + 1) (.unary {} .negate (.name {} "d"))
      (sampleValue.drop 8) :=
    .bare (Nat.le_refl 11) (.unary rfl (.paren rfl (name 0 "d" (by decide)) rfl))
  have product : WritesExpr (.binary {} .mul (.name {} "c") (.unary {} .negate (.name {} "d")))
      (sampleValue.drop 6) :=
    .binary (name _ "c" (by decide)) rfl negated
  have right : Operand (BinaryOp.sub.precedence + 1)
      (.binary {} .mul (.name {} "c") (.unary {} .negate (.name {} "d")))
      (sampleValue.drop 6) :=
    .bare (Nat.le_refl 10) product
  have whole : WritesExpr (.binary {} .sub (.binary {} .sub (.name {} "a") (.name {} "b"))
      (.binary {} .mul (.name {} "c") (.unary {} .negate (.name {} "d")))) sampleValue :=
    .binary left rfl right
  exact .some rfl (.bare (Nat.zero_le _) whole)

theorem writes_sample : Writes ⟨{}, [], [.ofVariable sampleVariable]⟩ sampleTokens := by
  have type : WritesDeclaredType sampleVariable.type [sample (.primitive .int) "int"] :=
    ⟨.mk rfl .none, by simp [sample]⟩
  have words : WritesModifiers sampleVariable.modifiers [sample (.modifier .const) "const"] :=
    .cons rfl .nil
  have named : WritesName sampleVariable.name (sample .identifier "x") := ⟨rfl, rfl⟩
  have ends : (sample (.symbol .semicolon) ";").kind = .symbol .semicolon := rfl
  have declared : WritesVariable WritesDeclaredType sampleVariable sampleTokens.dropLast :=
    .mk words type named writes_sampleValue ends
  exact ⟨_, [sample .endOfStream ""], rfl, .ofItem (.ofVariable declared) .nil,
    by simp [sample]⟩

theorem parse_sample : Writes ⟨{}, [], [.ofVariable sampleVariable]⟩ sampleTokens ∧
    ∃ parsed, parse sampleTokens = .ok parsed ∧
      parsed.bare = Tree.bare ⟨{}, [], [.ofVariable sampleVariable]⟩ := by
  refine ⟨writes_sample, ?_⟩
  obtain parsed | ⟨e, -, -, long⟩ := parse_of_writes writes_sample
  · exact parsed
  · exact absurd long (by decide)

end CherryLang.Syntax
