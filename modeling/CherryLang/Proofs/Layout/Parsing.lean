import CherryLang.Syntax.File
import CherryLang.Proofs.Layout.Agree
import CherryLang.Proofs.Syntax.Yields

namespace CherryLang.Syntax

section

variable {f : Span → Span}

structure ExpressionsAgree (f : Span → Span) (fuel : Nat) : Prop where
  expr : Agrees f (Moved (Expr.respan f)) (exprRule fuel) (exprRule fuel)
  assignment : Agrees f (Moved (Expr.respan f)) (assignmentRule fuel) (assignmentRule fuel)
  binary (least : Nat) :
    Agrees f (Moved (Expr.respan f)) (binaryRule fuel least) (binaryRule fuel least)
  operator (least : Nat) (lhs : Expr) : Agrees f (Moved (Expr.respan f))
    (operatorRule fuel least lhs) (operatorRule fuel least (lhs.respan f))
  unary : Agrees f (Moved (Expr.respan f)) (unaryRule fuel) (unaryRule fuel)
  suffixed : Agrees f (Moved (Expr.respan f)) (suffixedRule fuel) (suffixedRule fuel)
  suffix (e : Expr) : Agrees f (Moved (Expr.respan f)) (suffixRule fuel e)
    (suffixRule fuel (e.respan f))
  primary : Agrees f (Moved (Expr.respan f)) (primaryRule fuel) (primaryRule fuel)

namespace ExpressionsAgree

theorem zero : ExpressionsAgree f 0 where
  expr := agrees_tooDeep
  assignment := agrees_tooDeep
  binary _ := agrees_tooDeep
  operator _ _ := agrees_tooDeep
  unary := agrees_tooDeep
  suffixed := agrees_tooDeep
  suffix _ := agrees_tooDeep
  primary := agrees_tooDeep

variable {fuel : Nat} (inner : ExpressionsAgree f fuel)
include inner

theorem exprRule_succ :
    Agrees f (Moved (Expr.respan f)) (exprRule (fuel + 1)) (exprRule (fuel + 1)) := by
  unfold exprRule
  apply agrees_descend.andThen
  apply inner.assignment.bind_moved
  intro e
  apply agrees_ascend.andThen
  exact agrees_pure rfl

theorem assignmentRule_succ :
    Agrees f (Moved (Expr.respan f)) (assignmentRule (fuel + 1)) (assignmentRule (fuel + 1)) := by
  unfold assignmentRule
  apply (inner.binary 1).bind_moved
  intro target
  apply agrees_peekKind?.bind
  intro k? l? ahead
  rw [KindsMatch.bind_eq ahead Kind.assignOp? rfl]
  cases l?.bind Kind.assignOp? with
  | none => exact agrees_pure rfl
  | some op =>
    simp only [Expr.isAssignable_respan, Expr.span_respan]
    split
    · apply agrees_advance.andThen
      apply inner.expr.bind_moved
      intro value
      exact agrees_pure rfl
    · exact agrees_throw _ _

theorem binaryRule_succ (least : Nat) :
    Agrees f (Moved (Expr.respan f)) (binaryRule (fuel + 1) least)
      (binaryRule (fuel + 1) least) := by
  unfold binaryRule
  apply inner.unary.bind_moved
  intro lhs
  exact agrees_keepingDepth (inner.operator least lhs)

theorem operatorRule_succ (least : Nat) (lhs : Expr) :
    Agrees f (Moved (Expr.respan f)) (operatorRule (fuel + 1) least lhs)
      (operatorRule (fuel + 1) least (lhs.respan f)) := by
  unfold operatorRule
  apply agrees_peekKind?.bind
  intro k? l? ahead
  rw [KindsMatch.bind_eq ahead Kind.binaryOp? rfl]
  cases l?.bind Kind.binaryOp? with
  | none => exact agrees_pure rfl
  | some op =>
    simp only
    split
    · exact agrees_pure rfl
    · apply agrees_descend.andThen
      apply agrees_advance.andThen
      apply (inner.binary _).bind_moved
      intro rhs
      rw [Expr.span_respan]
      exact inner.operator least (.binary lhs.span op lhs rhs)

theorem unaryRule_succ :
    Agrees f (Moved (Expr.respan f)) (unaryRule (fuel + 1)) (unaryRule (fuel + 1)) := by
  unfold unaryRule
  apply agrees_peek?.bind
  intro t? u? ahead
  cases ahead with
  | none => exact inner.suffixed
  | @some t u matched =>
    have same : t.kind.unaryOp? = u.kind.unaryOp? := matched.kind.congr Kind.unaryOp? rfl
    simp only [same]
    cases u.kind.unaryOp? with
    | none => exact inner.suffixed
    | some op =>
      apply agrees_descend.andThen
      apply agrees_advance.andThen
      apply inner.unary.bind_moved
      intro operand
      apply agrees_ascend.andThen
      apply agrees_pure
      rw [matched.span]
      rfl

theorem suffixedRule_succ :
    Agrees f (Moved (Expr.respan f)) (suffixedRule (fuel + 1)) (suffixedRule (fuel + 1)) := by
  unfold suffixedRule
  apply inner.primary.bind_moved
  intro e
  exact agrees_keepingDepth (inner.suffix e)

theorem suffixRule_succ (e : Expr) :
    Agrees f (Moved (Expr.respan f)) (suffixRule (fuel + 1) e)
      (suffixRule (fuel + 1) (e.respan f)) := by
  unfold suffixRule
  apply agrees_peekKind?.bind
  intro k? l? ahead
  cases ahead with
  | none => exact agrees_pure rfl
  | @some k l matched =>
    obtain rfl | ⟨left, right⟩ := matched
    · rw [Expr.span_respan]
      split
      · apply (agrees_parenthesized inner.expr).bind_moved
        intro args
        apply agrees_descend.andThen
        rw [← Expr.respanAll_eq_map]
        exact inner.suffix (.call e.span e args)
      · apply agrees_advance.andThen
        apply inner.expr.bind_moved
        intro key
        refine (agrees_expect rfl).andThen (agrees_descend.andThen ?_)
        exact inner.suffix (.index e.span e key)
      · apply agrees_advance.andThen
        refine agrees_expectName.bind fun name name' matched => agrees_descend.andThen ?_
        rw [matched.lexeme]
        exact inner.suffix (.member e.span e name.lexeme)
      · next kind _ _ _ _ =>
        cases kind.stepOp? with
        | none => exact agrees_pure rfl
        | some op =>
          apply agrees_advance.andThen
          apply agrees_descend.andThen
          exact inner.suffix (.step e.span op e)
      · exact agrees_pure rfl
    · obtain rfl | rfl := eq_of_isName left <;> obtain rfl | rfl := eq_of_isName right <;>
        exact agrees_pure rfl

theorem primaryRule_succ :
    Agrees f (Moved (Expr.respan f)) (primaryRule (fuel + 1)) (primaryRule (fuel + 1)) := by
  unfold primaryRule
  apply agrees_peek?.bind
  intro t? u? ahead
  cases ahead with
  | none => exact agrees_unexpected _ _
  | @some t u matched =>
    simp only [matched.span, matched.lexeme]
    obtain same | ⟨left, right⟩ := matched.kind
    · rw [← same]
      generalize t.kind = kind
      split
      · exact agrees_advance.andThen (agrees_pure rfl)
      · exact agrees_advance.andThen (agrees_pure rfl)
      · exact agrees_advance.andThen (agrees_pure rfl)
      · exact agrees_advance.andThen (agrees_pure rfl)
      · exact agrees_advance.andThen (agrees_pure rfl)
      · apply agrees_advance.andThen
        apply agrees_typeRef.bind_moved
        intro type
        apply (agrees_parenthesized inner.expr).bind_moved
        intro args
        exact agrees_pure (by simp [Moved, Expr.respan, Expr.respanAll_eq_map])
      · apply agrees_advance.andThen
        apply inner.expr.bind_moved
        intro e
        exact (agrees_expect rfl).andThen (agrees_pure rfl)
      · apply agrees_advance.andThen
        apply (agrees_parenthesized inner.expr).bind_moved
        intro args
        exact agrees_pure (by simp [Moved, Expr.respan, Expr.respanAll_eq_map])
      · exact agrees_unexpected _ _
    · obtain kind | kind := eq_of_isName left <;> obtain kind' | kind' := eq_of_isName right <;>
        rw [kind, kind'] <;> exact agrees_advance.andThen (agrees_pure rfl)

theorem succ : ExpressionsAgree f (fuel + 1) where
  expr := inner.exprRule_succ
  assignment := inner.assignmentRule_succ
  binary := inner.binaryRule_succ
  operator := inner.operatorRule_succ
  unary := inner.unaryRule_succ
  suffixed := inner.suffixedRule_succ
  suffix := inner.suffixRule_succ
  primary := inner.primaryRule_succ

end ExpressionsAgree

theorem agrees_expression : Agrees f (Moved (Expr.respan f)) expression expression := by
  have all : ∀ fuel, ExpressionsAgree f fuel := by
    intro fuel
    induction fuel with
    | zero => exact .zero
    | succ fuel ih => exact ih.succ
  exact (all ruleFuel).expr

theorem agrees_initializer :
    Agrees f (Moved (Option.map (Expr.respan f))) initializer initializer := by
  apply (agrees_eat rfl).bind_eq
  intro found
  cases found with
  | true =>
    apply agrees_expression.bind_moved
    intro e
    exact agrees_pure rfl
  | false => exact agrees_pure rfl

theorem agrees_unlessNext {close : Kind} (plain : close.isName = false) :
    Agrees f (Moved (Option.map (Expr.respan f))) (unlessNext close) (unlessNext close) := by
  apply (agrees_isNext plain).bind_eq
  intro found
  cases found with
  | true => exact agrees_pure rfl
  | false =>
    apply agrees_expression.bind_moved
    intro e
    exact agrees_pure rfl

theorem agrees_condition : Agrees f (Moved (Expr.respan f)) condition condition := by
  apply (agrees_expect rfl).andThen
  apply agrees_expression.bind_moved
  intro e
  exact (agrees_expect rfl).andThen (agrees_pure rfl)

theorem agrees_semicolon : Agrees f Eq semicolon semicolon :=
  (agrees_expect rfl).andThen (agrees_pure rfl)

def declaresBehind : List Token → Bool
  | [] => false
  | second :: rest =>
    second.kind.isName ||
      (second.kind == .symbol .leftBracket &&
        rest.head?.map (·.kind) == some (.symbol .rightBracket))

theorem Alike.declaresBehind {ts us : List Token} (alike : Alike f ts us) :
    declaresBehind ts = declaresBehind us := by
  cases alike with
  | nil => rfl
  | @cons t u ts us matched _ rest =>
    have bracket := matched.kind.eq_iff (.symbol .leftBracket) rfl
    have closing := rest.head_kind (.symbol .rightBracket) rfl
    rw [Bool.eq_iff_iff]
    simp only [Syntax.declaresBehind, Bool.or_eq_true, Bool.and_eq_true, beq_iff_eq, bracket,
      closing, matched.kind.names]

theorem declaresBehind_paren {ts : List Token}
    (opens : ts.head?.map (·.kind) = some (.symbol .leftParen)) : declaresBehind ts = false := by
  cases ts with
  | nil => rfl
  | cons t ts =>
    have kind : t.kind = .symbol .leftParen := by simpa using opens
    simp [declaresBehind, kind, Kind.isName]

/-- A name before a parenthesis begins no declaration, whatever its kind. -/
theorem Alike.startsDeclaration {ts us : List Token} (alike : Alike f ts us) :
    startsDeclaration ts = startsDeclaration us := by
  cases alike with
  | nil => rfl
  | @cons t u ts us matched before rest =>
    have word : isTypeWord t.kind = isTypeWord u.kind := matched.kind.congr isTypeWord rfl
    have split : ∀ (t : Token) (ts : List Token), Syntax.startsDeclaration (t :: ts) =
        (isTypeWord t.kind || (modifier? t).isSome ||
          (t.kind == .identifier && Syntax.declaresBehind ts)) := fun _ _ => rfl
    rw [split, split, word, matched.modifier?, ← rest.declaresBehind]
    obtain same | opens := before
    · rw [same]
    · rw [declaresBehind_paren opens, Bool.and_false, Bool.and_false]

theorem agrees_localVariable (span : Span) :
    Agrees f (Moved (VariableDecl.respan f)) (localVariable span) (localVariable (f span)) := by
  apply agrees_modifiers.bind_eq
  intro words
  apply agrees_typeRef.bind_moved
  intro type
  apply agrees_expectName.bind
  intro name name' matched
  apply agrees_initializer.bind_moved
  intro init
  refine agrees_semicolon.andThen (agrees_pure ?_)
  rw [matched.lexeme]
  rfl

theorem agrees_simpleStatement :
    Agrees f (Moved (Stmt.respan f)) simpleStatement simpleStatement := by
  apply agrees_get.bind
  intro s s' same
  apply agrees_peek?.bind
  intro t? u? ahead
  have otherwise : Agrees f (Moved (Stmt.respan f))
      (do let e ← expression; semicolon; return .eval e)
      (do let e ← expression; semicolon; return .eval e) := by
    refine agrees_expression.bind_moved ?_
    intro e
    exact agrees_semicolon.andThen (agrees_pure rfl)
  rw [same.rest.startsDeclaration]
  cases startsDeclaration s'.rest with
  | false => exact otherwise
  | true =>
    cases ahead with
    | none => exact otherwise
    | @some t u matched =>
      simp only [matched.span]
      apply (agrees_localVariable t.span).bind_moved
      intro decl
      exact agrees_pure rfl

theorem agrees_forInit :
    Agrees f (Moved (Option.map (Stmt.respan f))) forInit forInit := by
  apply (agrees_eat rfl).bind_eq
  intro found
  cases found with
  | true => exact agrees_pure rfl
  | false =>
    apply agrees_simpleStatement.bind_moved
    intro init
    exact agrees_pure rfl

structure StatementsAgree (f : Span → Span) (fuel : Nat) : Prop where
  statement : Agrees f (Moved (Stmt.respan f)) (statementRule fuel) (statementRule fuel)
  bare : Agrees f (Moved (Stmt.respan f)) (bareStatementRule fuel) (bareStatementRule fuel)
  block : Agrees f (Moved (Block.respan f)) (blockRule fuel) (blockRule fuel)

namespace StatementsAgree

theorem zero : StatementsAgree f 0 where
  statement := agrees_tooDeep
  bare := agrees_tooDeep
  block := agrees_tooDeep

variable {fuel : Nat} (inner : StatementsAgree f fuel)
include inner

theorem statementRule_succ :
    Agrees f (Moved (Stmt.respan f)) (statementRule (fuel + 1)) (statementRule (fuel + 1)) := by
  unfold statementRule
  apply agrees_descend.andThen
  apply inner.bare.bind_moved
  intro s
  exact agrees_ascend.andThen (agrees_pure rfl)

theorem blockRule_succ :
    Agrees f (Moved (Block.respan f)) (blockRule (fuel + 1)) (blockRule (fuel + 1)) := by
  unfold blockRule
  refine (agrees_expect rfl).bind fun brace brace' matched =>
    (agrees_untilBrace inner.statement).bind_moved ?_
  intro statements
  apply agrees_pure
  simp [Moved, Block.respan, Stmt.respanAll_eq_map, matched.span]

theorem bareStatementRule_succ :
    Agrees f (Moved (Stmt.respan f)) (bareStatementRule (fuel + 1))
      (bareStatementRule (fuel + 1)) := by
  unfold bareStatementRule
  apply agrees_peek?.bind
  intro t? u? ahead
  cases ahead with
  | none => exact agrees_simpleStatement
  | @some t u matched =>
    simp only [matched.span]
    obtain same | ⟨left, right⟩ := matched.kind
    · rw [← same]
      generalize t.kind = kind
      split
      · apply inner.block.bind_moved
        intro block
        exact agrees_pure rfl
      · apply agrees_advance.andThen
        apply agrees_condition.bind_moved
        intro test
        apply inner.statement.bind_moved
        intro onTrue
        apply (agrees_eat rfl).bind_eq
        intro more
        cases more with
        | true =>
          apply inner.statement.bind_moved
          intro onFalse
          exact agrees_pure (by simp [Moved, Stmt.respan])
        | false => exact agrees_pure (by simp [Moved, Stmt.respan])
      · apply agrees_advance.andThen
        apply agrees_condition.bind_moved
        intro test
        apply inner.statement.bind_moved
        intro body
        exact agrees_pure (by simp [Moved, Stmt.respan])
      · apply agrees_advance.andThen
        apply inner.statement.bind_moved
        intro body
        apply (agrees_expect rfl).andThen
        apply agrees_condition.bind_moved
        intro test
        exact agrees_semicolon.andThen (agrees_pure (by simp [Moved, Stmt.respan]))
      · apply agrees_advance.andThen
        apply (agrees_expect rfl).andThen
        apply agrees_forInit.bind_moved
        intro init
        apply (agrees_unlessNext rfl).bind_moved
        intro test
        apply agrees_semicolon.andThen
        apply (agrees_unlessNext rfl).bind_moved
        intro step
        apply (agrees_expect rfl).andThen
        apply inner.statement.bind_moved
        intro body
        apply agrees_pure
        cases init with
        | none => simp [Moved, Stmt.respan]
        | some init => simp [Moved, Stmt.respan]
      · apply agrees_advance.andThen
        apply (agrees_unlessNext rfl).bind_moved
        intro value
        exact agrees_semicolon.andThen (agrees_pure (by simp [Moved, Stmt.respan]))
      · exact agrees_advance.andThen (agrees_semicolon.andThen (agrees_pure rfl))
      · exact agrees_advance.andThen (agrees_semicolon.andThen (agrees_pure rfl))
      · exact agrees_simpleStatement
    · obtain kind | kind := eq_of_isName left <;> obtain kind' | kind' := eq_of_isName right <;>
        rw [kind, kind'] <;> exact agrees_simpleStatement

theorem succ : StatementsAgree f (fuel + 1) where
  statement := inner.statementRule_succ
  bare := inner.bareStatementRule_succ
  block := inner.blockRule_succ

end StatementsAgree

theorem agrees_block : Agrees f (Moved (Block.respan f)) block block := by
  have all : ∀ fuel, StatementsAgree f fuel := by
    intro fuel
    induction fuel with
    | zero => exact .zero
    | succ fuel ih => exact ih.succ
  exact (all ruleFuel).block

theorem agrees_dottedNames (bound : Nat) (found : Array String) :
    Agrees f Eq (dottedNames bound found) (dottedNames bound found) := by
  induction bound generalizing found with
  | zero => exact agrees_pure rfl
  | succ bound ih =>
    apply (agrees_eat rfl).bind_eq
    intro more
    cases more with
    | true =>
      apply agrees_expectName.bind
      intro name name' matched
      rw [matched.lexeme]
      exact ih _
    | false => exact agrees_pure rfl

theorem agrees_importDecl : Agrees f (Moved (Import.respan f)) importDecl importDecl := by
  apply (agrees_expect rfl).bind
  intro word word' opening
  apply agrees_expectName.bind
  intro first first' matched
  apply agrees_get.bind
  intro s s' same
  rw [same.rest.length_eq, matched.lexeme]
  refine (agrees_dottedNames _ _).bind_eq ?_
  intro path
  refine agrees_semicolon.andThen (agrees_pure ?_)
  rw [opening.span]
  rfl

theorem agrees_param : Agrees f (Moved (Param.respan f)) param param := by
  apply agrees_typeRef.bind_moved
  intro type
  refine agrees_expectName.bind fun name name' matched => agrees_pure ?_
  rw [matched.lexeme, matched.span]
  rfl

theorem agrees_member (words : List Modifier) (span : Span) :
    Agrees f (Moved (Member.respan f)) (member words span) (member words (f span)) := by
  apply agrees_typeRef.bind_moved
  intro type
  apply agrees_expectName.bind
  intro name name' matched
  rw [matched.lexeme]
  apply (agrees_isNext rfl).bind_eq
  intro opens
  cases opens with
  | true =>
    apply (agrees_parenthesized agrees_param).bind_moved
    intro params
    apply agrees_block.bind_moved
    intro body
    exact agrees_pure rfl
  | false =>
    apply agrees_initializer.bind_moved
    intro init
    exact agrees_semicolon.andThen (agrees_pure rfl)

theorem agrees_classMember : Agrees f (Moved (Member.respan f)) classMember classMember := by
  apply agrees_peek?.bind
  intro t? u? ahead
  cases ahead with
  | none => exact agrees_unexpected _ _
  | @some t u matched =>
    apply agrees_modifiers.bind_eq
    intro words
    rw [matched.span]
    exact agrees_member words t.span

theorem agrees_baseName :
    Agrees f (Moved (Option.map (BaseName.respan f))) baseName baseName := by
  apply (agrees_eat rfl).bind_eq
  intro found
  cases found with
  | true =>
    refine agrees_expectName.bind fun name name' matched => agrees_pure ?_
    rw [matched.lexeme, matched.span]
    rfl
  | false => exact agrees_pure rfl

theorem agrees_classDecl (words : List Modifier) (word : ClassWord) (span : Span) :
    Agrees f (Moved (ClassDecl.respan f)) (classDecl words word span)
      (classDecl words word (f span)) := by
  apply agrees_expectName.bind
  intro name name' matched
  apply agrees_baseName.bind_moved
  intro base
  apply (agrees_expect rfl).andThen
  apply (agrees_untilBrace agrees_classMember).bind_moved
  intro members
  apply agrees_pure
  rw [matched.lexeme]
  rfl

def Called : List Token → Prop
  | t :: u :: _ => t.kind.isName ∧ u.kind = .symbol .leftParen
  | _ => False

theorem Alike.ahead_kind {ts us : List Token} (alike : Alike f ts us) :
    (ahead? ts).map (·.kind) = (ahead? us).map (·.kind) ∨ Called ts ∧ Called us := by
  cases alike with
  | nil => exact .inl rfl
  | @cons t u ts us matched before rest =>
    by_cases same : t.kind = u.kind
    · refine .inl ?_
      simp only [ahead?, same]
      split <;> simp [same]
    · obtain ⟨left, right⟩ := matched.kind.resolve_left same
      have opens := before.resolve_left same
      cases rest with
      | nil => simp at opens
      | @cons paren paren' ts us matched' =>
        have kind : paren.kind = .symbol .leftParen := by simpa using opens
        have kind' := (matched'.kind.eq_iff (.symbol .leftParen) rfl).mp kind
        exact .inr ⟨⟨left, kind⟩, right, kind'⟩

def Fails {α : Type} (rule : Rule α) (s : State) : Prop :=
  Yields rule s (fun _ => True) fun _ _ => False

theorem Fails.agree {α : Type} {R : α → α → Prop} {rule rule' : Rule α} {s s' : State}
    (fails : Fails rule s) (fails' : Fails rule' s') : Agree f R (rule s) (rule' s') := by
  unfold Fails Yields at fails fails'
  cases run : rule s with
  | ok result => simp [run] at fails
  | error e =>
    cases run' : rule' s' with
    | ok result => simp [run'] at fails'
    | error e' => exact .error

/-- To look at the kind ahead and go on: the two runs see the same kind, unless they are before a
name that is called. -/
theorem agrees_peekKind?_bind {β : Type} {Q : β → β → Prop} {next next' : Option Kind → Rule β}
    (same : ∀ kind?, Agrees f Q (next kind?) (next' kind?))
    (fails : ∀ s, Called s.rest → Fails (next ((ahead? s.rest).map (·.kind))) s)
    (fails' : ∀ s, Called s.rest → Fails (next' ((ahead? s.rest).map (·.kind))) s) :
    Agrees f Q (peekKind? >>= next) (peekKind? >>= next') := by
  have unfolded : ∀ (next : Option Kind → Rule β) (s : State),
      (peekKind? >>= next) s = next ((ahead? s.rest).map (·.kind)) s := fun _ _ => rfl
  intro s s' matched
  rw [unfolded, unfolded]
  obtain kinds | ⟨called, called'⟩ := matched.rest.ahead_kind
  · rw [kinds]
    exact same _ s s' matched
  · exact (fails s called).agree (fails' s' called')

theorem Called.ahead {ts : List Token} (called : Called ts) :
    ∃ t u rest, ts = t :: u :: rest ∧ t.kind.isName ∧ u.kind = .symbol .leftParen ∧
      ahead? ts = some t := by
  match ts, called with
  | t :: u :: rest, ⟨name, opens⟩ =>
    refine ⟨t, u, rest, rfl, name, opens, ahead?_cons ?_⟩
    intro ended
    simp [ended, Kind.isName] at name

/-- No member begins with a name that is called: its own name is missing. -/
theorem fails_member (words : List Modifier) (span : Span) {s : State} (called : Called s.rest) :
    Fails (member words span) s := by
  obtain ⟨rest, depth⟩ := s
  obtain ⟨t, u, rest, rfl, name, opens, ahead⟩ := called.ahead
  have typed : typeName? t = some (.named t.lexeme) := by
    obtain kind | kind := eq_of_isName name <;> simp [typeName?, kind]
  have pairs : bracketPairs 0 (u :: rest) = (0, u :: rest) := by
    cases rest <;> simp [bracketPairs, opens]
  have paren : ahead? (u :: rest) = some u := ahead?_cons (by simp [opens])
  simp [Fails, member, typeRef, ahead, typed, pairs, expectName, yields_take, paren, opens,
    Kind.isName]

def declarationOf (words : List Modifier) (span : Span) : Option Kind → Rule Declaration
  | none => unexpected .declaration
  | some kind =>
    match classWord? kind with
    | some word => do
      advance
      return .ofClass (← classDecl words word span)
    | none =>
      if isTypeWord kind || kind == .identifier then do
        match ← member words span with
        | .field decl => return .ofVariable decl
        | .method decl => return .ofFunction decl
      else unexpected .declaration

theorem declaration_eq :
    declaration = peek? >>= fun
      | none => unexpected .declaration
      | some first => modifiers >>= fun words => peekKind? >>= declarationOf words first.span :=
  rfl

theorem agrees_declarationOf (words : List Modifier) (span : Span) (kind? : Option Kind) :
    Agrees f (Moved (Declaration.respan f)) (declarationOf words span kind?)
      (declarationOf words (f span) kind?) := by
  cases kind? with
  | none => exact agrees_unexpected _ _
  | some kind =>
    simp only [declarationOf]
    split
    · apply agrees_advance.andThen
      apply (agrees_classDecl words _ span).bind_moved
      intro decl
      exact agrees_pure rfl
    · split
      · apply (agrees_member words span).bind_moved
        intro decl
        cases decl with
        | field decl => exact agrees_pure rfl
        | method decl => exact agrees_pure rfl
      · exact agrees_unexpected _ _

theorem fails_declarationOf (words : List Modifier) (span : Span) (s : State)
    (called : Called s.rest) :
    Fails (declarationOf words span ((ahead? s.rest).map (·.kind))) s := by
  obtain ⟨t, u, rest, _, name, _, ahead⟩ := called.ahead
  rw [ahead, Option.map_some]
  obtain kind | kind := eq_of_isName name
  · have tried : declarationOf words span (some .identifier) = member words span >>= fun
        | .field decl => pure (.ofVariable decl)
        | .method decl => pure (.ofFunction decl) := rfl
    rw [kind, tried, Fails, yields_bind]
    exact (fails_member words span called).imp (fun _ => id) fun _ _ => False.elim
  · rw [kind]
    exact yields_unexpected.mpr trivial

theorem agrees_declaration :
    Agrees f (Moved (Declaration.respan f)) declaration declaration := by
  rw [declaration_eq]
  apply agrees_peek?.bind
  intro t? u? ahead
  cases ahead with
  | none => exact agrees_unexpected _ _
  | @some first first' matched =>
    apply agrees_modifiers.bind_eq
    intro words
    simp only [matched.span]
    exact agrees_peekKind?_bind (agrees_declarationOf words first.span)
      (fails_declarationOf words _) (fails_declarationOf words _)

def respanFile (f : Span → Span) (file : List Import × List Declaration) :
    List Import × List Declaration :=
  (file.1.map (·.respan f), file.2.map (·.respan f))

theorem agrees_fileRule (bound : Nat) (imports imports' : Array Import)
    (items items' : Array Declaration)
    (sameImports : imports'.toList = imports.toList.map (·.respan f))
    (sameItems : items'.toList = items.toList.map (·.respan f)) :
    Agrees f (Moved (respanFile f)) (fileRule bound imports items)
      (fileRule bound imports' items') := by
  induction bound generalizing imports imports' items items' with
  | zero => exact agrees_unexpected _ _
  | succ bound ih =>
    apply agrees_peekKind?.bind
    intro k? l? ahead
    cases ahead with
    | none =>
      apply agrees_pure
      simp [Moved, respanFile, sameImports, sameItems]
    | @some k l matched =>
      simp only [matched.eq_iff (.keyword .kwImport) rfl]
      split
      · apply agrees_importDecl.bind_moved
        intro i
        exact ih _ _ _ _ (by simp [sameImports]) sameItems
      · apply agrees_declaration.bind_moved
        intro item
        exact ih _ _ _ _ sameImports (by simp [sameItems])

/-- Two parses fail together, or give trees that differ in their places only. -/
theorem parse_alike {ts us : List Token} (alike : Alike f ts us) :
    (∃ tree, parse ts = .ok tree ∧ parse us = .ok (tree.respan f)) ∨
      ∃ e e', parse ts = .error e ∧ parse us = .error e' := by
  have file : (ts.head?.map (·.file)).getD {} = (us.head?.map (·.file)).getD {} := by
    cases alike with
    | nil => rfl
    | cons matched => simp [matched.file]
  have ran := agrees_fileRule (ts.length + 1) #[] #[] #[] #[] rfl rfl ⟨ts, 0⟩ ⟨us, 0⟩ ⟨alike, rfl⟩
  simp only [parse, StateT.run, ← file, ← alike.length_eq]
  generalize fileRule (ts.length + 1) #[] #[] ⟨ts, 0⟩ = run at ran ⊢
  generalize fileRule (ts.length + 1) #[] #[] ⟨us, 0⟩ = run' at ran ⊢
  cases ran with
  | error => exact .inr ⟨_, _, rfl, rfl⟩
  | ok moved =>
    cases moved
    exact .inl ⟨_, rfl, rfl⟩

end

end CherryLang.Syntax
