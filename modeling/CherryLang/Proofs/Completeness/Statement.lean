import CherryLang.Proofs.Completeness.Expression
import CherryLang.Syntax.Statement

/-! The rule for statements reads every written statement. A declaration is told from an expression
by its first tokens, and an alternative goes to the nearest branch that can take it. -/
namespace CherryLang

theorem StepOp.symbol_ne_leftBracket (op : StepOp) : op.symbol ≠ .leftBracket := by
  cases op <;> decide

theorem BinaryOp.symbol_ne_leftBracket (op : BinaryOp) : op.symbol ≠ .leftBracket := by
  cases op <;> decide

theorem AssignOp.symbol_ne_leftBracket (op : AssignOp) : op.symbol ≠ .leftBracket := by
  cases op <;> decide

namespace Syntax

def startsCompound : Kind → Bool
  | .symbol .leftBrace | .keyword .kwIf | .keyword .kwWhile | .keyword .kwDo | .keyword .kwFor
  | .keyword .kwReturn | .keyword .kwBreak | .keyword .kwContinue => true
  | _ => false

def startsExpression (kind : Kind) : Bool := startsPrimary kind || kind.unaryOp?.isSome

def startsSimple (kind : Kind) : Bool :=
  startsExpression kind || kind.category == .modifier || isTypeWord kind

theorem startsCompound_of_startsSimple {kind : Kind} (simple : startsSimple kind = true) :
    startsCompound kind = false := by
  unfold startsCompound
  split
  case h_9 => rfl
  all_goals exact absurd simple (by decide)

theorem startsSimple_ne {kind other : Kind} (simple : startsSimple kind = true)
    (not : startsSimple other = false) : kind ≠ other := by
  rintro rfl
  rw [simple] at not
  cases not

theorem Operand.starts {e : Expr} {ts : List Token} (written : Operand 0 e ts) :
    ∃ t us, ts = t :: us ∧ startsExpression t.kind = true := by
  obtain ⟨t, us, rfl, primary | ⟨-, unary⟩⟩ := written.leads
  · exact ⟨t, us, rfl, by simp [startsExpression, primary]⟩
  · exact ⟨t, us, rfl, by simp [startsExpression, unary]⟩

/-- Behind a name that starts an expression: no other name, and no empty brackets. -/
def Plain : List Token → Prop
  | [] => True
  | t :: rest => t.kind.isName = false ∧
      (t.kind = .symbol .leftBracket → ∀ u ∈ rest.head?, u.kind ≠ .symbol .rightBracket)

theorem plain_symbol {t : Token} {symbol : Symbol} (rest : List Token)
    (kind : t.kind = .symbol symbol) (other : symbol ≠ .leftBracket) : Plain (t :: rest) := by
  refine ⟨by rw [kind]; rfl, fun opens => ?_⟩
  rw [kind] at opens
  exact absurd (Kind.symbol.inj opens) other

theorem not_typeWord_of_startsExpression {kind : Kind} (starts : startsExpression kind = true) :
    isTypeWord kind = false ∧ ∀ word, kind ≠ .modifier word := by
  cases kind with
  | primitive type => simp [startsExpression, startsPrimary, Kind.unaryOp?] at starts
  | modifier word => simp [startsExpression, startsPrimary, Kind.unaryOp?] at starts
  | keyword word =>
    refine ⟨?_, fun word => Kind.noConfusion⟩
    by_cases inferred : word = .kwVar
    · rw [inferred] at starts
      exact absurd starts (by decide)
    · simp [isTypeWord, Kind.category, inferred]
  | _ => exact ⟨rfl, fun word => Kind.noConfusion⟩

theorem startsDeclaration_eq_false {t : Token} {k : List Token}
    (starts : startsExpression t.kind = true) (plain : t.kind.isName = true → Plain k) :
    startsDeclaration (t :: k) = false := by
  obtain ⟨noType, noModifier⟩ := not_typeWord_of_startsExpression starts
  have noWord : modifier? t = none := by
    unfold modifier?
    split
    · next word found => exact absurd found (noModifier word)
    · rfl
  by_cases named : t.kind = .identifier
  · have behind := plain (by simp [named, Kind.isName])
    rw [named] at noType
    cases k with
    | nil => simp [startsDeclaration, named, noType, noWord]
    | cons u rest =>
      simp only [startsDeclaration, named, noType, noWord, behind.1, Option.isSome_none,
        Bool.false_or, beq_self_eq_true, Bool.true_and, Bool.and_eq_false_iff, beq_eq_false_iff_ne]
      by_cases opens : u.kind = .symbol .leftBracket
      · refine .inr ?_
        have closed := behind.2 opens
        cases rest with
        | nil => simp
        | cons v rest => simpa using closed v rfl
      · exact .inl opens
  · simp [startsDeclaration, noType, noWord, named]

theorem startsDeclaration_other {t : Token} {kind : Kind} (k : List Token) (same : t.kind = kind)
    (starts : startsExpression kind = true) (other : kind.isName = false) :
    startsDeclaration (t :: k) = false := by
  refine startsDeclaration_eq_false (same ▸ starts) fun named => ?_
  rw [same, other] at named
  cases named

theorem startsExpression_unaryOp (op : UnaryOp) :
    startsExpression (.symbol op.symbol) = true := by
  cases op <;> rfl

mutual

theorem Operand.not_declaration {least : Nat} {e : Expr} {ts k : List Token} :
    Operand least e ts → Plain k → startsDeclaration (ts ++ k) = false
  | .bare _ written, plain => written.not_declaration plain
  | .paren opens _ _, _ => startsDeclaration_other _ opens rfl rfl

theorem WritesExpr.not_declaration {e : Expr} {ts k : List Token} :
    WritesExpr e ts → Plain k → startsDeclaration (ts ++ k) = false
  | .literal kind _, _ => startsDeclaration_other _ kind rfl rfl
  | .name name, plain =>
    startsDeclaration_eq_false (by simp [startsExpression, startsPrimary_of_isName name.kind])
      fun _ => plain
  | .self kind, _ => startsDeclaration_other _ kind rfl rfl
  | .null kind, _ => startsDeclaration_other _ kind rfl rfl
  | .unary kind _, _ => startsDeclaration_other _ kind (startsExpression_unaryOp _) rfl
  | .step inner kind, _ => by
    rw [List.append_assoc]
    exact inner.not_declaration (plain_symbol _ kind (StepOp.symbol_ne_leftBracket _))
  | .binary left kind _, _ => by
    rw [List.append_assoc]
    exact left.not_declaration (plain_symbol _ kind (BinaryOp.symbol_ne_leftBracket _))
  | .assign _ left kind _, _ => by
    rw [List.append_assoc]
    exact left.not_declaration (plain_symbol _ kind (AssignOp.symbol_ne_leftBracket _))
  | .call inner inside, _ => by
    obtain ⟨left, vs, split, opens⟩ := inside.opens
    rw [List.append_assoc, split]
    exact inner.not_declaration (plain_symbol _ opens (by decide))
  | .math kind _, _ => startsDeclaration_other _ kind rfl rfl
  | .member inner kind _, _ => by
    rw [List.append_assoc]
    exact inner.not_declaration (plain_symbol _ kind (by decide))
  | .index inner opens inside _, _ => by
    obtain ⟨t, us, rfl, starts⟩ := inside.starts
    rw [List.append_assoc, List.append_assoc]
    refine inner.not_declaration ⟨by rw [opens]; rfl, fun _ u first => ?_⟩
    cases first
    intro closes
    rw [closes] at starts
    cases starts
  | .new kind _ _, _ => startsDeclaration_other _ kind rfl rfl

end

theorem WritesModifiers.front {words : List Modifier} {ms : List Token}
    (written : WritesModifiers words ms) :
    words = [] ∧ ms = [] ∨ ∃ t us word, ms = t :: us ∧ t.kind = .modifier word := by
  cases written with
  | nil => exact .inl ⟨rfl, rfl⟩
  | cons kind rest => exact .inr ⟨_, _, _, rfl, kind⟩

theorem WritesVariable.starts {decl : VariableDecl} {ts : List Token}
    (written : WritesVariable WritesDeclaredType decl ts) (k : List Token) :
    ∃ t us, ts = t :: us ∧ startsSimple t.kind = true ∧ startsDeclaration (ts ++ k) = true := by
  cases written with
  | @mk ms ts is name semi modifiers type named init ends =>
    obtain ⟨-, rfl⟩ | ⟨t, us, word, rfl, kind⟩ := modifiers.front
    · obtain ⟨⟨name', brackets⟩, plain⟩ := type
      next ts t =>
      refine ⟨t, _, rfl, ?_⟩
      cases typeName : decl.type.name with
      | primitive type =>
        rw [typeName] at name'
        have kind : t.kind = .primitive type := name'
        simp [kind, startsSimple, isTypeWord, Kind.category, startsDeclaration]
      | inferred =>
        rw [typeName] at name'
        have kind : t.kind = .keyword .kwVar := name'
        simp [kind, startsSimple, isTypeWord, Kind.category, startsDeclaration]
      | named text =>
        rw [typeName] at name'
        have kind : t.kind = .identifier := by
          have either := name'.kind
          simp only [Kind.isName, Bool.or_eq_true, beq_iff_eq] at either
          exact either.resolve_right (plain t (List.mem_cons_self ..))
        generalize decl.type.arrayDepth = pairs at brackets
        cases brackets with
        | none =>
          simp [kind, startsSimple, startsExpression, startsPrimary, startsDeclaration, named.kind]
        | pair opens closes rest =>
          simp [kind, startsSimple, startsExpression, startsPrimary, startsDeclaration, opens,
            closes]
    · refine ⟨t, _, rfl, ?_, ?_⟩
      · simp [kind, startsSimple, Kind.category]
      · simp [kind, startsDeclaration, modifier?]

section

variable {k : List Token} {depth n : Nat}

theorem yields_semicolon_cons {t : Token} {rest : List Token} {fails : Failure → Prop}
    {good : Unit → State → Prop} (ends : t.kind = .symbol .semicolon) :
    Yields semicolon ⟨t :: rest, depth⟩ fails good ↔ good () ⟨rest, depth⟩ := by
  simp [semicolon, yields_expect_cons ends]

theorem ends_semicolon {t : Token} (ends : t.kind = .symbol .semicolon) (rest : List Token) :
    Ends 0 (t :: rest) :=
  ends_cons 0 rest ends rfl rfl rfl

theorem ends_rightParen {t : Token} (closes : t.kind = .symbol .rightParen) (rest : List Token) :
    Ends 0 (t :: rest) :=
  ends_cons 0 rest closes rfl rfl rfl

theorem reads_initializer {init : Option Expr} {is : List Token} (written : WritesInit init is)
    {semi : Token} (ends : semi.kind = .symbol .semicolon) :
    Yields initializer ⟨is ++ semi :: k, depth⟩ (TooDeep (nestingLimit < depth + is.length))
      fun init' s => init'.map bareExpr = init.map bareExpr ∧ s = ⟨semi :: k, depth⟩ := by
  cases written with
  | none => simp [initializer, yields_eat, ahead?, ends]
  | @some e ts eq kind value =>
    simp only [initializer, yields_bind, List.cons_append, yields_eat_cons kind, ne_eq,
      reduceCtorEq, not_false_eq_true, if_true]
    refine (reads_expression depth ts.length value (Nat.le_refl _) (ends_semicolon ends k)).imp
      (TooDeep.imp fun _ => by simp only [List.length_cons]; omega) ?_
    rintro e' s ⟨same, rfl⟩
    simp [same]

theorem reads_unlessNext {value : Option Expr} {ts : List Token} (written : WritesOptional value ts)
    {close : Token} {kind : Kind} (closes : close.kind = kind) (live : kind ≠ .endOfStream)
    (other : startsExpression kind = false) (ends : Ends 0 (close :: k)) :
    Yields (unlessNext kind) ⟨ts ++ close :: k, depth⟩
      (TooDeep (nestingLimit < depth + ts.length))
      fun value' s => value'.map bareExpr = value.map bareExpr ∧ s = ⟨close :: k, depth⟩ := by
  cases written with
  | none => simp [unlessNext, ahead?_cons (closes ▸ live), closes]
  | @some e ts inside =>
    obtain ⟨t, us, split, starts⟩ := inside.starts
    have front : ((ahead? (ts ++ close :: k)).map (·.kind) == some kind) = false := by
      simp only [split, List.cons_append, ahead?]
      split
      · rfl
      · simp only [Option.map_some, beq_eq_false_iff_ne, ne_eq, Option.some.injEq]
        rintro rfl
        rw [starts] at other
        cases other
    simp only [unlessNext, yields_bind, yields_isNext, front, Bool.false_eq_true, if_false]
    apply (reads_expression depth ts.length inside (Nat.le_refl _) ends).imp (fun _ => id)
    rintro e' s ⟨same, rfl⟩
    simp [same]

theorem reads_condition {e : Expr} {cs : List Token} (written : WritesCondition e cs) :
    Yields condition ⟨cs ++ k, depth⟩ (TooDeep (nestingLimit + 1 < depth + cs.length))
      (Gives bareExpr e k depth) := by
  cases written with
  | @mk ts left right opens inside closes =>
    simp only [condition, yields_bind, List.cons_append, List.append_assoc, List.nil_append,
      yields_expect_cons opens, ne_eq, reduceCtorEq, not_false_eq_true]
    refine (reads_expression depth ts.length inside (Nat.le_refl _)
      (ends_rightParen closes k)).imp
      (TooDeep.imp fun _ => by simp only [List.length_append, List.length_cons]; omega) ?_
    rintro e' s ⟨same, rfl⟩
    simp only [yields_expect_cons closes, ne_eq, reduceCtorEq, not_false_eq_true, yields_pure]
    exact ⟨same, rfl⟩

theorem modifier?_of_writesType {type : TypeRef} {ts : List Token} (written : WritesType type ts)
    (rest : List Token) : ∀ t ∈ (ts ++ rest).head?, modifier? t = none := by
  cases written with
  | @mk ts t name brackets =>
    intro u first
    cases first
    have named := typeName?_of_writes name
    unfold modifier?
    split
    · next word kind => simp [typeName?, kind] at named
    · rfl

theorem WritesName.not_bracket {text : String} {t : Token} (named : WritesName text t)
    (rest : List Token) : ∀ u ∈ (t :: rest).head?, u.kind ≠ .symbol .leftBracket := by
  intro u first opens
  cases first
  have kind := named.kind
  simp [opens, Kind.isName] at kind

def bareVariable (decl : VariableDecl) : VariableDecl := decl.respan nowhere

theorem reads_localVariable {decl : VariableDecl} {ts : List Token}
    (written : WritesVariable WritesDeclaredType decl ts) (span : Span) :
    Yields (localVariable span) ⟨ts ++ k, depth⟩ (TooDeep (nestingLimit + 1 < depth + ts.length))
      (Gives bareVariable decl k depth) := by
  cases written with
  | @mk ms ts is name semi modifiers type named init ends =>
    simp only [localVariable, yields_bind, List.append_assoc, List.cons_append, List.nil_append]
    rw [yields_modifiers modifiers (modifier?_of_writesType type.1 _)]
    refine yields_typeRef type.1 (named.not_bracket _) fun place => ?_
    rw [yields_expectName_cons named.kind]
    have someType : 0 < ts.length := by
      obtain ⟨⟨name, brackets⟩, -⟩ := type
      simp
    refine (reads_initializer init ends).imp (TooDeep.imp fun _ => ?_) ?_
    · simp only [List.length_append, List.length_cons]
      omega
    · rintro init' s ⟨same, rfl⟩
      rw [yields_semicolon_cons ends, yields_pure]
      refine ⟨?_, rfl⟩
      simp only [bareVariable, VariableDecl.respan, TypeRef.respan, nowhere, named.lexeme]
      rw [show init'.map (·.respan nowhere) = decl.init.map (·.respan nowhere) from same]

def bareStmt (s : Stmt) : Stmt := s.respan nowhere

theorem WritesSimple.starts {s : Stmt} {ts : List Token} (written : WritesSimple s ts) :
    ∃ t us, ts = t :: us ∧ startsSimple t.kind = true := by
  cases written with
  | declare written =>
    obtain ⟨t, us, rfl, simple, -⟩ := written.starts []
    exact ⟨t, us, rfl, simple⟩
  | eval written ends =>
    obtain ⟨t, us, rfl, starts⟩ := written.starts
    exact ⟨t, _, rfl, by simp [startsSimple, starts]⟩

theorem live_of_startsSimple {t : Token} (simple : startsSimple t.kind = true) :
    t.kind ≠ .endOfStream :=
  startsSimple_ne simple rfl

theorem reads_simpleStatement {s : Stmt} {ts : List Token} (written : WritesSimple s ts) :
    Yields simpleStatement ⟨ts ++ k, depth⟩ (TooDeep (nestingLimit + 1 < depth + ts.length))
      (Gives bareStmt s k depth) := by
  cases written with
  | @declare decl ts written =>
    obtain ⟨t, us, split, simple, starts⟩ := written.starts k
    have front : ahead? (ts ++ k) = some t := by
      rw [split]
      exact ahead?_cons (live_of_startsSimple simple)
    simp only [simpleStatement, yields_bind, yields_get, yields_peek?, starts, front]
    apply (reads_localVariable written t.span).imp (fun _ => id)
    rintro decl' s ⟨same, rfl⟩
    rw [yields_pure]
    exact ⟨congrArg Stmt.declare same, rfl⟩
  | @eval e ts semi written ends =>
    have notDeclared : startsDeclaration (ts ++ semi :: k) = false :=
      written.not_declaration (plain_symbol k ends (by decide))
    simp only [simpleStatement, yields_bind, yields_get, yields_peek?, List.append_assoc,
      List.cons_append, List.nil_append, notDeclared]
    refine (reads_expression depth ts.length written (Nat.le_refl _) (ends_semicolon ends k)).imp
      (TooDeep.imp fun _ => by simp only [List.length_append, List.length_singleton]; omega) ?_
    rintro e' s ⟨same, rfl⟩
    rw [yields_semicolon_cons ends, yields_pure]
    exact ⟨congrArg Stmt.eval same, rfl⟩

theorem reads_forInit {init : Option Stmt} {is : List Token} (written : WritesForInit init is) :
    Yields forInit ⟨is ++ k, depth⟩ (TooDeep (nestingLimit + 1 < depth + is.length))
      fun init' s => init'.map bareStmt = init.map bareStmt ∧ s = ⟨k, depth⟩ := by
  cases written with
  | none ends => simp [forInit, yields_eat_cons ends]
  | @some s _ written =>
    obtain ⟨t, us, split, simple⟩ := written.starts
    have front : (ahead? (is ++ k)).map (·.kind) = some t.kind := by
      simp [split, ahead?_cons (live_of_startsSimple simple)]
    have other : t.kind ≠ .symbol .semicolon := startsSimple_ne simple rfl
    simp only [forInit, yields_bind, yields_eat, front, Option.some.injEq, other, if_false,
      Bool.false_eq_true]
    apply (reads_simpleStatement written).imp (fun _ => id)
    rintro s' t' ⟨same, rfl⟩
    simp [same]

end

/-- An alternative does not follow a statement that would take it. -/
def NoElse (s : Stmt) (k : List Token) : Prop :=
  s.endsOpen = true → ∀ t, ahead? k = some t → t.kind ≠ .keyword .kwElse

def ReadsStmt (n : Nat) : Prop :=
  ∀ depth fuel, 8 * (nestingLimit - depth) + 1 ≤ fuel →
    Reads (statementRule fuel) WritesStmt bareStmt NoElse depth n

def startsStatement (kind : Kind) : Bool := startsSimple kind || startsCompound kind

theorem WritesStmt.starts {s : Stmt} {ts : List Token} (written : WritesStmt s ts) :
    ∃ t us, ts = t :: us ∧ startsStatement t.kind = true := by
  cases written with
  | simple written =>
    obtain ⟨t, us, rfl, simple⟩ := written.starts
    exact ⟨t, us, rfl, by simp [startsStatement, simple]⟩
  | block opens => exact ⟨_, _, rfl, by rw [opens]; rfl⟩
  | branch kind => exact ⟨_, _, rfl, by rw [kind]; rfl⟩
  | branchElse kind => exact ⟨_, _, rfl, by rw [kind]; rfl⟩
  | whileLoop kind => exact ⟨_, _, rfl, by rw [kind]; rfl⟩
  | doLoop kind => exact ⟨_, _, rfl, by rw [kind]; rfl⟩
  | forLoop kind => exact ⟨_, _, rfl, by rw [kind]; rfl⟩
  | ret kind => exact ⟨_, _, rfl, by rw [kind]; rfl⟩
  | breakLoop kind => exact ⟨_, _, rfl, by rw [kind]; rfl⟩
  | continueLoop kind => exact ⟨_, _, rfl, by rw [kind]; rfl⟩

theorem startsStatement_ne {kind other : Kind} (starts : startsStatement kind = true)
    (not : startsStatement other = false) : kind ≠ other := by
  rintro rfl
  rw [starts] at not
  cases not

theorem noElse_cons {s : Stmt} {t : Token} {kind : Kind} (rest : List Token) (same : t.kind = kind)
    (other : kind ≠ .keyword .kwElse) : NoElse s (t :: rest) := by
  intro _ u next
  simp only [ahead?] at next
  split at next
  · cases next
  · cases next
    rw [same]
    exact other

section

variable {k : List Token} {depth fuel n : Nat}

theorem reads_blockRule (stmts : ReadsStmt n) {ss : List Stmt} {ts : List Token}
    {left right : Token} (opens : left.kind = .symbol .leftBrace)
    (inside : Series WritesStmt ss ts) (closes : right.kind = .symbol .rightBrace)
    (short : ts.length ≤ n) (enough : 8 * (nestingLimit - depth) + 2 ≤ fuel) :
    Yields (blockRule fuel) ⟨left :: ts ++ right :: k, depth⟩
      (TooDeep (nestingLimit < depth + ts.length)) fun b s =>
        b.statements.map bareStmt = ss.map bareStmt ∧ s = ⟨k, depth⟩ := by
  obtain ⟨fuel, rfl⟩ : ∃ f, fuel = f + 1 := ⟨fuel - 1, by omega⟩
  have starts : ∀ s ts, WritesStmt s ts → ∃ t us, ts = t :: us ∧ t.kind ≠ .symbol .rightBrace ∧
      t.kind ≠ .endOfStream := by
    intro s ts written
    obtain ⟨t, us, rfl, starts⟩ := written.starts
    exact ⟨t, us, rfl, startsStatement_ne starts rfl, startsStatement_ne starts rfl⟩
  have next : ∀ s s' ts rest, WritesStmt s' ts → NoElse s (ts ++ rest) := by
    intro s s' ts rest written
    obtain ⟨t, us, rfl, starts⟩ := written.starts
    exact noElse_cons _ rfl (startsStatement_ne starts rfl)
  simp only [blockRule, yields_bind, List.cons_append, yields_expect_cons opens, ne_eq,
    reduceCtorEq, not_false_eq_true, untilBrace, yields_get]
  have bounded : ts.length < (ts ++ right :: k).length + 1 :=
    Nat.lt_succ_of_le (List.prefix_append ts _).length_le
  refine (reads_untilClose (stmts depth fuel (by omega))
    (fun s t rest closes => noElse_cons rest closes (by simp)) next starts inside short closes
    bounded #[]).imp (fun _ => id) ?_
  rintro ss' s ⟨same, rfl⟩
  simpa using same

theorem yields_bareStatement_simple {t : Token} {rest : List Token} {fails : Failure → Prop}
    {good : Stmt → State → Prop} (simple : startsSimple t.kind = true) :
    Yields (bareStatementRule (fuel + 1)) ⟨t :: rest, depth⟩ fails good ↔
      Yields simpleStatement ⟨t :: rest, depth⟩ fails good := by
  have other := startsCompound_of_startsSimple simple
  simp only [bareStatementRule, yields_bind, yields_peek?,
    ahead?_cons (live_of_startsSimple simple)]
  split
  case h_9 => rfl
  all_goals
    next kind =>
    rw [kind] at other
    cases other

theorem reads_branch (stmts : ReadsStmt n) {span : Span} {test : Expr} {onTrue : Stmt}
    {cs ts : List Token} {word : Token} (kind : word.kind = .keyword .kwIf)
    (condition : WritesCondition test cs) (first : WritesStmt onTrue ts)
    (short : cs.length + ts.length ≤ n)
    (follow : NoElse (.branch span test onTrue none) k)
    (enough : 8 * (nestingLimit - depth) + 1 ≤ fuel) :
    Yields (bareStatementRule (fuel + 1)) ⟨word :: cs ++ (ts ++ k), depth⟩
      (TooDeep (nestingLimit < depth + (cs.length + ts.length)))
      (Gives bareStmt (.branch span test onTrue none) k depth) := by
  simp only [bareStatementRule, yields_bind, yields_peek?, List.cons_append, ahead?, kind,
    reduceCtorEq, if_false, yields_advance, List.tail_cons]
  apply (reads_condition condition).imp (TooDeep.imp fun _ => by omega)
  rintro test' s ⟨sameTest, rfl⟩
  refine (stmts depth fuel enough first (by omega) fun _ => follow rfl).imp
    (TooDeep.imp fun _ => by omega) ?_
  rintro onTrue' s ⟨same, rfl⟩
  have noElse : ¬ (ahead? k).map (·.kind) = some (.keyword .kwElse) := by
    cases next : ahead? k with
    | none => simp
    | some t => simpa using follow rfl t next
  simp only [yields_eat, if_neg noElse, Bool.false_eq_true, if_false, yields_pure]
  refine ⟨?_, rfl⟩
  simp only [bareStmt, bareExpr, Stmt.respan, nowhere] at same sameTest ⊢
  rw [same, sameTest]

theorem reads_branchElse (stmts : ReadsStmt n) {span : Span} {test : Expr} {onTrue onFalse : Stmt}
    {cs ts us : List Token} {word other : Token} (kind : word.kind = .keyword .kwIf)
    (condition : WritesCondition test cs) (first : WritesStmt onTrue ts)
    (closed : onTrue.endsOpen = false) (otherwise : other.kind = .keyword .kwElse)
    (second : WritesStmt onFalse us) (short : cs.length + ts.length + us.length ≤ n)
    (follow : NoElse (.branch span test onTrue (some onFalse)) k)
    (enough : 8 * (nestingLimit - depth) + 1 ≤ fuel) :
    Yields (bareStatementRule (fuel + 1)) ⟨word :: cs ++ (ts ++ other :: (us ++ k)), depth⟩
      (TooDeep (nestingLimit < depth + (cs.length + ts.length + us.length)))
      (Gives bareStmt (.branch span test onTrue (some onFalse)) k depth) := by
  simp only [bareStatementRule, yields_bind, yields_peek?, List.cons_append, ahead?, kind,
    reduceCtorEq, if_false, yields_advance, List.tail_cons]
  apply (reads_condition condition).imp (TooDeep.imp fun _ => by omega)
  rintro test' s ⟨sameTest, rfl⟩
  -- the alternative is not taken by the first part, which ends in no open branch
  refine (stmts depth fuel enough first (by omega) fun ends => absurd (closed.symm.trans ends)
    (by decide)).imp (TooDeep.imp fun _ => by omega) ?_
  rintro onTrue' s ⟨same, rfl⟩
  simp only [yields_eat_cons otherwise, ne_eq, reduceCtorEq, not_false_eq_true, if_true,
    yields_bind]
  refine (stmts depth fuel enough second (by omega) follow).imp
    (TooDeep.imp fun _ => by omega) ?_
  rintro onFalse' s ⟨sameFalse, rfl⟩
  refine ⟨?_, rfl⟩
  simp only [bareStmt, bareExpr, Stmt.respan, nowhere] at same sameFalse sameTest ⊢
  rw [same, sameTest, sameFalse]

theorem reads_whileLoop (stmts : ReadsStmt n) {span : Span} {test : Expr} {body : Stmt}
    {cs ts : List Token} {word : Token} (kind : word.kind = .keyword .kwWhile)
    (condition : WritesCondition test cs) (inner : WritesStmt body ts)
    (short : cs.length + ts.length ≤ n) (follow : NoElse body k)
    (enough : 8 * (nestingLimit - depth) + 1 ≤ fuel) :
    Yields (bareStatementRule (fuel + 1)) ⟨word :: cs ++ (ts ++ k), depth⟩
      (TooDeep (nestingLimit < depth + (cs.length + ts.length)))
      (Gives bareStmt (.whileLoop span test body) k depth) := by
  simp only [bareStatementRule, yields_bind, yields_peek?, List.cons_append, ahead?, kind,
    reduceCtorEq, if_false, yields_advance, List.tail_cons]
  apply (reads_condition condition).imp (TooDeep.imp fun _ => by omega)
  rintro test' s ⟨sameTest, rfl⟩
  apply (stmts depth fuel enough inner (by omega) follow).imp (TooDeep.imp fun _ => by omega)
  rintro body' s ⟨same, rfl⟩
  refine ⟨?_, rfl⟩
  simp only [bareStmt, bareExpr, Stmt.respan, nowhere] at same sameTest ⊢
  rw [same, sameTest]

theorem reads_doLoop (stmts : ReadsStmt n) {span : Span} {test : Expr} {body : Stmt}
    {cs ts : List Token} {word again semi : Token} (kind : word.kind = .keyword .kwDo)
    (inner : WritesStmt body ts) (repeats : again.kind = .keyword .kwWhile)
    (condition : WritesCondition test cs) (ends : semi.kind = .symbol .semicolon)
    (short : ts.length ≤ n) (enough : 8 * (nestingLimit - depth) + 1 ≤ fuel) :
    Yields (bareStatementRule (fuel + 1))
      ⟨word :: ts ++ again :: (cs ++ semi :: k), depth⟩
      (TooDeep (nestingLimit < depth + (cs.length + ts.length)))
      (Gives bareStmt (.doLoop span body test) k depth) := by
  simp only [bareStatementRule, yields_bind, yields_peek?, List.cons_append, ahead?, kind,
    reduceCtorEq, if_false, yields_advance, List.tail_cons]
  refine (stmts depth fuel enough inner short (noElse_cons _ repeats (by simp))).imp
    (TooDeep.imp fun _ => by omega) ?_
  rintro body' s ⟨same, rfl⟩
  simp only [yields_expect_cons repeats, ne_eq, reduceCtorEq, not_false_eq_true]
  apply (reads_condition condition).imp (TooDeep.imp fun _ => by omega)
  rintro test' s ⟨sameTest, rfl⟩
  rw [yields_semicolon_cons ends, yields_pure]
  refine ⟨?_, rfl⟩
  simp only [bareStmt, bareExpr, Stmt.respan, nowhere] at same sameTest ⊢
  rw [same, sameTest]

theorem bareStmt_forLoop {span span' : Span} {init init' : Option Stmt}
    {test test' step step' : Option Expr} {body body' : Stmt}
    (sameInit : init'.map bareStmt = init.map bareStmt)
    (sameTest : test'.map bareExpr = test.map bareExpr)
    (sameStep : step'.map bareExpr = step.map bareExpr)
    (sameBody : bareStmt body' = bareStmt body) :
    bareStmt (.forLoop span' init' test' step' body') =
      bareStmt (.forLoop span init test step body) := by
  have shows : ∀ span init test step body, bareStmt (.forLoop span init test step body) =
      .forLoop {} (init.map bareStmt) (test.map bareExpr) (step.map bareExpr) (bareStmt body) := by
    intro span init test step body
    cases init <;> rfl
  rw [shows, shows, sameInit, sameTest, sameStep, sameBody]

theorem reads_forLoop (stmts : ReadsStmt n) {span : Span} {init : Option Stmt}
    {test step : Option Expr} {body : Stmt} {is cs ss ts : List Token}
    {word left semi right : Token} (kind : word.kind = .keyword .kwFor)
    (opens : left.kind = .symbol .leftParen) (first : WritesForInit init is)
    (condition : WritesOptional test cs) (ends : semi.kind = .symbol .semicolon)
    (advance : WritesOptional step ss) (closes : right.kind = .symbol .rightParen)
    (inner : WritesStmt body ts) (short : ts.length ≤ n) (follow : NoElse body k)
    (enough : 8 * (nestingLimit - depth) + 1 ≤ fuel) :
    Yields (bareStatementRule (fuel + 1))
      ⟨word :: left :: is ++ (cs ++ semi :: (ss ++ right :: (ts ++ k))), depth⟩
      (TooDeep (nestingLimit < depth + (is.length + cs.length + ss.length + ts.length)))
      (Gives bareStmt (.forLoop span init test step body) k depth) := by
  simp only [bareStatementRule, yields_bind, yields_peek?, List.cons_append, ahead?, kind,
    reduceCtorEq, if_false, yields_advance, List.tail_cons, yields_expect_cons opens, ne_eq,
    not_false_eq_true]
  apply (reads_forInit first).imp (TooDeep.imp fun _ => by omega)
  rintro init' s ⟨sameInit, rfl⟩
  refine (reads_unlessNext condition ends (by simp) rfl (ends_semicolon ends _)).imp
    (TooDeep.imp fun _ => by omega) ?_
  rintro test' s ⟨sameTest, rfl⟩
  rw [yields_semicolon_cons ends]
  refine (reads_unlessNext advance closes (by simp) rfl (ends_rightParen closes _)).imp
    (TooDeep.imp fun _ => by omega) ?_
  rintro step' s ⟨sameStep, rfl⟩
  simp only [yields_expect_cons closes, ne_eq, reduceCtorEq, not_false_eq_true]
  apply (stmts depth fuel enough inner short follow).imp (TooDeep.imp fun _ => by omega)
  rintro body' s ⟨same, rfl⟩
  exact ⟨bareStmt_forLoop sameInit sameTest sameStep same, rfl⟩

theorem reads_return {span : Span} {value : Option Expr} {ts : List Token} {word semi : Token}
    (kind : word.kind = .keyword .kwReturn) (result : WritesOptional value ts)
    (ends : semi.kind = .symbol .semicolon) :
    Yields (bareStatementRule (fuel + 1)) ⟨word :: ts ++ semi :: k, depth⟩
      (TooDeep (nestingLimit < depth + ts.length)) (Gives bareStmt (.ret span value) k depth) := by
  simp only [bareStatementRule, yields_bind, yields_peek?, List.cons_append, ahead?, kind,
    reduceCtorEq, if_false, yields_advance, List.tail_cons]
  refine (reads_unlessNext result ends (by simp) rfl (ends_semicolon ends _)).imp
    (fun _ => id) ?_
  rintro value' s ⟨same, rfl⟩
  rw [yields_semicolon_cons ends, yields_pure]
  exact ⟨congrArg (Stmt.ret {}) same, rfl⟩

theorem reads_bareStatement (stmts : ReadsStmt n) {s : Stmt} {ts : List Token}
    (written : WritesStmt s ts) (short : ts.length ≤ n + 1) (follow : NoElse s k)
    (enough : 8 * (nestingLimit - depth) + 3 ≤ fuel) :
    Yields (bareStatementRule fuel) ⟨ts ++ k, depth⟩
      (TooDeep (nestingLimit + 1 < depth + ts.length)) (Gives bareStmt s k depth) := by
  obtain ⟨fuel, rfl⟩ : ∃ f, fuel = f + 1 := ⟨fuel - 1, by omega⟩
  have fits : 8 * (nestingLimit - depth) + 1 ≤ fuel := by omega
  cases written with
  | simple written =>
    obtain ⟨t, us, rfl, simple⟩ := written.starts
    rw [List.cons_append, yields_bareStatement_simple simple]
    exact reads_simpleStatement written
  | @block span ss ts left right opens inside closes =>
    simp only [List.length_append, List.length_cons, List.length_nil] at short ⊢
    simp only [bareStatementRule, yields_bind, yields_peek?, List.cons_append, List.append_assoc,
      List.nil_append, ahead?, opens, reduceCtorEq, if_false]
    refine (reads_blockRule stmts opens inside closes (by omega) (by omega)).imp
      (TooDeep.imp fun _ => by omega) ?_
    rintro b s ⟨same, rfl⟩
    refine ⟨?_, rfl⟩
    simp only [bareStmt, Stmt.respan, Stmt.respanAll_eq_map, nowhere] at same ⊢
    exact congrArg (Stmt.block {}) same
  | branch kind test first =>
    simp only [List.length_append, List.length_cons] at short ⊢
    rw [List.append_assoc]
    exact (reads_branch stmts kind test first (by omega) follow fits).imp
      (TooDeep.imp fun _ => by omega) fun _ _ => id
  | branchElse kind test first closed otherwise second =>
    simp only [List.length_append, List.length_cons] at short ⊢
    simp only [List.append_assoc, List.cons_append]
    exact (reads_branchElse stmts kind test first closed otherwise second (by omega) follow
      fits).imp (TooDeep.imp fun _ => by omega) fun _ _ => id
  | whileLoop kind test inner =>
    simp only [List.length_append, List.length_cons] at short ⊢
    rw [List.append_assoc]
    exact (reads_whileLoop stmts kind test inner (by omega) follow fits).imp
      (TooDeep.imp fun _ => by omega) fun _ _ => id
  | doLoop kind inner repeats test ends =>
    simp only [List.length_append, List.length_cons, List.length_nil] at short ⊢
    simp only [List.append_assoc, List.cons_append, List.nil_append]
    exact (reads_doLoop stmts kind inner repeats test ends (by omega) fits).imp
      (TooDeep.imp fun _ => by omega) fun _ _ => id
  | forLoop kind opens first test ends advance closes inner =>
    simp only [List.length_append, List.length_cons] at short ⊢
    simp only [List.append_assoc, List.cons_append]
    exact (reads_forLoop stmts kind opens first test ends advance closes inner (by omega) follow
      fits).imp (TooDeep.imp fun _ => by omega) fun _ _ => id
  | ret kind result ends =>
    simp only [List.length_append, List.length_cons, List.length_nil]
    simp only [List.append_assoc, List.cons_append, List.nil_append]
    exact (reads_return kind result ends).imp (TooDeep.imp fun _ => by omega) fun _ _ => id
  | breakLoop kind ends =>
    simp only [bareStatementRule, yields_bind, yields_peek?, List.cons_append, List.nil_append,
      ahead?, kind, reduceCtorEq, if_false, yields_advance, List.tail_cons,
      yields_semicolon_cons ends, yields_pure]
    exact ⟨rfl, rfl⟩
  | continueLoop kind ends =>
    simp only [bareStatementRule, yields_bind, yields_peek?, List.cons_append, List.nil_append,
      ahead?, kind, reduceCtorEq, if_false, yields_advance, List.tail_cons,
      yields_semicolon_cons ends, yields_pure]
    exact ⟨rfl, rfl⟩

end

theorem reads_statement (n : Nat) : ReadsStmt n := by
  induction n with
  | zero =>
    intro depth fuel _ s ts k written short
    obtain ⟨t, us, rfl, -⟩ := written.starts
    simp at short
  | succ n ih =>
    intro depth fuel enough s ts k written short follow
    obtain ⟨fuel, rfl⟩ : ∃ f, fuel = f + 1 := ⟨fuel - 1, by omega⟩
    have nonempty : 0 < ts.length := by
      obtain ⟨t, us, rfl, -⟩ := written.starts
      simp
    simp only [statementRule, yields_bind, yields_descend]
    split
    · refine (reads_bareStatement ih written short follow (by omega)).imp
        (TooDeep.imp fun _ => by omega) ?_
      rintro s' t ⟨same, rfl⟩
      simp only [yields_ascend, Nat.add_sub_cancel, yields_pure]
      exact ⟨same, rfl⟩
    · exact ⟨rfl, by omega⟩

def bareBlock (b : Block) : Block := b.respan nowhere

theorem reads_block {b : Block} {ts k : List Token} {depth : Nat} (written : WritesBlock b ts) :
    Yields block ⟨ts ++ k, depth⟩ (TooDeep (nestingLimit + 1 < depth + ts.length))
      (Gives bareBlock b k depth) := by
  cases written with
  | @mk ts left right opens inside closes =>
    simp only [List.length_append, List.length_cons, List.length_nil]
    simp only [List.append_assoc, List.cons_append, List.nil_append]
    refine (reads_blockRule (reads_statement ts.length) opens inside closes (Nat.le_refl _)
      (by unfold ruleFuel; omega)).imp (TooDeep.imp fun _ => by omega) ?_
    rintro b' s ⟨same, rfl⟩
    refine ⟨?_, rfl⟩
    simp only [bareBlock, Block.respan, Stmt.respanAll_eq_map, nowhere] at same ⊢
    exact congrArg (Block.mk · {}) same

end Syntax

end CherryLang
