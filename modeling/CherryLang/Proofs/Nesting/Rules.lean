import CherryLang.Proofs.Horizon.Parsing
import CherryLang.Proofs.Nesting.Course

/-! The grammar rules keep to the levels that they enter. An expression, a statement and an operator
before its operand leave their level themselves; the operators and suffixes behind an operand only
enter levels, and `keepingDepth` leaves all of those at once. -/
namespace CherryLang.Syntax

theorem steady_level {α β : Type} {rule : Rule α} {f : α → β} (steady : Steady rule) :
    Steady (do descend; let a ← rule; ascend; return f a) :=
  fun _ _ here => runs_descend here fun free =>
    steady.leaving ⟨Nat.succ_le_succ here.low, free⟩

structure ExpressionsSteady (fuel : Nat) : Prop where
  expr : Steady (exprRule fuel)
  assignment : Steady (assignmentRule fuel)
  binary (least : Nat) : Steady (binaryRule fuel least)
  operator (least : Nat) (lhs : Expr) : Steady (operatorRule fuel least lhs)
  unary : Steady (unaryRule fuel)
  suffixed : Steady (suffixedRule fuel)
  suffix (e : Expr) : Steady (suffixRule fuel e)
  primary : Steady (primaryRule fuel)

namespace ExpressionsSteady

theorem zero : ExpressionsSteady 0 where
  expr := steady_tooDeep
  assignment := steady_tooDeep
  binary _ := steady_tooDeep
  operator _ _ := steady_tooDeep
  unary := steady_tooDeep
  suffixed := steady_tooDeep
  suffix _ := steady_tooDeep
  primary := steady_tooDeep

variable {fuel : Nat} (inner : ExpressionsSteady fuel)
include inner

theorem args : Steady (parenthesized (exprRule fuel)) := steady_parenthesized inner.expr

theorem exprRule_succ : Steady (exprRule (fuel + 1)) := by
  unfold exprRule
  exact steady_level inner.assignment

theorem assignmentRule_succ : Steady (assignmentRule (fuel + 1)) := by
  unfold assignmentRule
  apply (inner.binary 1).bind
  intro target
  refine steady_peekKind? (steady_pure target) fun kind => ?_
  rw [Option.bind_some]
  cases kind.assignOp? with
  | none => exact (steady_pure target).follows
  | some op =>
    dsimp only
    split
    · apply steady_advance
      exact inner.expr.ends
    · exact (steady_throw _).follows

theorem binaryRule_succ (least : Nat) : Steady (binaryRule (fuel + 1) least) := by
  unfold binaryRule
  exact inner.unary.bind fun lhs => (inner.operator least lhs).keepingDepth

theorem operatorRule_succ (least : Nat) (lhs : Expr) :
    Steady (operatorRule (fuel + 1) least lhs) := by
  unfold operatorRule
  refine steady_peekKind? (steady_pure lhs) fun kind => ?_
  rw [Option.bind_some]
  cases kind.binaryOp? with
  | none => exact (steady_pure lhs).follows
  | some op =>
    dsimp only
    split
    · exact (steady_pure lhs).follows
    · apply SteadyAhead.descend
      apply steady_advance
      exact (inner.binary _).bind fun rhs => inner.operator least _

theorem unaryRule_succ : Steady (unaryRule (fuel + 1)) := by
  unfold unaryRule
  refine steady_peek? inner.suffixed fun first => ?_
  dsimp only
  cases first.kind.unaryOp? with
  | none => exact inner.suffixed.follows
  | some op =>
    intro floor s here live
    refine runs_descend here fun free => ?_
    have entered : State.Between (floor + 1) ⟨s.rest, s.depth + 1⟩ :=
      ⟨Nat.succ_le_succ here.low, free⟩
    refine runs_advance ⟨Nat.le_of_succ_le entered.low, entered.high⟩ live ?_
    exact inner.unary.leaving ⟨entered.low, entered.high⟩

theorem suffixedRule_succ : Steady (suffixedRule (fuel + 1)) := by
  unfold suffixedRule
  exact inner.primary.bind fun e => (inner.suffix e).keepingDepth

theorem suffixRule_succ (e : Expr) : Steady (suffixRule (fuel + 1) e) := by
  unfold suffixRule
  refine steady_peekKind? (steady_pure e) fun kind => ?_
  split
  · apply Steady.follows
    exact inner.args.bind fun args => (inner.suffix _).descend
  · apply steady_advance
    apply inner.expr.bind
    intro index
    exact (steady_expect _).andThen (inner.suffix _).descend
  · apply steady_advance
    exact steady_expectName.bind fun name => (inner.suffix _).descend
  · next kind _ _ _ _ =>
    cases kind.stepOp? with
    | none => exact (steady_pure e).follows
    | some op => exact steady_advance (inner.suffix _).descend
  · exact (steady_pure e).follows

theorem primaryRule_succ : Steady (primaryRule (fuel + 1)) := by
  unfold primaryRule
  refine steady_peek? (steady_unexpected _) fun first => ?_
  dsimp only
  split
  · exact steady_advance (steady_pure _)
  · exact steady_advance (steady_pure _)
  · exact steady_advance (steady_pure _)
  · exact steady_advance (steady_pure _)
  · exact steady_advance (steady_pure _)
  · apply steady_advance
    exact steady_typeRef.bind fun type => inner.args.ends
  · apply steady_advance
    apply inner.expr.bind
    intro e
    exact (steady_expect _).ends
  · exact steady_advance inner.args.ends
  · exact (steady_unexpected _).follows

theorem succ : ExpressionsSteady (fuel + 1) where
  expr := inner.exprRule_succ
  assignment := inner.assignmentRule_succ
  binary := inner.binaryRule_succ
  operator := inner.operatorRule_succ
  unary := inner.unaryRule_succ
  suffixed := inner.suffixedRule_succ
  suffix := inner.suffixRule_succ
  primary := inner.primaryRule_succ

end ExpressionsSteady

theorem ExpressionsSteady.all (fuel : Nat) : ExpressionsSteady fuel := by
  induction fuel with
  | zero => exact .zero
  | succ fuel ih => exact ih.succ

theorem steady_expression : Steady expression := (ExpressionsSteady.all ruleFuel).expr

theorem steady_initializer : Steady initializer := by
  refine (steady_eat _).bind fun found => ?_
  cases found with
  | true => exact steady_expression.ends
  | false => exact steady_pure none

theorem steady_unlessNext (close : Kind) : Steady (unlessNext close) := by
  refine (steady_isNext close).bind fun found => ?_
  cases found with
  | true => exact steady_pure none
  | false => exact steady_expression.ends

theorem steady_condition : Steady condition := by
  apply (steady_expect _).andThen
  apply steady_expression.bind
  intro e
  exact (steady_expect _).ends

theorem steady_semicolon : Steady semicolon := (steady_expect _).ends

theorem steady_localVariable (span : Span) : Steady (localVariable span) := by
  refine steady_modifiers.bind fun words => steady_typeRef.bind fun type => ?_
  refine steady_expectName.bind fun name => steady_initializer.bind fun init => ?_
  exact steady_semicolon.ends

theorem steady_simpleStatement : Steady simpleStatement := by
  have otherwise : Steady (do let e ← expression; semicolon; return Stmt.eval e) :=
    steady_expression.bind fun e => steady_semicolon.ends
  unfold simpleStatement
  refine steady_look (fun _ => rfl) fun s => ?_
  cases startsDeclaration s.rest with
  | false => exact steady_peek? otherwise fun _ => otherwise.follows
  | true => exact steady_peek? otherwise fun first => (steady_localVariable first.span).ends.follows

theorem steady_forInit : Steady forInit := by
  refine (steady_eat _).bind fun empty => ?_
  cases empty with
  | true => exact steady_pure none
  | false => exact steady_simpleStatement.ends

structure StatementsSteady (fuel : Nat) : Prop where
  statement : Steady (statementRule fuel)
  bare : Steady (bareStatementRule fuel)
  block : Steady (blockRule fuel)

namespace StatementsSteady

theorem zero : StatementsSteady 0 where
  statement := steady_tooDeep
  bare := steady_tooDeep
  block := steady_tooDeep

variable {fuel : Nat} (inner : StatementsSteady fuel)
include inner

theorem statementRule_succ : Steady (statementRule (fuel + 1)) := by
  unfold statementRule
  exact steady_level inner.bare

theorem blockRule_succ : Steady (blockRule (fuel + 1)) := by
  unfold blockRule
  apply (steady_expect _).bind
  intro brace
  exact (steady_untilBrace inner.statement).ends

theorem bareStatementRule_succ : Steady (bareStatementRule (fuel + 1)) := by
  unfold bareStatementRule
  refine steady_peek? steady_simpleStatement fun first => ?_
  dsimp only
  split
  · exact inner.block.ends.follows
  · refine steady_advance (steady_condition.bind fun test => ?_)
    refine inner.statement.bind fun onTrue => (steady_eat _).bind fun found => ?_
    cases found with
    | true => exact inner.statement.ends
    | false => exact steady_pure _
  · refine steady_advance (steady_condition.bind fun test => ?_)
    exact inner.statement.ends
  · refine steady_advance (inner.statement.bind fun body => ?_)
    refine (steady_expect _).andThen (steady_condition.bind fun test => ?_)
    exact steady_semicolon.ends
  · refine steady_advance ((steady_expect _).andThen ?_)
    refine steady_forInit.bind fun init => (steady_unlessNext _).bind fun test => ?_
    refine steady_semicolon.andThen ((steady_unlessNext _).bind fun step => ?_)
    exact (steady_expect _).andThen inner.statement.ends
  · refine steady_advance ((steady_unlessNext _).bind fun value => ?_)
    exact steady_semicolon.ends
  · exact steady_advance steady_semicolon.ends
  · exact steady_advance steady_semicolon.ends
  · exact steady_simpleStatement.follows

theorem succ : StatementsSteady (fuel + 1) where
  statement := inner.statementRule_succ
  bare := inner.bareStatementRule_succ
  block := inner.blockRule_succ

end StatementsSteady

theorem StatementsSteady.all (fuel : Nat) : StatementsSteady fuel := by
  induction fuel with
  | zero => exact .zero
  | succ fuel ih => exact ih.succ

theorem steady_block : Steady block := (StatementsSteady.all ruleFuel).block

theorem steady_dottedNames (bound : Nat) (found : Array String) :
    Steady (dottedNames bound found) := by
  induction bound generalizing found with
  | zero => exact steady_pure _
  | succ bound ih =>
    refine (steady_eat _).bind fun more => ?_
    cases more with
    | true => exact steady_expectName.bind fun name => ih (found.push name.lexeme)
    | false => exact steady_pure _

theorem steady_importDecl : Steady importDecl := by
  refine (steady_expect _).bind fun word => steady_expectName.bind fun first => ?_
  refine steady_look (fun _ => rfl) fun s => ?_
  refine (steady_dottedNames s.rest.length #[first.lexeme]).bind fun path => ?_
  exact steady_semicolon.ends

theorem steady_param : Steady param :=
  steady_typeRef.bind fun _ => steady_expectName.ends

theorem steady_member (words : List Modifier) (span : Span) : Steady (member words span) := by
  refine steady_typeRef.bind fun type => steady_expectName.bind fun name => ?_
  refine (steady_isNext _).bind fun called => ?_
  cases called with
  | true =>
    apply (steady_parenthesized steady_param).bind
    intro params
    exact steady_block.ends
  | false =>
    apply steady_initializer.bind
    intro init
    exact steady_semicolon.ends

theorem steady_classMember : Steady classMember := by
  refine steady_peek? (steady_unexpected _) fun first => ?_
  exact (steady_modifiers.bind fun words => steady_member words first.span).follows

theorem steady_baseName : Steady baseName := by
  refine (steady_eat _).bind fun found => ?_
  cases found with
  | true => exact steady_expectName.ends
  | false => exact steady_pure none

theorem steady_classDecl (words : List Modifier) (word : ClassWord) (span : Span) :
    Steady (classDecl words word span) := by
  refine steady_expectName.bind fun name => steady_baseName.bind fun base => ?_
  refine (steady_expect _).andThen ?_
  exact (steady_untilBrace steady_classMember).ends

theorem steady_declaration : Steady declaration := by
  refine steady_peek? (steady_unexpected _) fun first => Steady.follows ?_
  refine steady_modifiers.bind fun words => ?_
  refine steady_peekKind? (steady_unexpected _) fun kind => ?_
  dsimp only
  cases classWord? kind with
  | some word => exact steady_advance (steady_classDecl words word first.span).ends
  | none =>
    apply Steady.follows
    dsimp only
    split
    · apply (steady_member words first.span).bind
      intro m
      cases m <;> exact steady_pure _
    · exact steady_unexpected _

end CherryLang.Syntax
