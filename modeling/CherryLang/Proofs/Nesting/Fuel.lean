import CherryLang.Proofs.Nesting.Recursion

/-! The fuel of expressions and statements. From one call that enters a level to the next there are
six calls at most for expressions and three for statements, and there are no more levels than the
limit. -/
namespace CherryLang.Syntax

/-- The two rules do the same where at least `floor` levels are open. -/
def Coincide {α : Type} (floor : Nat) (rule rule' : Rule α) : Prop :=
  ∀ s : State, s.Between floor → rule s = rule' s

section

variable {α β : Type} {floor : Nat} {rule rule' : Rule α} {next next' : α → Rule β}

theorem coincide_self (rule : Rule α) : Coincide floor rule rule := fun _ _ => rfl

theorem Coincide.front (first : Coincide floor rule rule') :
    Coincide floor (rule >>= next) (rule' >>= next) := by
  intro s here
  simp only [Bind.bind, StateT.bind, first s here]

theorem Coincide.bind (first : Coincide floor rule rule') (steady : Steady rule)
    (further : ∀ a, Coincide floor (next a) (next' a)) :
    Coincide floor (rule >>= next) (rule' >>= next') := by
  intro s here
  have behind : (rule >>= next) s = (rule >>= next') s :=
    bind_eq_of_run fun a s' run => further a s' ((steady floor s here).between here run)
  exact behind.trans (first.front s here)

theorem Steady.coincide (steady : Steady rule) (further : ∀ a, Coincide floor (next a) (next' a)) :
    Coincide floor (rule >>= next) (rule >>= next') :=
  (coincide_self rule).bind steady further

theorem coincide_advance {next next' : Rule β} (further : Coincide floor next next') :
    Coincide floor (advance >>= fun _ => next) (advance >>= fun _ => next') :=
  fun _ here => further _ ⟨here.low, here.high⟩

theorem coincide_descend {next next' : Rule β}
    (further : floor < nestingLimit → Coincide (floor + 1) next next') :
    Coincide floor (descend >>= fun _ => next) (descend >>= fun _ => next') := by
  intro s here
  simp only [Bind.bind, StateT.bind, Except.bind, descend_eq]
  by_cases free : s.depth < nestingLimit
  · rw [if_pos free]
    have below : floor < nestingLimit := Nat.lt_of_le_of_lt here.low free
    exact further below _ ⟨Nat.succ_le_succ here.low, free⟩
  · rw [if_neg free]

theorem Coincide.keepingDepth (same : Coincide floor rule rule') :
    Coincide floor (keepingDepth rule) (keepingDepth rule') := by
  intro s here
  rw [keepingDepth_eq, keepingDepth_eq, same s here]

theorem coincide_look {next next' : State → Rule β}
    (further : ∀ s, Coincide floor (next s) (next' s)) :
    Coincide floor (get >>= next) (get >>= next') :=
  fun s here => further s s here

theorem coincide_untilClose (same : Coincide floor rule rule') (steady : Steady rule) (close : Kind)
    (bound : Nat) (found : Array α) :
    Coincide floor (untilClose close rule bound found) (untilClose close rule' bound found) := by
  induction bound generalizing found with
  | zero => exact coincide_self _
  | succ bound ih =>
    unfold untilClose
    refine steady_peek?_pure.ends.coincide fun kind? => ?_
    cases kind? with
    | none => exact coincide_self _
    | some kind =>
      dsimp only
      split
      · exact coincide_self _
      · exact same.bind steady fun a => ih (found.push a)

theorem coincide_untilBrace (same : Coincide floor rule rule') (steady : Steady rule) :
    Coincide floor (untilBrace rule) (untilBrace rule') :=
  coincide_look fun _ => coincide_untilClose same steady _ _ _

theorem coincide_commaList (same : Coincide floor rule rule') (steady : Steady rule) (bound : Nat)
    (found : Array α) :
    Coincide floor (commaList rule bound found) (commaList rule' bound found) := by
  induction bound generalizing found with
  | zero => exact coincide_self _
  | succ bound ih =>
    refine same.bind steady fun a => (steady_eat _).coincide fun more => ?_
    cases more with
    | true => exact ih (found.push a)
    | false => exact coincide_self _

theorem coincide_parenthesized (same : Coincide floor rule rule') (steady : Steady rule) :
    Coincide floor (parenthesized rule) (parenthesized rule') := by
  refine (steady_expect _).coincide fun _ => (steady_eat _).coincide fun empty => ?_
  cases empty with
  | true => exact coincide_self _
  | false => exact coincide_look fun _ => coincide_commaList same steady _ _

end

section

variable {r : Recursion} {each fuel floor : Nat} {steps : r.Call → Nat} {rules rules' : r.Rules}
  (agree : r.Agree (fun call s => each * room s.depth + steps call) fuel rules rules')
include agree

theorem Recursion.Agree.coincide (call : r.Call) (enough : each * room floor + steps call ≤ fuel) :
    Coincide floor (rules call) (rules' call) := by
  intro s here
  refine agree call s here.high (Nat.le_trans ?_ enough)
  have deeper : room s.depth ≤ room floor := Nat.sub_le_sub_left here.low _
  exact Nat.add_le_add_right (Nat.mul_le_mul_left each deeper) _

theorem Recursion.Agree.coincide_inside (call : r.Call) (free : floor < nestingLimit)
    (enough : each * room floor + steps call ≤ fuel + each) :
    Coincide (floor + 1) (rules call) (rules' call) := by
  rw [room_of_lt free, Nat.mul_succ] at enough
  exact agree.coincide call (by omega)

end

/-- The calls of the rules for expressions. -/
inductive ExprCall where
  | expr
  | assignment
  | binary (least : Nat)
  | operator (least : Nat) (lhs : Expr)
  | unary
  | suffixed
  | suffix (e : Expr)
  | primary

namespace ExprCall

/-- The longest way to a call that enters a level, both ends counted. -/
def steps : ExprCall → Nat
  | expr => 1
  | assignment => 6
  | binary _ => 5
  | operator .. => 1
  | unary => 4
  | suffixed => 3
  | suffix _ => 2
  | primary => 2

def need (call : ExprCall) (s : State) : Nat := 6 * room s.depth + call.steps

def rule (fuel : Nat) : ExprCall → Rule Expr
  | expr => exprRule fuel
  | assignment => assignmentRule fuel
  | binary least => binaryRule fuel least
  | operator least lhs => operatorRule fuel least lhs
  | unary => unaryRule fuel
  | suffixed => suffixedRule fuel
  | suffix e => suffixRule fuel e
  | primary => primaryRule fuel

/-- The rules for expressions, with `rules` for the calls in them. -/
def body (rules : ExprCall → Rule Expr) : ExprCall → Rule Expr
  | expr => do
    descend
    let e ← rules assignment
    ascend
    return e
  | assignment => do
    let target ← rules (binary 1)
    match (← peekKind?).bind Kind.assignOp? with
    | none => return target
    | some op =>
      if target.isAssignable then
        advance
        let value ← rules expr
        return .assign target.span op target value
      else throw ⟨.invalidAssignmentTarget, some target.span⟩
  | binary least => do
    let lhs ← rules unary
    keepingDepth (rules (operator least lhs))
  | operator least lhs => do
    match (← peekKind?).bind Kind.binaryOp? with
    | none => return lhs
    | some op =>
      if op.precedence < least then return lhs
      else
        descend
        advance
        let rhs ← rules (binary (op.precedence + 1))
        rules (operator least (.binary lhs.span op lhs rhs))
  | unary => do
    match ← peek? with
    | none => rules suffixed
    | some first =>
      match first.kind.unaryOp? with
      | none => rules suffixed
      | some op =>
        descend
        advance
        let operand ← rules unary
        ascend
        return .unary first.span op operand
  | suffixed => do
    let e ← rules primary
    keepingDepth (rules (suffix e))
  | suffix e => do
    match ← peekKind? with
    | some (.symbol .leftParen) =>
      let args ← parenthesized (rules expr)
      descend
      rules (suffix (.call e.span e args))
    | some (.symbol .leftBracket) =>
      advance
      let index ← rules expr
      let _ ← expect (.symbol .rightBracket)
      descend
      rules (suffix (.index e.span e index))
    | some (.symbol .dot) =>
      advance
      let name ← expectName
      descend
      rules (suffix (.member e.span e name.lexeme))
    | some kind =>
      match kind.stepOp? with
      | none => return e
      | some op =>
        advance
        descend
        rules (suffix (.step e.span op e))
    | none => return e
  | primary => do
    match ← peek? with
    | none => unexpected .expression
    | some first =>
      match first.kind with
      | .literal form =>
        advance
        return .literal first.span form first.lexeme
      | .identifier | .methodIdentifier =>
        advance
        return .name first.span first.lexeme
      | .keyword .kwThis =>
        advance
        return .self first.span
      | .keyword .kwNull =>
        advance
        return .null first.span
      | .keyword .kwNew =>
        advance
        let type ← typeRef
        let args ← parenthesized (rules expr)
        return .new first.span type args
      | .symbol .leftParen =>
        advance
        let inner ← rules expr
        let _ ← expect (.symbol .rightParen)
        return inner
      | .math function =>
        advance
        let args ← parenthesized (rules expr)
        return .math first.span function args
      | _ => unexpected .expression

end ExprCall

def exprCalls : Recursion where
  Call := ExprCall
  Answer _ := Expr
  body := ExprCall.body
  rule := ExprCall.rule

namespace ExprCall

theorem rule_succ (fuel : Nat) : rule (fuel + 1) = body (rule fuel) := by
  funext call
  cases call <;> rfl

theorem steady_rule (fuel : Nat) (call : ExprCall) : Steady (rule fuel call) := by
  have steady := ExpressionsSteady.all fuel
  cases call with
  | expr => exact steady.expr
  | assignment => exact steady.assignment
  | binary least => exact steady.binary least
  | operator least lhs => exact steady.operator least lhs
  | unary => exact steady.unary
  | suffixed => exact steady.suffixed
  | suffix e => exact steady.suffix e
  | primary => exact steady.primary

section

variable {fuel floor : Nat} {rules : ExprCall → Rule Expr}
  (agree : exprCalls.Agree need fuel (rule fuel) rules)
include agree

theorem args (enough : 6 * room floor + 1 ≤ fuel) :
    Coincide floor (parenthesized (rule fuel expr)) (parenthesized (rules expr)) :=
  coincide_parenthesized (agree.coincide expr enough) (steady_rule fuel expr)

theorem coincide_expr (enough : 6 * room floor + 1 ≤ fuel + 1) :
    Coincide floor (body (rule fuel) expr) (body rules expr) := by
  refine coincide_descend fun free => Coincide.front ?_
  exact agree.coincide_inside assignment free (Nat.add_le_add_right enough 5)

theorem coincide_assignment (enough : 6 * room floor + 6 ≤ fuel + 1) :
    Coincide floor (body (rule fuel) assignment) (body rules assignment) := by
  have operand : Coincide floor (rule fuel (binary 1)) (rules (binary 1)) :=
    agree.coincide (binary 1) (by simp only [steps]; omega)
  refine operand.bind (steady_rule _ _) fun target => ?_
  refine steady_peek?_pure.ends.coincide fun kind? => ?_
  cases kind?.bind Kind.assignOp? with
  | none => exact coincide_self _
  | some op =>
    dsimp only
    split
    · exact coincide_advance (agree.coincide expr (by simp only [steps]; omega)).front
    · exact coincide_self _

theorem coincide_binary (least : Nat) (enough : 6 * room floor + 5 ≤ fuel + 1) :
    Coincide floor (body (rule fuel) (binary least)) (body rules (binary least)) := by
  refine (agree.coincide unary (by simp only [steps]; omega)).bind (steady_rule _ _) fun lhs => ?_
  exact (agree.coincide (operator least lhs) (by simp only [steps]; omega)).keepingDepth

theorem coincide_operator (least : Nat) (lhs : Expr) (enough : 6 * room floor + 1 ≤ fuel + 1) :
    Coincide floor (body (rule fuel) (operator least lhs)) (body rules (operator least lhs)) := by
  refine steady_peek?_pure.ends.coincide fun kind? => ?_
  cases kind?.bind Kind.binaryOp? with
  | none => exact coincide_self _
  | some op =>
    dsimp only
    split
    · exact coincide_self _
    · refine coincide_descend fun free => coincide_advance ?_
      refine (agree.coincide_inside (binary _) free (by simp only [steps]; omega)).bind
        (steady_rule _ _) fun rhs => ?_
      exact agree.coincide_inside (operator least _) free (by simp only [steps]; omega)

theorem coincide_unary (enough : 6 * room floor + 4 ≤ fuel + 1) :
    Coincide floor (body (rule fuel) unary) (body rules unary) := by
  have operand : Coincide floor (rule fuel suffixed) (rules suffixed) :=
    agree.coincide suffixed (by simp only [steps]; omega)
  refine steady_peek?_pure.coincide fun first? => ?_
  cases first? with
  | none => exact operand
  | some first =>
    dsimp only
    cases first.kind.unaryOp? with
    | none => exact operand
    | some op =>
      refine coincide_descend fun free => coincide_advance ?_
      exact (agree.coincide_inside unary free (by simp only [steps]; omega)).front

theorem coincide_suffixed (enough : 6 * room floor + 3 ≤ fuel + 1) :
    Coincide floor (body (rule fuel) suffixed) (body rules suffixed) := by
  refine (agree.coincide primary (by simp only [steps]; omega)).bind (steady_rule _ _) fun e => ?_
  exact (agree.coincide (suffix e) (by simp only [steps]; omega)).keepingDepth

theorem coincide_suffix (e : Expr) (enough : 6 * room floor + 2 ≤ fuel + 1) :
    Coincide floor (body (rule fuel) (suffix e)) (body rules (suffix e)) := by
  have link (e : Expr) :
      Coincide floor (do descend; rule fuel (suffix e)) (do descend; rules (suffix e)) :=
    coincide_descend fun free => agree.coincide_inside (suffix e) free (by simp only [steps]; omega)
  refine steady_peek?_pure.ends.coincide fun kind? => ?_
  split
  · exact (args agree (by omega)).bind (steady_parenthesized (steady_rule _ _)) fun args => link _
  · refine coincide_advance ?_
    refine (agree.coincide expr (by simp only [steps]; omega)).bind (steady_rule _ _)
      fun index => ?_
    exact (steady_expect _).coincide fun _ => link _
  · exact coincide_advance (steady_expectName.coincide fun name => link _)
  · next kind _ _ _ =>
    cases kind.stepOp? with
    | none => exact coincide_self _
    | some op => exact coincide_advance (link _)
  · exact coincide_self _

theorem coincide_primary (enough : 6 * room floor + 2 ≤ fuel + 1) :
    Coincide floor (body (rule fuel) primary) (body rules primary) := by
  have list : Coincide floor (parenthesized (rule fuel expr)) (parenthesized (rules expr)) :=
    args agree (by omega)
  refine steady_peek?_pure.coincide fun first? => ?_
  cases first? with
  | none => exact coincide_self _
  | some first =>
    dsimp only
    split
    · exact coincide_self _
    · exact coincide_self _
    · exact coincide_self _
    · exact coincide_self _
    · exact coincide_self _
    · exact coincide_advance (steady_typeRef.coincide fun type => list.front)
    · exact coincide_advance (agree.coincide expr (by simp only [steps]; omega)).front
    · exact coincide_advance list.front
    · exact coincide_self _

theorem coincide_body (call : ExprCall) (enough : 6 * room floor + call.steps ≤ fuel + 1) :
    Coincide floor (body (rule fuel) call) (body rules call) := by
  cases call with
  | expr => exact coincide_expr agree enough
  | assignment => exact coincide_assignment agree enough
  | binary least => exact coincide_binary agree least enough
  | operator least lhs => exact coincide_operator agree least lhs enough
  | unary => exact coincide_unary agree enough
  | suffixed => exact coincide_suffixed agree enough
  | suffix e => exact coincide_suffix agree e enough
  | primary => exact coincide_primary agree enough

end

end ExprCall

theorem exprCalls_falls : exprCalls.Falls ExprCall.need where
  succ := ExprCall.rule_succ
  pos call s := by cases call <;> exact Nat.succ_pos _
  step agree call s within enough :=
    ExprCall.coincide_body agree call enough s ⟨Nat.le_refl _, within⟩

inductive StmtCall where
  | statement
  | bare
  | block

namespace StmtCall

abbrev Answer : StmtCall → Type
  | statement | bare => Stmt
  | block => Block

def steps : StmtCall → Nat
  | statement => 1
  | bare => 3
  | block => 2

def need (call : StmtCall) (s : State) : Nat := 3 * room s.depth + call.steps

def rule (fuel : Nat) : (call : StmtCall) → Rule call.Answer
  | statement => statementRule fuel
  | bare => bareStatementRule fuel
  | block => blockRule fuel

def body (rules : (call : StmtCall) → Rule call.Answer) : (call : StmtCall) → Rule call.Answer
  | statement => do
    descend
    let s ← rules bare
    ascend
    return s
  | bare => do
    match ← peek? with
    | none => simpleStatement
    | some first =>
      match first.kind with
      | .symbol .leftBrace =>
        let block ← rules block
        return .block block.span block.statements
      | .keyword .kwIf =>
        advance
        let test ← condition
        let onTrue ← rules statement
        if ← eat (.keyword .kwElse) then
          let onFalse ← rules statement
          return .branch first.span test onTrue (some onFalse)
        else return .branch first.span test onTrue none
      | .keyword .kwWhile =>
        advance
        let test ← condition
        let body ← rules statement
        return .whileLoop first.span test body
      | .keyword .kwDo =>
        advance
        let body ← rules statement
        let _ ← expect (.keyword .kwWhile)
        let test ← condition
        semicolon
        return .doLoop first.span body test
      | .keyword .kwFor =>
        advance
        let _ ← expect (.symbol .leftParen)
        let init ← forInit
        let test ← unlessNext (.symbol .semicolon)
        semicolon
        let step ← unlessNext (.symbol .rightParen)
        let _ ← expect (.symbol .rightParen)
        let body ← rules statement
        return .forLoop first.span init test step body
      | .keyword .kwReturn =>
        advance
        let value ← unlessNext (.symbol .semicolon)
        semicolon
        return .ret first.span value
      | .keyword .kwBreak =>
        advance
        semicolon
        return .breakLoop first.span
      | .keyword .kwContinue =>
        advance
        semicolon
        return .continueLoop first.span
      | _ => simpleStatement
  | block => do
    let brace ← expect (.symbol .leftBrace)
    let statements ← untilBrace (rules statement)
    return ⟨statements, brace.span⟩

end StmtCall

def stmtCalls : Recursion where
  Call := StmtCall
  Answer := StmtCall.Answer
  body := StmtCall.body
  rule := StmtCall.rule

namespace StmtCall

theorem rule_succ (fuel : Nat) : rule (fuel + 1) = body (rule fuel) := by
  funext call
  cases call <;> rfl

theorem steady_statement (fuel : Nat) : Steady (rule fuel statement) :=
  (StatementsSteady.all fuel).statement

section

variable {fuel floor : Nat} {rules : (call : StmtCall) → Rule call.Answer}
  (agree : stmtCalls.Agree need fuel (rule fuel) rules)
include agree

theorem coincide_statement (enough : 3 * room floor + 1 ≤ fuel + 1) :
    Coincide floor (body (rule fuel) statement) (body rules statement) := by
  refine coincide_descend fun free => Coincide.front ?_
  exact agree.coincide_inside bare free (Nat.add_le_add_right enough 2)

theorem coincide_block (enough : 3 * room floor + 2 ≤ fuel + 1) :
    Coincide floor (body (rule fuel) block) (body rules block) := by
  have nested : Coincide floor (rule fuel statement) (rules statement) :=
    agree.coincide statement (by simp only [steps]; omega)
  refine (steady_expect _).coincide fun brace => Coincide.front ?_
  exact coincide_untilBrace nested (steady_statement fuel)

theorem coincide_bare (enough : 3 * room floor + 3 ≤ fuel + 1) :
    Coincide floor (body (rule fuel) bare) (body rules bare) := by
  have nested : Coincide floor (rule fuel statement) (rules statement) :=
    agree.coincide statement (by simp only [steps]; omega)
  have steady := steady_statement fuel
  refine steady_peek?_pure.coincide fun first? => ?_
  cases first? with
  | none => exact coincide_self _
  | some first =>
    dsimp only
    split
    · exact (agree.coincide block (by simp only [steps]; omega)).front
    · refine coincide_advance (steady_condition.coincide fun test => ?_)
      refine nested.bind steady fun onTrue => ?_
      refine (steady_eat _).coincide fun found => ?_
      cases found with
      | true => exact nested.front
      | false => exact coincide_self _
    · exact coincide_advance (steady_condition.coincide fun test => nested.front)
    · exact coincide_advance nested.front
    · refine coincide_advance ((steady_expect _).coincide fun _ => ?_)
      refine steady_forInit.coincide fun init => ?_
      refine (steady_unlessNext _).coincide fun test => steady_semicolon.coincide fun _ => ?_
      refine (steady_unlessNext _).coincide fun step => (steady_expect _).coincide fun _ => ?_
      exact nested.front
    · exact coincide_self _
    · exact coincide_self _
    · exact coincide_self _
    · exact coincide_self _

theorem coincide_body (call : StmtCall) (enough : 3 * room floor + call.steps ≤ fuel + 1) :
    Coincide floor (body (rule fuel) call) (body rules call) := by
  cases call with
  | statement => exact coincide_statement agree enough
  | bare => exact coincide_bare agree enough
  | block => exact coincide_block agree enough

end

end StmtCall

theorem stmtCalls_falls : stmtCalls.Falls StmtCall.need where
  succ := StmtCall.rule_succ
  pos call s := by cases call <;> exact Nat.succ_pos _
  step agree call s within enough :=
    StmtCall.coincide_body agree call enough s ⟨Nat.le_refl _, within⟩

end CherryLang.Syntax
