import CherryLang.Proofs.Horizon.Parts
import CherryLang.Proofs.Soundness.File

namespace CherryLang.Syntax

theorem StartsAt.ne_nil {span : Span} {ts : List Token} (starts : StartsAt span ts) : ts ≠ [] := by
  rintro rfl
  cases starts

theorem SpellsExpr.ne_nil {e : Expr} {ts : List Token} (spelled : SpellsExpr e ts) : ts ≠ [] := by
  rintro rfl
  have begins := spelled.begins
  exact StartsAt.ne_nil begins rfl

theorem SpellsStmt.ne_nil {s : Stmt} {ts : List Token} (spelled : SpellsStmt s ts) : ts ≠ [] := by
  cases spelled with
  | simple spelled =>
    cases spelled with
    | declare spelled => exact spelled.starts.ne_nil
    | eval => simp
  | _ => simp

theorem shrinks_exprRule (fuel : Nat) : Shrinks (exprRule fuel) :=
  (ExprRulesSound.all fuel).expr.shrinks fun _ _ _ within => within.spelled.ne_nil

theorem shrinks_statementRule (fuel : Nat) : Shrinks (statementRule fuel) :=
  (StmtRulesSound.all fuel).statement.shrinks fun _ _ _ within => within.spelled.ne_nil

theorem shrinks_param : Shrinks param := by
  refine returns_param.shrinks fun _ _ _ spelled => ?_
  cases spelled
  simp

theorem shrinks_classMember : Shrinks classMember :=
  returns_classMember.shrinks fun _ _ _ within => within.spelled.starts.ne_nil

theorem shrinks_importDecl : Shrinks importDecl :=
  returns_importDecl.shrinks fun _ _ _ spelled => spelled.starts.ne_nil

theorem shrinks_declaration : Shrinks declaration :=
  returns_declaration.shrinks fun _ _ _ within => within.spelled.starts.ne_nil

structure ExpressionsBlind (fuel : Nat) : Prop where
  expr : Blind (exprRule fuel)
  assignment : Blind (assignmentRule fuel)
  binary (least : Nat) : Blind (binaryRule fuel least)
  operator (least : Nat) (lhs : Expr) : Blind (operatorRule fuel least lhs)
  unary : Blind (unaryRule fuel)
  suffixed : Blind (suffixedRule fuel)
  suffix (e : Expr) : Blind (suffixRule fuel e)
  primary : Blind (primaryRule fuel)

namespace ExpressionsBlind

theorem zero : ExpressionsBlind 0 where
  expr := blind_tooDeep
  assignment := blind_tooDeep
  binary _ := blind_tooDeep
  operator _ _ := blind_tooDeep
  unary := blind_tooDeep
  suffixed := blind_tooDeep
  suffix _ := blind_tooDeep
  primary := blind_tooDeep

variable {fuel : Nat} (inner : ExpressionsBlind fuel)
include inner

theorem args : Blind (parenthesized (exprRule fuel)) :=
  blind_parenthesized inner.expr (shrinks_exprRule fuel)

theorem exprRule_succ : Blind (exprRule (fuel + 1)) := by
  unfold exprRule
  apply blind_descend.andThen
  apply inner.assignment.bind
  intro e
  exact blind_ascend.andThen (blind_pure e)

theorem assignmentRule_succ : Blind (assignmentRule (fuel + 1)) := by
  unfold assignmentRule
  apply (inner.binary 1).bind
  intro target
  refine blind_peekKind? (blind_pure target) fun kind => ?_
  rw [Option.bind_some]
  cases kind.assignOp? with
  | none => exact (blind_pure target).follows
  | some op =>
    dsimp only
    split
    · apply blind_advance
      exact inner.expr.ends
    · exact (blind_throw _).follows

theorem binaryRule_succ (least : Nat) : Blind (binaryRule (fuel + 1) least) := by
  unfold binaryRule
  exact inner.unary.bind fun lhs => (inner.operator least lhs).keepingDepth

theorem operatorRule_succ (least : Nat) (lhs : Expr) :
    Blind (operatorRule (fuel + 1) least lhs) := by
  unfold operatorRule
  refine blind_peekKind? (blind_pure lhs) fun kind => ?_
  rw [Option.bind_some]
  cases kind.binaryOp? with
  | none => exact (blind_pure lhs).follows
  | some op =>
    dsimp only
    split
    · exact (blind_pure lhs).follows
    · apply BlindAhead.descend
      apply blind_advance
      exact (inner.binary _).bind fun rhs => inner.operator least _

theorem unaryRule_succ : Blind (unaryRule (fuel + 1)) := by
  unfold unaryRule
  refine blind_peek? inner.suffixed fun first => ?_
  dsimp only
  cases first.kind.unaryOp? with
  | none => exact inner.suffixed.follows
  | some op =>
    apply BlindAhead.descend
    apply blind_advance
    apply inner.unary.bind
    intro operand
    exact blind_ascend.andThen (blind_pure _)

theorem suffixedRule_succ : Blind (suffixedRule (fuel + 1)) := by
  unfold suffixedRule
  exact inner.primary.bind fun e => (inner.suffix e).keepingDepth

theorem suffixRule_succ (e : Expr) : Blind (suffixRule (fuel + 1) e) := by
  unfold suffixRule
  refine blind_peekKind? (blind_pure e) fun kind => ?_
  split
  · apply Blind.follows
    exact inner.args.bind fun args => blind_descend.andThen (inner.suffix _)
  · apply blind_advance
    apply inner.expr.bind
    intro index
    exact (blind_expect _).andThen (blind_descend.andThen (inner.suffix _))
  · apply blind_advance
    exact blind_expectName.bind fun name => blind_descend.andThen (inner.suffix _)
  · next kind _ _ _ _ =>
    cases kind.stepOp? with
    | none => exact (blind_pure e).follows
    | some op => exact blind_advance (blind_descend.andThen (inner.suffix _))
  · exact (blind_pure e).follows

theorem primaryRule_succ : Blind (primaryRule (fuel + 1)) := by
  unfold primaryRule
  refine blind_peek? (blind_unexpected _) fun first => ?_
  dsimp only
  split
  · exact blind_advance (blind_pure _)
  · exact blind_advance (blind_pure _)
  · exact blind_advance (blind_pure _)
  · exact blind_advance (blind_pure _)
  · exact blind_advance (blind_pure _)
  · apply blind_advance
    exact blind_typeRef.bind fun type => inner.args.ends
  · apply blind_advance
    apply inner.expr.bind
    intro e
    exact (blind_expect _).ends
  · exact blind_advance inner.args.ends
  · exact (blind_unexpected _).follows

theorem succ : ExpressionsBlind (fuel + 1) where
  expr := inner.exprRule_succ
  assignment := inner.assignmentRule_succ
  binary := inner.binaryRule_succ
  operator := inner.operatorRule_succ
  unary := inner.unaryRule_succ
  suffixed := inner.suffixedRule_succ
  suffix := inner.suffixRule_succ
  primary := inner.primaryRule_succ

end ExpressionsBlind

theorem ExpressionsBlind.all (fuel : Nat) : ExpressionsBlind fuel := by
  induction fuel with
  | zero => exact .zero
  | succ fuel ih => exact ih.succ

theorem blind_expression : Blind expression := (ExpressionsBlind.all ruleFuel).expr

theorem blind_initializer : Blind initializer := by
  refine (blind_eat _).bind fun found => ?_
  cases found with
  | true => exact blind_expression.ends
  | false => exact blind_pure none

theorem blind_unlessNext (close : Kind) : Blind (unlessNext close) := by
  refine (blind_isNext close).bind fun found => ?_
  cases found with
  | true => exact blind_pure none
  | false => exact blind_expression.ends

theorem blind_condition : Blind condition := by
  apply (blind_expect _).andThen
  apply blind_expression.bind
  intro e
  exact (blind_expect _).ends

theorem blind_semicolon : Blind semicolon := (blind_expect _).ends

theorem head_beforeEnd (kind : Kind) (live : kind ≠ .endOfStream) (rest : List Token) :
    ((beforeEnd rest).head?.map (·.kind) == some kind) =
      (rest.head?.map (·.kind) == some kind) := by
  cases rest with
  | nil => rfl
  | cons t rest =>
    by_cases ended : t.kind = .endOfStream
    · simp [beforeEnd, ended, Ne.symm live]
    · rw [beforeEnd_cons ended]
      rfl

theorem startsDeclaration_beforeEnd (rest : List Token) :
    startsDeclaration (beforeEnd rest) = startsDeclaration rest := by
  rcases rest with _ | ⟨first, rest⟩
  · rfl
  · by_cases ended : first.kind = .endOfStream
    · simp [beforeEnd, ended, startsDeclaration, modifier?, isTypeWord, Kind.category]
    · rw [beforeEnd_cons ended]
      rcases rest with _ | ⟨second, rest⟩
      · rfl
      · by_cases last : second.kind = .endOfStream
        · simp [beforeEnd, last, startsDeclaration, Kind.isName]
        · have closes := head_beforeEnd (.symbol .rightBracket) (by simp) rest
          rw [beforeEnd_cons last]
          simp only [startsDeclaration, closes]

theorem blind_localVariable (span : Span) : Blind (localVariable span) := by
  refine blind_modifiers.bind fun words => blind_typeRef.bind fun type => ?_
  refine blind_expectName.bind fun name => blind_initializer.bind fun init => ?_
  exact blind_semicolon.ends

theorem blind_simpleStatement : Blind simpleStatement := by
  have otherwise : Blind (do let e ← expression; semicolon; return Stmt.eval e) :=
    blind_expression.bind fun e => blind_semicolon.ends
  intro s s' same
  apply Same.get
  rw [← startsDeclaration_beforeEnd s.rest, same.rest, startsDeclaration_beforeEnd s'.rest]
  refine same_peek? same (fun _ => ?_) fun first _ => ?_
  · cases startsDeclaration s'.rest with
    | false => exact otherwise s s' same
    | true => exact otherwise s s' same
  · cases startsDeclaration s'.rest with
    | false => exact otherwise s s' same
    | true => exact (blind_localVariable first.span).ends s s' same

theorem blind_forInit : Blind forInit := by
  refine (blind_eat _).bind fun empty => ?_
  cases empty with
  | true => exact blind_pure none
  | false => exact blind_simpleStatement.ends

structure StatementsBlind (fuel : Nat) : Prop where
  statement : Blind (statementRule fuel)
  bare : Blind (bareStatementRule fuel)
  block : Blind (blockRule fuel)

namespace StatementsBlind

theorem zero : StatementsBlind 0 where
  statement := blind_tooDeep
  bare := blind_tooDeep
  block := blind_tooDeep

variable {fuel : Nat} (inner : StatementsBlind fuel)
include inner

theorem statementRule_succ : Blind (statementRule (fuel + 1)) := by
  unfold statementRule
  apply blind_descend.andThen
  apply inner.bare.bind
  intro s
  exact blind_ascend.andThen (blind_pure s)

theorem blockRule_succ : Blind (blockRule (fuel + 1)) := by
  unfold blockRule
  apply (blind_expect _).bind
  intro brace
  exact (blind_untilBrace inner.statement (shrinks_statementRule fuel)).ends

theorem bareStatementRule_succ : Blind (bareStatementRule (fuel + 1)) := by
  unfold bareStatementRule
  refine blind_peek? blind_simpleStatement fun first => ?_
  dsimp only
  split
  · exact inner.block.ends.follows
  · refine blind_advance (blind_condition.bind fun test => ?_)
    refine inner.statement.bind fun onTrue => (blind_eat _).bind fun found => ?_
    cases found with
    | true => exact inner.statement.ends
    | false => exact blind_pure _
  · refine blind_advance (blind_condition.bind fun test => ?_)
    exact inner.statement.ends
  · refine blind_advance (inner.statement.bind fun body => ?_)
    refine (blind_expect _).andThen (blind_condition.bind fun test => ?_)
    exact blind_semicolon.ends
  · refine blind_advance ((blind_expect _).andThen ?_)
    refine blind_forInit.bind fun init => (blind_unlessNext _).bind fun test => ?_
    refine blind_semicolon.andThen ((blind_unlessNext _).bind fun step => ?_)
    exact (blind_expect _).andThen inner.statement.ends
  · refine blind_advance ((blind_unlessNext _).bind fun value => ?_)
    exact blind_semicolon.ends
  · exact blind_advance blind_semicolon.ends
  · exact blind_advance blind_semicolon.ends
  · exact blind_simpleStatement.follows

theorem succ : StatementsBlind (fuel + 1) where
  statement := inner.statementRule_succ
  bare := inner.bareStatementRule_succ
  block := inner.blockRule_succ

end StatementsBlind

theorem StatementsBlind.all (fuel : Nat) : StatementsBlind fuel := by
  induction fuel with
  | zero => exact .zero
  | succ fuel ih => exact ih.succ

theorem blind_block : Blind block := (StatementsBlind.all ruleFuel).block

theorem eat_ended {kind : Kind} {s : State} (ended : beforeEnd s.rest = []) :
    eat kind s = .ok (false, s) := by
  have looked : isNext kind s = .ok (false, s) := by
    change Except.ok ((ahead? s.rest).map (·.kind) == some kind, s) = _
    rw [ahead?_eq, ended]
    rfl
  simp only [eat, bind, StateT.bind, looked, Except.bind]
  rfl

theorem dottedNames_ended {s : State} (ended : beforeEnd s.rest = []) (bound : Nat)
    (found : Array String) : dottedNames bound found s = .ok (found.toList, s) := by
  cases bound with
  | zero => rfl
  | succ bound =>
    simp only [dottedNames, bind, StateT.bind, eat_ended ended, Except.bind]
    rfl

theorem same_dottedNames {s s' : State} {bound bound' : Nat} (found : Array String)
    (same : s.SameAhead s') (enough : (beforeEnd s.rest).length ≤ bound)
    (enough' : (beforeEnd s.rest).length ≤ bound') :
    Same (dottedNames bound found s) (dottedNames bound' found s') := by
  by_cases ended : beforeEnd s.rest = []
  · rw [dottedNames_ended ended, dottedNames_ended (same.rest ▸ ended)]
    exact .ok same
  · have some := List.length_pos_iff.mpr ended
    obtain ⟨n, rfl⟩ : ∃ n, bound = n + 1 := ⟨bound - 1, by omega⟩
    obtain ⟨n', rfl⟩ : ∃ n, bound' = n + 1 := ⟨bound' - 1, by omega⟩
    unfold dottedNames
    refine (blind_eat _ s s' same).bind fun more t t' eaten later => ?_
    have left := length_eat eaten
    cases more with
    | false => exact .ok later
    | true =>
      rw [Bool.toNat_true] at left
      refine (blind_expectName t t' later).bind fun name u u' named last => ?_
      have fewer := shrinks_take _ _ _ _ _ named
      exact same_dottedNames (found.push name.lexeme) last (by omega) (by omega)
termination_by bound

theorem blind_importDecl : Blind importDecl := by
  refine (blind_expect _).bind fun word => blind_expectName.bind fun first => ?_
  intro s s' same
  have enough := length_beforeEnd_le s.rest
  have enough' := length_beforeEnd_le s'.rest
  rw [← same.rest] at enough'
  apply Same.get
  refine (same_dottedNames _ same enough enough').bind fun path t t' _ later => ?_
  exact blind_semicolon.ends t t' later

theorem blind_param : Blind param :=
  blind_typeRef.bind fun _ => blind_expectName.ends

theorem blind_member (words : List Modifier) (span : Span) : Blind (member words span) := by
  refine blind_typeRef.bind fun type => blind_expectName.bind fun name => ?_
  refine (blind_isNext _).bind fun called => ?_
  cases called with
  | true =>
    apply (blind_parenthesized blind_param shrinks_param).bind
    intro params
    exact blind_block.ends
  | false =>
    apply blind_initializer.bind
    intro init
    exact blind_semicolon.ends

theorem blind_classMember : Blind classMember := by
  refine blind_peek? (blind_unexpected _) fun first => ?_
  exact (blind_modifiers.bind fun words => blind_member words first.span).follows

theorem blind_baseName : Blind baseName := by
  refine (blind_eat _).bind fun found => ?_
  cases found with
  | true => exact blind_expectName.ends
  | false => exact blind_pure none

theorem blind_classDecl (words : List Modifier) (word : ClassWord) (span : Span) :
    Blind (classDecl words word span) := by
  refine blind_expectName.bind fun name => blind_baseName.bind fun base => ?_
  refine (blind_expect _).andThen ?_
  exact (blind_untilBrace blind_classMember shrinks_classMember).ends

theorem blind_declaration : Blind declaration := by
  refine blind_peek? (blind_unexpected _) fun first => Blind.follows ?_
  refine blind_modifiers.bind fun words => ?_
  refine blind_peekKind? (blind_unexpected _) fun kind => ?_
  dsimp only
  cases classWord? kind with
  | some word => exact blind_advance (blind_classDecl words word first.span).ends
  | none =>
    apply Blind.follows
    dsimp only
    split
    · apply (blind_member words first.span).bind
      intro m
      cases m <;> exact blind_pure _
    · exact blind_unexpected _

theorem same_fileRule {s s' : State} {bound bound' : Nat} (imports : Array Import)
    (items : Array Declaration) (same : s.SameAhead s')
    (enough : (beforeEnd s.rest).length < bound) (enough' : (beforeEnd s.rest).length < bound') :
    Same (fileRule bound imports items s) (fileRule bound' imports items s') := by
  induction bound generalizing bound' imports items s s' with
  | zero => omega
  | succ bound ih =>
    obtain ⟨bound', rfl⟩ : ∃ n, bound' = n + 1 := ⟨bound' - 1, by omega⟩
    unfold fileRule
    refine same_peekKind? same (fun _ => .ok same) fun t _ => ?_
    dsimp only
    split
    · refine (blind_importDecl s s' same).bind fun i u u' run later => ?_
      have fewer := shrinks_importDecl _ _ _ run
      exact ih _ _ later (by omega) (by omega)
    · refine (blind_declaration s s' same).bind fun item u u' run later => ?_
      have fewer := shrinks_declaration _ _ _ run
      exact ih _ _ later (by omega) (by omega)

/-- Two lists that are the same up to the first end of the stream and in it, or a list without one
and the same with an end of the stream and more behind it. -/
inductive SameUpToEnd : List Token → List Token → Prop
  | shared {live : List Token} {last : Token} (tokens : ∀ t ∈ live, t.kind ≠ .endOfStream)
      (ends : last.kind = .endOfStream) (more more' : List Token) :
      SameUpToEnd (live ++ last :: more) (live ++ last :: more')
  | appended {live : List Token} {last : Token} (some : live ≠ [])
      (tokens : ∀ t ∈ live, t.kind ≠ .endOfStream) (ends : last.kind = .endOfStream)
      (more : List Token) : SameUpToEnd live (live ++ last :: more)

/-- The rule for a whole file fails with an error that has no place of its own, as no token was
left. -/
def RaisedAtEnd (tokens : List Token) (kind : ErrorKind) : Prop :=
  fileRule (tokens.length + 1) #[] #[] ⟨tokens, 0⟩ = .error ⟨kind, none⟩

/-- One tree, or one error. Errors at the end of the input are of one kind, and each has the place
that stands for the end of its list. -/
inductive AnswersAlike (ts us : List Token) : Prop
  | tree {tree : Tree} (first : parse ts = .ok tree) (second : parse us = .ok tree)
  | error {e : Error} (first : parse ts = .error e) (second : parse us = .error e)
  | atEnd {kind : ErrorKind} (raised : RaisedAtEnd ts kind) (raised' : RaisedAtEnd us kind)
      (first : parse ts = .error ⟨kind, endSpan ts⟩)
      (second : parse us = .error ⟨kind, endSpan us⟩)

theorem beforeEnd_ended {last : Token} (ends : last.kind = .endOfStream) (more : List Token) :
    beforeEnd (last :: more) = [] := by
  simp [beforeEnd, ends]

theorem SameUpToEnd.ahead {ts us : List Token} (same : SameUpToEnd ts us) :
    beforeEnd ts = beforeEnd us := by
  cases same with
  | shared tokens ends more more' =>
    rw [beforeEnd_append tokens, beforeEnd_append tokens, beforeEnd_ended ends,
      beforeEnd_ended ends]
  | appended some tokens ends more =>
    have whole := beforeEnd_append tokens []
    rw [List.append_nil] at whole
    rw [beforeEnd_append tokens, beforeEnd_ended ends, whole]
    rfl

theorem SameUpToEnd.head {ts us : List Token} (same : SameUpToEnd ts us) :
    ts.head? = us.head? := by
  cases same with
  | shared => rw [List.head?_append, List.head?_append, List.head?_cons, List.head?_cons]
  | appended some =>
    obtain ⟨first, rest, rfl⟩ := List.exists_cons_of_ne_nil some
    rfl

section

variable {tokens : List Token}

theorem parse_eq_error {failure : Failure}
    (run : fileRule (tokens.length + 1) #[] #[] ⟨tokens, 0⟩ = .error failure) :
    parse tokens = .error ⟨failure.kind, failure.span.getD (endSpan tokens)⟩ := by
  unfold parse
  simp only [StateT.run, run]

theorem parse_eq_ok {imports : List Import} {items : List Declaration} {s : State}
    (run : fileRule (tokens.length + 1) #[] #[] ⟨tokens, 0⟩ = .ok ((imports, items), s)) :
    parse tokens = .ok ⟨(tokens.head?.map (·.file)).getD {}, imports, items⟩ := by
  unfold parse
  simp only [StateT.run, run]

end

/-- The parser looks no further than the end of the stream, and an end of the stream behind the last
token is the same to it as none: only the place of an error that is raised there may change. -/
theorem parse_horizon {ts us : List Token} (same : SameUpToEnd ts us) : AnswersAlike ts us := by
  have enough := length_beforeEnd_le ts
  have enough' := length_beforeEnd_le us
  rw [← same.ahead] at enough'
  have ahead : State.SameAhead ⟨ts, 0⟩ ⟨us, 0⟩ := ⟨same.ahead, rfl⟩
  have ran := same_fileRule #[] #[] ahead (Nat.lt_succ_of_le enough) (Nat.lt_succ_of_le enough')
  generalize run : fileRule (ts.length + 1) #[] #[] ⟨ts, 0⟩ = result at ran
  generalize run' : fileRule (us.length + 1) #[] #[] ⟨us, 0⟩ = result' at ran
  cases ran with
  | @ok result s s' =>
    obtain ⟨imports, items⟩ := result
    exact .tree (parse_eq_ok run) (by rw [parse_eq_ok run', same.head])
  | @error failure =>
    obtain ⟨kind, place⟩ := failure
    cases place with
    | none => exact .atEnd run run' (parse_eq_error run) (parse_eq_error run')
    | some span => exact .error (parse_eq_error run) (parse_eq_error run')

def brokenTokens : List Token :=
  [marked (.primitive .int) "int" 1 1, marked .identifier "x" 1 5,
    marked (.symbol .assign) "=" 1 7]

def hiddenTokens : List Token :=
  [marked .endOfStream "" 2 1, marked (.literal .integer) "1" 3 1]

theorem parse_horizon_broken :
    SameUpToEnd brokenTokens (brokenTokens ++ hiddenTokens) ∧
      AnswersAlike brokenTokens (brokenTokens ++ hiddenTokens) ∧
      parse brokenTokens = .error ⟨.expected .expression none, ⟨1, 7⟩⟩ ∧
      parse (brokenTokens ++ hiddenTokens) = .error ⟨.expected .expression none, ⟨3, 1⟩⟩ := by
  have same : SameUpToEnd brokenTokens (brokenTokens ++ hiddenTokens) :=
    .appended (by decide) (by decide) rfl _
  exact ⟨same, parse_horizon same, rfl, rfl⟩

end CherryLang.Syntax
