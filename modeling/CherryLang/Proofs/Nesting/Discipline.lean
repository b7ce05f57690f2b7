import CherryLang.Proofs.Nesting.Fuel

namespace CherryLang.Syntax

/-- Every run of the rule has a course, whether it fails or not. No level is left on it that was
open before, none is entered beyond the limit, and no end of the stream is stepped over. A run that
gives a result leaves as many levels open as there were, and takes a token at least. -/
structure Disciplined {α : Type} (rule : Rule α) : Prop where
  course (s : State) (within : s.depth ≤ nestingLimit) : ∃ path, Course rule s path (rule s) ∧
    ∀ p ∈ path, s.depth ≤ p.depth ∧ p.depth ≤ nestingLimit ∧ s.Onward p
  depth {s s' : State} {a : α} (within : s.depth ≤ nestingLimit) (run : rule s = .ok (a, s')) :
    s'.depth = s.depth
  progress {s s' : State} {a : α} (within : s.depth ≤ nestingLimit) (run : rule s = .ok (a, s')) :
    s.Onward s' ∧ s'.rest.length < s.rest.length

theorem Returns.disciplined {α : Type} {rule : Rule α} {given : Nat → α → List Token → Prop}
    (returns : Returns rule given) (some : ∀ depth a ts, given depth a ts → ts ≠ [])
    (steady : Steady rule) : Disciplined rule where
  course s within := by
    obtain ⟨path, course, between⟩ := steady s.depth s ⟨Nat.le_refl _, within⟩
    refine ⟨path, course, fun p there => ?_⟩
    exact ⟨(between p there).low, (between p there).high, course.onward p there⟩
  depth {s s' a} _ run := by
    obtain ⟨_, _, kept, _⟩ := (returns s.rest s.depth).of_run run
    exact kept
  progress {s s' a} within run := by
    have onward := (steady s.depth s ⟨Nat.le_refl _, within⟩).onward run
    refine ⟨onward, ?_⟩
    obtain ⟨ts, live, split⟩ := onward
    have fewer := returns.shrinks some s a s' run
    rw [split, beforeEnd_append live, List.length_append] at fewer
    rw [split, List.length_append]
    omega

theorem Parenthesized.ne_nil {α : Type} {writes : α → List Token → Prop} {xs : List α}
    {ts : List Token} (list : Parenthesized writes xs ts) : ts ≠ [] := by
  cases list <;> simp

/-- The modifiers stand before the member, so only its type and its name are sure to be there. -/
theorem returns_member_some (words : List Modifier) (span : Span) :
    Returns (member words span) fun _ _ ts => ts ≠ [] := by
  intro rest depth
  apply returns_typeRef.bind
  intro type ts rest typed
  apply takes_expectName
  intro name rest named
  refine takes_isNext ?_ ?_
  · apply (returns_parenthesized returns_param).bind
    intro params ps rest listed
    apply returns_block.last
    intro body bs s' kept within
    exact ⟨kept, by simp⟩
  · apply returns_initializer.bind
    intro init is rest value
    apply takes_semicolon
    intro semi rest ends
    exact takes_pure ⟨rfl, by simp⟩

/-- The rules by which the parser recurses, with so much fuel where they take any. -/
structure RulesDisciplined (fuel : Nat) : Prop where
  importDecl : Disciplined importDecl
  declaration : Disciplined declaration
  member (words : List Modifier) (span : Span) : Disciplined (member words span)
  typeRef : Disciplined typeRef
  block : Disciplined (blockRule fuel)
  statement : Disciplined (statementRule fuel)
  expr : Disciplined (exprRule fuel)
  binary (least : Nat) : Disciplined (binaryRule fuel least)
  unary : Disciplined (unaryRule fuel)
  suffixed : Disciplined (suffixedRule fuel)
  primary : Disciplined (primaryRule fuel)
  args : Disciplined (parenthesized (exprRule fuel))

theorem RulesDisciplined.all (fuel : Nat) : RulesDisciplined fuel := by
  have exprs := ExpressionsSteady.all fuel
  have stmts := StatementsSteady.all fuel
  have sound := ExprRulesSound.all fuel
  have stmtsSound := StmtRulesSound.all fuel
  exact
    { importDecl := returns_importDecl.disciplined (fun _ _ _ spelled => spelled.starts.ne_nil)
        steady_importDecl
      declaration := returns_declaration.disciplined
        (fun _ _ _ within => within.spelled.starts.ne_nil) steady_declaration
      member words span := (returns_member_some words span).disciplined (fun _ _ _ => id)
        (steady_member words span)
      typeRef := returns_typeRef.disciplined (fun _ _ _ spelled => spelled.starts.ne_nil)
        steady_typeRef
      block := stmtsSound.block.disciplined (fun _ _ _ within => within.spelled.starts.ne_nil)
        stmts.block
      statement := stmtsSound.statement.disciplined (fun _ _ _ within => within.spelled.ne_nil)
        stmts.statement
      expr := sound.expr.disciplined (fun _ _ _ within => within.spelled.ne_nil) exprs.expr
      binary least := (sound.binary least).disciplined (fun _ _ _ within => within.1.spelled.ne_nil)
        (exprs.binary least)
      unary := sound.unary.disciplined (fun _ _ _ within => within.spelled.ne_nil) exprs.unary
      suffixed := sound.suffixed.disciplined (fun _ _ _ within => within.spelled.ne_nil)
        exprs.suffixed
      primary := sound.primary.disciplined (fun _ _ _ within => within.spelled.ne_nil)
        exprs.primary
      args := (returns_parenthesized sound.expr).disciplined (fun _ _ _ list => list.ne_nil)
        (steady_parenthesized exprs.expr) }

/-- What the parser recurses on is given: `ruleFuel` for the calls of rules, and for its loops the
number of the tokens ahead. -/
structure ParserEnds : Prop where
  exprs : exprCalls.Ends fun _ _ => ruleFuel
  stmts : stmtCalls.Ends fun _ _ => ruleFuel
  statements (fuel : Nat) :
    (closeLoop (.symbol .rightBrace) (statementRule fuel)).Ends fun _ s => s.rest.length + 1
  members : (closeLoop (.symbol .rightBrace) classMember).Ends fun _ s => s.rest.length + 1
  args (fuel : Nat) : (commaLoop (exprRule fuel)).Ends fun _ s => s.rest.length + 1
  params : (commaLoop param).Ends fun _ s => s.rest.length + 1
  path : pathLoop.Ends fun _ s => s.rest.length
  file : fileLoop.Ends fun _ s => s.rest.length + 1

theorem ExprCall.need_le (call : ExprCall) (s : State) : call.need s ≤ ruleFuel := by
  have few : call.steps ≤ 6 := by cases call <;> simp [steps]
  have low : room s.depth ≤ nestingLimit := Nat.sub_le _ _
  unfold need ruleFuel
  omega

theorem StmtCall.need_le (call : StmtCall) (s : State) : call.need s ≤ ruleFuel := by
  have few : call.steps ≤ 3 := by cases call <;> simp [steps]
  have low : room s.depth ≤ nestingLimit := Nat.sub_le _ _
  unfold need ruleFuel
  omega

theorem ParserEnds.all : ParserEnds where
  exprs := exprCalls_falls.ends ExprCall.need_le
  stmts := stmtCalls_falls.ends StmtCall.need_le
  statements fuel := (closeLoop_falls _ (StatementsSteady.all fuel).statement
    (shrinks_statementRule fuel)).ends fun _ => turns_le_length
  members := (closeLoop_falls _ steady_classMember shrinks_classMember).ends
    fun _ => turns_le_length
  args fuel := (commaLoop_falls (ExpressionsSteady.all fuel).expr (shrinks_exprRule fuel)).ends
    fun _ => turns_le_length
  params := (commaLoop_falls steady_param shrinks_param).ends fun _ => turns_le_length
  path := pathLoop_ends
  file := fileLoop_falls.ends fun _ => turns_le_length

/-- The parser keeps to its discipline, with any fuel; and where no level is open, there is no
course that leaves one. With the fuel and the bounds that it is given no run is cut short: its
rules and loops are the same without. -/
theorem parser_disciplined :
    (∀ fuel, RulesDisciplined fuel) ∧
      (∀ rest path result, ¬ Course ascend ⟨rest, 0⟩ path result) ∧ ParserEnds :=
  ⟨RulesDisciplined.all, fun _ _ _ => not_course_ascend, ParserEnds.all⟩

end CherryLang.Syntax
