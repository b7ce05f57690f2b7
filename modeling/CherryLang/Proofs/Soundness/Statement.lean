import CherryLang.Proofs.Soundness.Expression
import CherryLang.Syntax.Statement

namespace CherryLang.Syntax

section

variable {β : Type} {rest : List Token} {depth : Nat} {good : β → List Token → State → Prop}

theorem takes_semicolon {next : Unit → Rule β}
    (go : ∀ t rest', t.kind = .symbol .semicolon →
      Takes (next ()) ⟨rest', depth⟩ fun b us s' => good b (t :: us) s') :
    Takes (semicolon >>= next) ⟨rest, depth⟩ good := by
  have unfolded : (semicolon >>= next) = expect (.symbol .semicolon) >>= fun _ => next () := by
    simp [semicolon]
  rw [unfolded]
  exact takes_expect go

end

theorem returns_initializer :
    Returns initializer fun depth =>
      Bounded SpellsInit Expr.heightIfAny (room depth * room depth) := by
  intro rest depth
  refine takes_eat ?_ (takes_pure ⟨rfl, .none, Nat.zero_le _⟩)
  rintro eq rest rfl kind
  apply returns_expression.last
  intro e ts s' kept within
  exact ⟨kept, .some (.mk kind within.spelled), within.low⟩

theorem returns_unlessNext (close : Kind) :
    Returns (unlessNext close) fun depth =>
      Bounded (Maybe SpellsExpr) Expr.heightIfAny (room depth * room depth) := by
  intro rest depth
  refine takes_isNext (takes_pure ⟨rfl, .none, Nat.zero_le _⟩) ?_
  apply returns_expression.last
  intro e ts s' kept within
  exact ⟨kept, .some within.spelled, within.low⟩

theorem returns_condition :
    Returns condition fun depth =>
      Bounded SpellsCondition Expr.height (room depth * room depth) := by
  intro rest depth
  apply takes_expect
  intro left rest opens
  apply returns_expression.bind
  intro e ts rest within
  apply takes_expect
  intro right rest closes
  apply takes_pure
  exact ⟨rfl, .mk opens within.spelled closes, within.low⟩

theorem returns_localVariable (span : Span) :
    Returns (localVariable span) fun depth decl ts =>
      decl.height ≤ room depth * room depth ∧ decl.span = span ∧ FormsVariable decl ts := by
  intro rest depth
  apply returns_modifiers.bind
  intro words ms rest modifiers
  apply returns_typeRef.bind
  intro type ts rest typed
  apply takes_expectName
  intro name rest named
  apply returns_initializer.bind
  intro init is rest value
  apply takes_semicolon
  intro semi rest ends
  refine takes_pure ⟨rfl, value.low, rfl, ?_⟩
  exact .mk modifiers typed ⟨named, rfl⟩ value.spelled ends

theorem FormsVariable.ne_nil {decl : VariableDecl} {ts : List Token}
    (form : FormsVariable decl ts) : ts ≠ [] := by
  cases form
  simp

theorem returns_simpleStatement :
    Returns simpleStatement fun depth =>
      Bounded SpellsSimple Stmt.height (room depth * room depth + 1) := by
  intro rest depth
  have otherwise (rest : List Token) :
      Takes (do let e ← expression; semicolon; return .eval e) ⟨rest, depth⟩ fun s ts s' =>
        s'.depth = depth ∧ Bounded SpellsSimple Stmt.height (room depth * room depth + 1) s ts := by
    apply returns_expression.bind
    intro e ts rest within
    apply takes_semicolon
    intro semi rest ends
    apply takes_pure
    exact ⟨rfl, .eval within.spelled ends, Nat.succ_le_succ within.low⟩
  apply takes_get
  refine takes_peek? ?_ ?_
  · intro _
    simp only
    split
    · contradiction
    · exact otherwise rest
  · rintro first rest rfl live
    simp only
    split
    · next found =>
      obtain rfl := Option.some.inj found
      have declared := (returns_localVariable first.span (first :: rest) depth).placed live
        FormsVariable.ne_nil
      refine declared.bind ?_
      rintro decl ts ⟨rest, _⟩ ⟨rfl, within⟩
      refine takes_pure ⟨rfl, ?_⟩
      rw [List.append_nil]
      exact ⟨.declare within.spelled, Nat.succ_le_succ within.low⟩
    · exact otherwise _

theorem returns_forInit :
    Returns forInit fun depth =>
      Bounded SpellsForInit Stmt.heightIfAny (room depth * room depth + 1) := by
  intro rest depth
  refine takes_eat ?_ ?_
  · rintro semi rest rfl ends
    exact takes_pure ⟨rfl, .none ends, Nat.zero_le _⟩
  · apply returns_simpleStatement.last
    intro stmt ts s' kept within
    exact ⟨kept, .some within.spelled, within.low⟩

theorem SpellsBlock.statement {b : Block} {ts : List Token} (spelled : SpellsBlock b ts) :
    SpellsStmt (.block b.span b.statements) ts := by
  obtain ⟨starts, form⟩ := spelled
  cases form with
  | @mk ts left right opens inside closes =>
    rw [← show left.span = b.span from Option.some.inj starts]
    exact .block opens inside closes

abbrev StmtWithin (bound : Nat) : Stmt → List Token → Prop := Bounded SpellsStmt Stmt.height bound

/-- A statement behind the level that it takes, and the depth as it was. -/
abbrev Entered (depth : Nat) (stmt : Stmt) (ts : List Token) (s' : State) : Prop :=
  s'.depth = depth ∧ StmtWithin ((room depth + 1) * (room depth + 1)) stmt ts

structure StmtRulesSound (fuel : Nat) : Prop where
  statement : Returns (statementRule fuel) fun depth => StmtWithin (room depth * room depth)
  bare : Returns (bareStatementRule fuel) fun depth =>
    StmtWithin ((room depth + 1) * (room depth + 1))
  block : Returns (blockRule fuel) fun depth =>
    Bounded SpellsBlock Block.height (room depth * room depth)

namespace StmtRulesSound

theorem zero : StmtRulesSound 0 where
  statement := returns_tooDeep
  bare := returns_tooDeep
  block := returns_tooDeep

variable {fuel : Nat} (inner : StmtRulesSound fuel)
include inner

theorem statementRule_succ :
    Returns (statementRule (fuel + 1)) fun depth => StmtWithin (room depth * room depth) := by
  intro rest depth
  unfold statementRule
  apply takes_descend
  intro free
  apply inner.bare.bind
  intro stmt ts rest within
  apply takes_ascend
  refine takes_pure ⟨rfl, ?_⟩
  rw [List.append_nil]
  show StmtWithin (room depth * room depth) stmt ts
  rw [room_of_lt free]
  exact within

theorem blockRule_succ :
    Returns (blockRule (fuel + 1)) fun depth =>
      Bounded SpellsBlock Block.height (room depth * room depth) := by
  intro rest depth
  unfold blockRule
  apply takes_expect
  intro left rest opens
  apply (returns_untilBrace inner.statement).last
  intro stmts ts s' kept list
  refine ⟨kept, ?_⟩
  obtain ⟨us, right, rfl, series, closes⟩ := list
  exact ⟨⟨.head left, .mk opens series.bounded.spelled closes⟩, series.bounded.low⟩

theorem takes_branch {word : Token} (kind : word.kind = .keyword .kwIf) (rest : List Token)
    (depth : Nat) :
    Takes (do
      advance
      let test ← condition
      let onTrue ← statementRule fuel
      if ← eat (.keyword .kwElse) then
        let onFalse ← statementRule fuel
        return .branch word.span test onTrue (some onFalse)
      else return .branch word.span test onTrue none) ⟨word :: rest, depth⟩ (Entered depth) := by
  apply takes_advance (by simp [kind])
  apply returns_condition.bind
  intro test cs rest tested
  apply inner.statement.bind
  intro onTrue ts rest first
  refine takes_eat ?_ ?_
  · rintro other rest rfl otherwise
    apply inner.statement.last
    intro onFalse us s' kept second
    refine ⟨kept, .branchElse kind tested.spelled first.spelled otherwise second.spelled, ?_⟩
    exact succ_le_square (Nat.max_le.mpr ⟨tested.low, Nat.max_le.mpr ⟨first.low, second.low⟩⟩)
  · apply takes_pure
    rw [List.append_nil]
    refine ⟨rfl, .branch kind tested.spelled first.spelled, ?_⟩
    exact succ_le_square (Nat.max_le.mpr ⟨tested.low, Nat.max_le.mpr ⟨first.low, Nat.zero_le _⟩⟩)

theorem takes_doLoop {word : Token} (kind : word.kind = .keyword .kwDo) (rest : List Token)
    (depth : Nat) :
    Takes (do
      advance
      let body ← statementRule fuel
      let _ ← expect (.keyword .kwWhile)
      let test ← condition
      semicolon
      return .doLoop word.span body test) ⟨word :: rest, depth⟩ (Entered depth) := by
  apply takes_advance (by simp [kind])
  apply inner.statement.bind
  intro body ts rest within
  apply takes_expect
  intro again rest repeats
  apply returns_condition.bind
  intro test cs rest tested
  apply takes_semicolon
  intro semi rest ends
  apply takes_pure
  refine ⟨rfl, .doLoop kind within.spelled repeats tested.spelled ends, ?_⟩
  exact succ_le_square (Nat.max_le.mpr ⟨tested.low, within.low⟩)

theorem takes_forLoop {word : Token} (kind : word.kind = .keyword .kwFor) (rest : List Token)
    (depth : Nat) :
    Takes (do
      advance
      let _ ← expect (.symbol .leftParen)
      let init ← forInit
      let test ← unlessNext (.symbol .semicolon)
      semicolon
      let step ← unlessNext (.symbol .rightParen)
      let _ ← expect (.symbol .rightParen)
      let body ← statementRule fuel
      return .forLoop word.span init test step body) ⟨word :: rest, depth⟩ (Entered depth) := by
  apply takes_advance (by simp [kind])
  apply takes_expect
  intro left rest opens
  apply returns_forInit.bind
  intro init is rest started
  apply (returns_unlessNext _).bind
  intro test cs rest tested
  apply takes_semicolon
  intro semi rest ends
  apply (returns_unlessNext _).bind
  intro step ss rest stepped
  apply takes_expect
  intro right rest closes
  apply inner.statement.last
  intro body ts s' kept within
  refine ⟨kept, ?_, ?_⟩
  · exact .forLoop kind opens started.spelled tested.spelled ends stepped.spelled closes
      within.spelled
  · have startLow := started.low
    have testLow := tested.low
    have stepLow := stepped.low
    have bodyLow := within.low
    -- The body takes a level, which makes up for the statement in the header.
    have levels := room_pos body.height_pos bodyLow
    have square := square_succ (room depth)
    simp only [Stmt.height]
    omega

theorem bareStatementRule_succ :
    Returns (bareStatementRule (fuel + 1)) fun depth =>
      StmtWithin ((room depth + 1) * (room depth + 1)) := by
  intro rest depth
  have simple (rest : List Token) : Takes simpleStatement ⟨rest, depth⟩ (Entered depth) := by
    refine (returns_simpleStatement rest depth).imp ?_
    rintro stmt ts s' ⟨kept, within⟩
    refine ⟨kept, .simple within.spelled, ?_⟩
    exact Nat.le_trans within.low (succ_le_square (Nat.le_refl _))
  unfold bareStatementRule
  refine takes_peek? (fun _ => simple rest) ?_
  rintro first rest rfl live
  simp only
  split
  · apply inner.block.last
    intro b ts s' kept within
    refine ⟨kept, within.spelled.statement, ?_⟩
    rw [Stmt.height, Stmt.heightAll_eq]
    exact succ_le_square within.low
  · next kind => exact inner.takes_branch kind rest depth
  · next kind =>
    apply takes_advance live
    apply returns_condition.bind
    intro test cs rest tested
    apply inner.statement.last
    intro body ts s' kept within
    refine ⟨kept, .whileLoop kind tested.spelled within.spelled, ?_⟩
    exact succ_le_square (Nat.max_le.mpr ⟨tested.low, within.low⟩)
  · next kind => exact inner.takes_doLoop kind rest depth
  · next kind => exact inner.takes_forLoop kind rest depth
  · next kind =>
    apply takes_advance live
    apply (returns_unlessNext _).bind
    intro value ts rest within
    apply takes_semicolon
    intro semi rest ends
    apply takes_pure
    exact ⟨rfl, .ret kind within.spelled ends, succ_le_square within.low⟩
  · next kind =>
    apply takes_advance live
    apply takes_semicolon
    intro semi rest ends
    apply takes_pure
    exact ⟨rfl, .breakLoop kind ends, succ_le_square (Nat.zero_le _)⟩
  · next kind =>
    apply takes_advance live
    apply takes_semicolon
    intro semi rest ends
    apply takes_pure
    exact ⟨rfl, .continueLoop kind ends, succ_le_square (Nat.zero_le _)⟩
  · exact simple _

theorem succ : StmtRulesSound (fuel + 1) where
  statement := inner.statementRule_succ
  bare := inner.bareStatementRule_succ
  block := inner.blockRule_succ

end StmtRulesSound

theorem StmtRulesSound.all (fuel : Nat) : StmtRulesSound fuel := by
  induction fuel with
  | zero => exact .zero
  | succ fuel ih => exact ih.succ

theorem returns_block :
    Returns block fun depth => Bounded SpellsBlock Block.height (room depth * room depth) :=
  (StmtRulesSound.all ruleFuel).block

end CherryLang.Syntax
