import CherryLang.Proofs.Soundness.Parts
import CherryLang.Syntax.Expression

/-! What the rules for expressions return is spelled by the tokens that they take, and its height is
bounded by the levels of nesting left.

The bound is the square of their number. A chain of operators or suffixes enters a level for each
link, but its first operand has been read before and may have used them all, so that heights add
up. -/
namespace CherryLang.Syntax

/-- Levels of nesting left. -/
def room (depth : Nat) : Nat := nestingLimit - depth

theorem room_of_lt {depth : Nat} (free : depth < nestingLimit) :
    room depth = room (depth + 1) + 1 := by
  unfold room
  omega

abbrev ExprWithin (bound : Nat) : Expr → List Token → Prop := Bounded SpellsExpr Expr.height bound

/-- The rule goes on behind the expression `e`, which leaves as much of `bound` as there are levels
left. They also suffice for an expression on the way and the links behind it. -/
def Prolongs (rule : Expr → Rule Expr) : Prop :=
  ∀ e ls rest depth bound, SpellsExpr e ls → e.height + room depth ≤ bound →
    room depth * room depth + room depth ≤ bound →
      Takes (rule e) ⟨rest, depth⟩ fun e' ts _ => ExprWithin bound e' (ls ++ ts)

/-- What the rules for expressions return with this much fuel. -/
structure ExprRulesSound (fuel : Nat) : Prop where
  expr : Returns (exprRule fuel) fun depth => ExprWithin (room depth * room depth)
  assignment : Returns (assignmentRule fuel) fun depth =>
    ExprWithin ((room depth + 1) * (room depth + 1))
  binary : ∀ least, Returns (binaryRule fuel least) fun depth e ts =>
    ExprWithin ((room depth + 1) * (room depth + 1)) e ts ∧
      (e.isAssignable = true → e.height ≤ room depth * room depth + room depth + 1)
  operator : ∀ least, Prolongs (operatorRule fuel least)
  unary : Returns (unaryRule fuel) fun depth =>
    ExprWithin (room depth * room depth + room depth + 1)
  suffixed : Returns (suffixedRule fuel) fun depth =>
    ExprWithin (room depth * room depth + room depth + 1)
  suffix : Prolongs (suffixRule fuel)
  primary : Returns (primaryRule fuel) fun depth => ExprWithin (room depth * room depth + 1)

theorem square_succ (n : Nat) : (n + 1) * (n + 1) = n * n + 2 * n + 1 := by
  rw [Nat.add_mul, Nat.mul_add]
  omega

theorem succ_le_square {n m : Nat} (le : n ≤ m * m) : n + 1 ≤ (m + 1) * (m + 1) := by
  have := square_succ m
  omega

theorem room_pos {n depth : Nat} (pos : 0 < n) (low : n ≤ room depth * room depth) :
    0 < room depth := by
  cases left : room depth with
  | zero => simp [left] at low; omega
  | succ _ => exact Nat.succ_pos _

/-- One link more: the level that it enters makes up for the height that it adds. -/
theorem Prolongs.link {rule : Expr → Rule Expr} (prolongs : Prolongs rule) {e e' : Expr}
    {ls us rest : List Token} {depth bound other : Nat} (free : depth < nestingLimit)
    (spelled : SpellsExpr e' (ls ++ us)) (higher : e'.height ≤ max e.height other + 1)
    (inner : other ≤ room depth * room depth) (low : e.height + room depth ≤ bound)
    (wide : room depth * room depth + room depth ≤ bound) :
    Takes (rule e') ⟨rest, depth + 1⟩ fun r ts _ => ExprWithin bound r (ls ++ (us ++ ts)) := by
  have left := room_of_lt free
  have square := square_succ (room (depth + 1))
  rw [← left] at square
  simp only [← List.append_assoc]
  exact prolongs e' _ rest _ bound spelled (by omega) (by omega)

/-- Only the first operand can be assigned to: with an operator there is none. -/
theorem yields_operatorRule_assignable (fuel least : Nat) (lhs : Expr) (s : State) :
    Yields (operatorRule fuel least lhs) s (fun _ => True) fun e _ =>
      e.isAssignable = true → e = lhs := by
  induction fuel generalizing lhs s with
  | zero => exact yields_tooDeep.mpr trivial
  | succ fuel ih =>
    unfold operatorRule
    rw [yields_bind, yields_peekKind?]
    split
    · exact fun _ => rfl
    · next op _ =>
      rw [yields_ite]
      split
      · exact fun _ => rfl
      · rw [yields_bind, yields_descend]
        split
        · rw [yields_bind, yields_advance, yields_bind]
          refine (yields_any _ _).imp (fun _ => id) fun rhs s' _ => ?_
          refine (ih _ s').imp (fun _ => id) ?_
          rintro e _ same assignable
          cases same assignable
          cases assignable
        · trivial

namespace ExprRulesSound

theorem zero : ExprRulesSound 0 where
  expr := returns_tooDeep
  assignment := returns_tooDeep
  binary _ := returns_tooDeep
  operator _ _ _ _ _ _ _ _ _ := takes_tooDeep
  unary := returns_tooDeep
  suffixed := returns_tooDeep
  suffix _ _ _ _ _ _ _ _ := takes_tooDeep
  primary := returns_tooDeep

variable {fuel : Nat} (inner : ExprRulesSound fuel)
include inner

theorem args : Returns (parenthesized (exprRule fuel)) fun depth =>
    Bounded (Parenthesized SpellsExpr) Expr.heightAll (room depth * room depth) := by
  apply (returns_parenthesized inner.expr).imp
  intro depth es ts list
  exact ⟨list.bounded.spelled, by rw [Expr.heightAll_eq]; exact list.bounded.low⟩

theorem exprRule_succ :
    Returns (exprRule (fuel + 1)) fun depth => ExprWithin (room depth * room depth) := by
  intro rest depth
  unfold exprRule
  apply takes_descend
  intro free
  apply inner.assignment.bind
  intro e ts rest within
  apply takes_ascend
  refine takes_pure ⟨rfl, ?_⟩
  rw [List.append_nil]
  show ExprWithin (room depth * room depth) e ts
  rw [room_of_lt free]
  exact within

theorem assignmentRule_succ :
    Returns (assignmentRule (fuel + 1)) fun depth =>
      ExprWithin ((room depth + 1) * (room depth + 1)) := by
  intro rest depth
  unfold assignmentRule
  apply (inner.binary 1).bind
  intro target ts rest left
  have stops : Takes (pure target) ⟨rest, depth⟩ fun e us s' =>
      s'.depth = depth ∧ ExprWithin ((room depth + 1) * (room depth + 1)) e (ts ++ us) :=
    takes_pure ⟨rfl, by rw [List.append_nil]; exact left.1⟩
  refine takes_peekKind? (fun _ => stops) ?_
  rintro o rest rfl live
  simp only [Option.bind_some]
  split
  · exact stops
  · next op found =>
    split
    · next assignable =>
      apply takes_advance live
      apply inner.expr.last
      intro value vs s' kept right
      refine ⟨kept, ?_, ?_⟩
      · have kind := Kind.assignOp?_eq_some_iff.mp found
        exact left.1.spelled.around (.assign assignable left.1.spelled kind right.spelled) rfl
      · have targetLow := left.2 assignable
        have valueLow := right.low
        have square := square_succ (room depth)
        -- The value takes a level, which the target leaves: it has no operators.
        have levels := room_pos value.height_pos valueLow
        simp only [Expr.height]
        omega
    · exact takes_throw _

theorem binaryRule_succ (least : Nat) :
    Returns (binaryRule (fuel + 1) least) fun depth e ts =>
      ExprWithin ((room depth + 1) * (room depth + 1)) e ts ∧
        (e.isAssignable = true → e.height ≤ room depth * room depth + room depth + 1) := by
  intro rest depth
  unfold binaryRule
  apply inner.unary.bind
  intro lhs ls rest left
  apply takes_keepingDepth
  have square := square_succ (room depth)
  have low := left.low
  have chain := inner.operator least lhs ls rest depth ((room depth + 1) * (room depth + 1))
    left.spelled (by omega) (by omega)
  refine (chain.and (yields_operatorRule_assignable fuel least lhs _)).imp ?_
  rintro e ts s' ⟨within, same⟩
  exact ⟨rfl, within, fun assignable => by rwa [same assignable]⟩

theorem operatorRule_succ (least : Nat) : Prolongs (operatorRule (fuel + 1) least) := by
  intro lhs ls rest depth bound spelled low wide
  unfold operatorRule
  have stops : Takes (pure lhs) ⟨rest, depth⟩ fun e ts _ => ExprWithin bound e (ls ++ ts) :=
    takes_pure ⟨by rwa [List.append_nil], by omega⟩
  refine takes_peekKind? (fun _ => stops) ?_
  rintro o rest rfl live
  simp only [Option.bind_some]
  split
  · exact stops
  · next op found =>
    split
    · exact stops
    · apply takes_descend
      intro free
      apply takes_advance live
      apply (inner.binary _).bind
      intro rhs rs rest right
      have form := spelled.around
        (.binary spelled (Kind.binaryOp?_eq_some_iff.mp found) right.1.spelled) rfl
      refine (inner.operator least).link free form (Nat.le_refl _) ?_ low wide
      rw [room_of_lt free]
      exact right.1.low

theorem unaryRule_succ :
    Returns (unaryRule (fuel + 1)) fun depth =>
      ExprWithin (room depth * room depth + room depth + 1) := by
  intro rest depth
  unfold unaryRule
  refine takes_peek? (fun _ => inner.suffixed rest depth) ?_
  rintro o rest rfl live
  simp only
  split
  · exact inner.suffixed _ depth
  · next op found =>
    have kind := Kind.unaryOp?_eq_some_iff.mp found
    apply takes_descend
    intro free
    apply takes_advance live
    apply inner.unary.bind
    intro operand ts rest within
    apply takes_ascend
    refine takes_pure ⟨rfl, ?_⟩
    rw [List.append_nil]
    refine ⟨.bare (.head ?_) (.unary kind within.spelled), ?_⟩
    · rw [kind]
      cases op <;> decide
    · have low := within.low
      have square := square_succ (room (depth + 1))
      simp only [Expr.height, room_of_lt free]
      omega

theorem suffixedRule_succ :
    Returns (suffixedRule (fuel + 1)) fun depth =>
      ExprWithin (room depth * room depth + room depth + 1) := by
  intro rest depth
  unfold suffixedRule
  apply inner.primary.bind
  intro e ts rest within
  apply takes_keepingDepth
  have low := within.low
  have chain := inner.suffix e ts rest depth (room depth * room depth + room depth + 1)
    within.spelled (by omega) (by omega)
  exact chain.imp fun e' us s' within' => ⟨rfl, within'⟩

theorem suffixRule_succ : Prolongs (suffixRule (fuel + 1)) := by
  intro e ls rest depth bound spelled low wide
  unfold suffixRule
  have stops : Takes (pure e) ⟨rest, depth⟩ fun e' ts _ => ExprWithin bound e' (ls ++ ts) :=
    takes_pure ⟨by rwa [List.append_nil], by omega⟩
  refine takes_peekKind? (fun _ => stops) ?_
  rintro t rest rfl live
  split
  · apply inner.args.bind
    intro args us rest list
    apply takes_descend
    intro free
    have form := spelled.around (.call spelled list.spelled) rfl
    exact inner.suffix.link free form (Nat.le_refl _) list.low low wide
  · next ahead =>
    apply takes_advance live
    apply inner.expr.bind
    intro place us rest within
    apply takes_expect
    intro right rest closes
    apply takes_descend
    intro free
    have form := spelled.around
      (.index spelled (Option.some.inj ahead) within.spelled closes) rfl
    refine (inner.suffix.link free form (Nat.le_refl _) within.low low wide).imp ?_
    intro r ts s' prolonged
    simpa using prolonged
  · next ahead =>
    apply takes_advance live
    apply takes_expectName
    intro name rest named
    have form := spelled.around
      (.member spelled (Option.some.inj ahead) ⟨named, rfl⟩) rfl
    apply takes_descend
    intro free
    exact inner.suffix.link free form (Nat.succ_le_succ (Nat.le_max_left _ 0)) (Nat.zero_le _)
      low wide
  · next kind _ _ _ ahead =>
    obtain rfl := Option.some.inj ahead
    split
    · exact stops
    · next op found =>
      have form := spelled.around
        (.step spelled (Kind.stepOp?_eq_some_iff.mp found)) rfl
      apply takes_advance live
      apply takes_descend
      intro free
      exact inner.suffix.link free form (Nat.succ_le_succ (Nat.le_max_left _ 0)) (Nat.zero_le _)
        low wide
  · exact stops

theorem primaryRule_succ :
    Returns (primaryRule (fuel + 1)) fun depth => ExprWithin (room depth * room depth + 1) := by
  intro rest depth
  unfold primaryRule
  refine takes_peek? (fun _ => takes_unexpected _) ?_
  rintro first rest rfl live
  have leaf {e : Expr} (form : FormsExpr e [first]) (place : e.span = first.span)
      (plain : first.kind ≠ .symbol .leftParen) (low : e.height = 1) :
      Takes (do advance; return e) ⟨first :: rest, depth⟩ fun e ts s' =>
        s'.depth = depth ∧ ExprWithin (room depth * room depth + 1) e ts :=
    takes_advance live (takes_pure ⟨rfl, .bare (place ▸ .head plain) form, by omega⟩)
  simp only
  split
  · next kind => exact leaf (.literal kind rfl) rfl (by simp [kind]) rfl
  · next kind => exact leaf (.name ⟨by rw [kind]; rfl, rfl⟩) rfl (by simp [kind]) rfl
  · next kind => exact leaf (.name ⟨by rw [kind]; rfl, rfl⟩) rfl (by simp [kind]) rfl
  · next kind => exact leaf (.self kind) rfl (by simp [kind]) rfl
  · next kind => exact leaf (.null kind) rfl (by simp [kind]) rfl
  · next kind =>
    apply takes_advance live
    apply returns_typeRef.bind
    intro type ts rest named
    apply inner.args.last
    intro es us s' kept list
    refine ⟨kept, ?_, ?_⟩
    · exact .bare (.head (by simp [kind])) (.new kind named list.spelled)
    · exact Nat.succ_le_succ list.low
  · next kind =>
    apply takes_advance live
    apply inner.expr.bind
    intro e ts rest within
    apply takes_expect
    intro right rest closes
    refine takes_pure ⟨rfl, ?_, ?_⟩
    · exact .paren kind within.spelled closes
    · exact Nat.le_succ_of_le within.low
  · next kind =>
    apply takes_advance live
    apply inner.args.last
    intro es us s' kept list
    refine ⟨kept, ?_, ?_⟩
    · exact .bare (.head (by simp [kind])) (.math kind list.spelled)
    · exact Nat.succ_le_succ list.low
  · exact takes_unexpected _

theorem succ : ExprRulesSound (fuel + 1) where
  expr := inner.exprRule_succ
  assignment := inner.assignmentRule_succ
  binary := inner.binaryRule_succ
  operator := inner.operatorRule_succ
  unary := inner.unaryRule_succ
  suffixed := inner.suffixedRule_succ
  suffix := inner.suffixRule_succ
  primary := inner.primaryRule_succ

end ExprRulesSound

theorem ExprRulesSound.all (fuel : Nat) : ExprRulesSound fuel := by
  induction fuel with
  | zero => exact .zero
  | succ fuel ih => exact ih.succ

theorem returns_expression :
    Returns expression fun depth => ExprWithin (room depth * room depth) :=
  (ExprRulesSound.all ruleFuel).expr

end CherryLang.Syntax
