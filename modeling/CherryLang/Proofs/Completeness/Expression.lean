import CherryLang.Proofs.Completeness.Parts
import CherryLang.Syntax.Expression

/-! The rule for expressions reads every written expression. The proof goes by the number of tokens
and, for one number, through the rules from the tightest to the loosest. Chains of suffixes and of
binary operators are written from the left, so their rules are followed with the rest of the chain
as a continuation. -/
namespace CherryLang

theorem BinaryOp.one_le_precedence (op : BinaryOp) : 1 ≤ op.precedence := by
  cases op <;> decide

theorem BinaryOp.precedence_le_ten (op : BinaryOp) : op.precedence ≤ 10 := by
  cases op <;> decide

namespace Syntax

def startsSuffix : Kind → Bool
  | .symbol .leftParen | .symbol .leftBracket | .symbol .dot | .symbol .plusPlus
  | .symbol .minusMinus => true
  | _ => false

def startsPrimary : Kind → Bool
  | .literal _ | .identifier | .methodIdentifier | .keyword .kwThis | .keyword .kwNull
  | .keyword .kwNew | .symbol .leftParen | .math _ => true
  | _ => false

/-- Nothing at the front of `k` lets an expression of strength `least` go on. -/
structure Ends (least : Nat) (k : List Token) : Prop where
  noSuffix : ∀ t, ahead? k = some t → startsSuffix t.kind = false
  noOperator : ∀ t op, ahead? k = some t → t.kind.binaryOp? = some op → op.precedence < least
  noAssign : ∀ t, ahead? k = some t → least = 0 → t.kind.assignOp? = none

theorem Ends.mono {a b : Nat} {k : List Token} (ends : Ends a k) (le : a ≤ b) : Ends b k where
  noSuffix := ends.noSuffix
  noOperator t op next operator := Nat.lt_of_lt_of_le (ends.noOperator t op next operator) le
  noAssign t next zero := ends.noAssign t next (by omega)

theorem ends_cons {t : Token} {kind : Kind} (least : Nat) (rest : List Token)
    (same : t.kind = kind) (noSuffix : startsSuffix kind = false)
    (noOperator : kind.binaryOp? = none) (noAssign : kind.assignOp? = none) :
    Ends least (t :: rest) := by
  have only : ∀ u, ahead? (t :: rest) = some u → u.kind = kind := by
    intro u next
    simp only [ahead?] at next
    split at next
    · cases next
    · cases next
      exact same
  constructor
  · intro u next
    rw [only u next, noSuffix]
  · intro u op next operator
    rw [only u next, noOperator] at operator
    cases operator
  · intro u next _
    rw [only u next, noAssign]

theorem Ends.eleven {a : Nat} {k : List Token} (ends : Ends a k) : Ends 11 k where
  noSuffix := ends.noSuffix
  noOperator _ op _ _ := Nat.lt_succ_of_le (op.precedence_le_ten)
  noAssign _ _ zero := absurd zero (by decide)

theorem ends_operator {o : Token} {op : BinaryOp} (kind : o.kind = .symbol op.symbol)
    (rest : List Token) : Ends (op.precedence + 1) (o :: rest) := by
  have next : ahead? (o :: rest) = some o := ahead?_cons (by simp [kind])
  constructor
  · intro t ahead
    cases next.symm.trans ahead
    rw [kind]
    cases op <;> rfl
  · intro t other ahead operator
    cases next.symm.trans ahead
    rw [Kind.binaryOp?_eq_some_iff.mpr kind] at operator
    cases operator
    exact Nat.lt_succ_self _
  · intro t _ zero
    omega

theorem ends_assign {o : Token} {op : AssignOp} (kind : o.kind = .symbol op.symbol)
    (rest : List Token) : Ends 1 (o :: rest) := by
  have next : ahead? (o :: rest) = some o := ahead?_cons (by simp [kind])
  constructor
  · intro t ahead
    cases next.symm.trans ahead
    rw [kind]
    cases op <;> rfl
  · intro t other ahead operator
    cases next.symm.trans ahead
    rw [kind] at operator
    cases op <;> cases operator
  · intro t _ zero
    omega

/-- How a written expression starts where strength `least` needs no parentheses. -/
def Leads (least : Nat) (ts : List Token) : Prop :=
  ∃ t us, ts = t :: us ∧
    (startsPrimary t.kind = true ∨ least ≤ 11 ∧ t.kind.unaryOp?.isSome = true)

theorem Leads.mono {a b : Nat} {ts : List Token} (leads : Leads b ts) (le : a ≤ b) :
    Leads a ts := by
  obtain ⟨t, us, rfl, primary | ⟨low, unary⟩⟩ := leads
  · exact ⟨t, us, rfl, .inl primary⟩
  · exact ⟨t, us, rfl, .inr ⟨by omega, unary⟩⟩

theorem Leads.append {least : Nat} {ts : List Token} (leads : Leads least ts) (us : List Token) :
    Leads least (ts ++ us) := by
  obtain ⟨t, vs, rfl, start⟩ := leads
  exact ⟨t, vs ++ us, rfl, start⟩

theorem startsPrimary_of_isName {kind : Kind} (named : kind.isName = true) :
    startsPrimary kind = true := by
  simp only [Kind.isName, Bool.or_eq_true, beq_iff_eq] at named
  obtain rfl | rfl := named <;> rfl

mutual

theorem Operand.leads {least : Nat} {e : Expr} {ts : List Token} :
    Operand least e ts → Leads least ts
  | .bare strong written => written.leads.mono strong
  | .paren opens _ _ => ⟨_, _, rfl, .inl (by rw [opens]; rfl)⟩

theorem WritesExpr.leads {e : Expr} {ts : List Token} : WritesExpr e ts → Leads e.strength ts
  | .literal kind _ => ⟨_, _, rfl, .inl (by rw [kind]; rfl)⟩
  | .name name => ⟨_, _, rfl, .inl (startsPrimary_of_isName name.kind)⟩
  | .self kind => ⟨_, _, rfl, .inl (by rw [kind]; rfl)⟩
  | .null kind => ⟨_, _, rfl, .inl (by rw [kind]; rfl)⟩
  | .unary kind _ =>
    ⟨_, _, rfl, .inr ⟨Nat.le_refl 11, by rw [Kind.unaryOp?_eq_some_iff.mpr kind]; rfl⟩⟩
  | .step inner _ => inner.leads.append _
  | .binary left _ _ => left.leads.append _
  | .assign _ left _ _ => (left.leads.append _).mono (Nat.zero_le 1)
  | .call inner _ => inner.leads.append _
  | .math kind _ => ⟨_, _, rfl, .inl (by rw [kind]; rfl)⟩
  | .member inner _ _ => inner.leads.append _
  | .index inner _ _ _ => (inner.leads.append _).append _
  | .new kind _ _ => ⟨_, _, rfl, .inl (by rw [kind]; rfl)⟩

end

def bareExpr (e : Expr) : Expr := e.respan nowhere

/-- Reading of whole expressions in up to `n` tokens, at any depth and with fuel that lasts to the
limit of nesting. -/
def ReadsExpr (n : Nat) : Prop :=
  ∀ depth fuel, 8 * (nestingLimit - depth) + 1 ≤ fuel →
    Reads (exprRule fuel) (Operand 0) bareExpr (fun _ => Ends 0) depth n

/-- The rules behind a level that has been entered may fail one token later. -/
def ReadsInside (rule : Nat → Rule Expr) (least rank n : Nat) : Prop :=
  ∀ e ts k depth fuel, Operand least e ts → ts.length ≤ n → Ends least k →
    8 * (nestingLimit - depth) + rank ≤ fuel →
      Yields (rule fuel) ⟨ts ++ k, depth⟩ (TooDeep (nestingLimit + 1 < depth + ts.length))
        (Gives bareExpr e k depth)

/-- A rule `first` and then a loop `next` around what it has read. Wherever the loop goes well
behind the whole of a written expression, so do both from its start. -/
def ReadsChain (first : Nat → Rule Expr) (next : Nat → Expr → Rule Expr) (least rank n : Nat)
    (follow : List Token → Prop) : Prop :=
  ∀ e ts k depth fuel (excuse : Prop) (good : Expr → State → Prop), Operand least e ts →
    ts.length ≤ n → follow k → 8 * (nestingLimit - depth) + rank ≤ fuel →
    (nestingLimit + 1 < depth + ts.length → excuse) →
    (∀ e' depth' fuel', bareExpr e' = bareExpr e → depth' < depth + ts.length →
      8 * (nestingLimit - depth') + rank ≤ fuel' →
        Yields (next fuel' e') ⟨k, depth'⟩ (TooDeep excuse) good) →
    Yields (first fuel) ⟨ts ++ k, depth⟩ (TooDeep excuse) fun e' s =>
      s.depth = depth ∧ Yields (next fuel e') s (TooDeep excuse) good

def ReadsSuffixes (n : Nat) : Prop :=
  ReadsChain primaryRule suffixRule 12 2 n fun _ => True

section

variable {n : Nat}

theorem follow_ends (_ : Expr) (t : Token) (rest : List Token)
    (next : t.kind = .symbol .comma ∨ t.kind = .symbol .rightParen) : Ends 0 (t :: rest) := by
  obtain comma | closes := next
  · exact ends_cons 0 rest comma rfl rfl rfl
  · exact ends_cons 0 rest closes rfl rfl rfl

theorem operand_starts (e : Expr) (ts : List Token) (written : Operand 0 e ts) :
    ∃ t us, ts = t :: us ∧ t.kind ≠ .symbol .rightParen := by
  obtain ⟨t, us, rfl, primary | ⟨-, unary⟩⟩ := written.leads
  · refine ⟨t, us, rfl, fun closes => ?_⟩
    simp [closes, startsPrimary] at primary
  · refine ⟨t, us, rfl, fun closes => ?_⟩
    simp [closes, Kind.unaryOp?] at unary

theorem reads_args (reads : ReadsExpr n) {args : List Expr} {us : List Token}
    (written : Parenthesized (Operand 0) args us) (short : us.length ≤ n + 1) {depth fuel : Nat}
    (enough : 8 * (nestingLimit - depth) + 1 ≤ fuel) (k : List Token) :
    Yields (parenthesized (exprRule fuel)) ⟨us ++ k, depth⟩
      (TooDeep (nestingLimit < depth + us.length)) fun args' s =>
        Expr.respanAll nowhere args' = Expr.respanAll nowhere args ∧ s = ⟨k, depth⟩ := by
  simp only [Expr.respanAll_eq_map]
  exact reads_parenthesized (reads depth fuel enough) follow_ends operand_starts written short

theorem Parenthesized.opens {α : Type} {writes : α → List Token → Prop} {xs : List α}
    {us : List Token} (written : Parenthesized writes xs us) :
    ∃ left vs, us = left :: vs ∧ left.kind = .symbol .leftParen := by
  cases written with
  | empty opens closes => exact ⟨_, _, rfl, opens⟩
  | filled opens inside => exact ⟨_, _, rfl, opens⟩

section

variable {k us : List Token} {depth fuel : Nat} {excuse : Prop} {good : Expr → State → Prop}
  {e e' : Expr}

theorem suffix_step {span : Span} {op : StepOp} {o : Token} (same : bareExpr e' = bareExpr e)
    (kind : o.kind = .symbol op.symbol) (enough : 8 * (nestingLimit - depth) + 2 ≤ fuel)
    (deep : nestingLimit ≤ depth → excuse)
    (go : ∀ x fuel', bareExpr x = bareExpr (.step span op e) →
      8 * (nestingLimit - (depth + 1)) + 2 ≤ fuel' →
        Yields (suffixRule fuel' x) ⟨k, depth + 1⟩ (TooDeep excuse) good) :
    Yields (suffixRule fuel e') ⟨o :: k, depth⟩ (TooDeep excuse) good := by
  obtain ⟨fuel, rfl⟩ : ∃ f, fuel = f + 1 := ⟨fuel - 1, by omega⟩
  have step : Yields (suffixRule (fuel + 1) e') ⟨o :: k, depth⟩ (TooDeep excuse) good ↔
      if depth < nestingLimit then
        Yields (suffixRule fuel (.step e'.span op e')) ⟨k, depth + 1⟩ (TooDeep excuse) good
      else TooDeep excuse ⟨.nestingTooDeep, (ahead? k).map (·.span)⟩ := by
    cases op <;> simp [suffixRule, ahead?, kind, StepOp.symbol, Kind.stepOp?]
  rw [step]
  split
  · refine go _ fuel ?_ (by omega)
    simp only [bareExpr, Expr.respan, nowhere] at same ⊢
    rw [same]
  · exact ⟨rfl, deep (by omega)⟩

theorem suffix_member {span : Span} {field : String} {dot t : Token}
    (same : bareExpr e' = bareExpr e) (kind : dot.kind = .symbol .dot) (name : WritesName field t)
    (enough : 8 * (nestingLimit - depth) + 2 ≤ fuel) (deep : nestingLimit ≤ depth → excuse)
    (go : ∀ x fuel', bareExpr x = bareExpr (.member span e field) →
      8 * (nestingLimit - (depth + 1)) + 2 ≤ fuel' →
        Yields (suffixRule fuel' x) ⟨k, depth + 1⟩ (TooDeep excuse) good) :
    Yields (suffixRule fuel e') ⟨dot :: t :: k, depth⟩ (TooDeep excuse) good := by
  obtain ⟨fuel, rfl⟩ : ∃ f, fuel = f + 1 := ⟨fuel - 1, by omega⟩
  have step : Yields (suffixRule (fuel + 1) e') ⟨dot :: t :: k, depth⟩ (TooDeep excuse) good ↔
      if depth < nestingLimit then
        Yields (suffixRule fuel (.member e'.span e' field)) ⟨k, depth + 1⟩ (TooDeep excuse) good
      else TooDeep excuse ⟨.nestingTooDeep, (ahead? k).map (·.span)⟩ := by
    simp [suffixRule, ahead?_cons, kind, yields_expectName_cons name.kind, name.lexeme]
  rw [step]
  split
  · refine go _ fuel ?_ (by omega)
    simp only [bareExpr, Expr.respan, nowhere] at same ⊢
    rw [same]
  · exact ⟨rfl, deep (by omega)⟩

theorem suffix_index (exprs : ReadsExpr n) {span : Span} {place : Expr} {left right : Token}
    (same : bareExpr e' = bareExpr e) (opens : left.kind = .symbol .leftBracket)
    (inside : Operand 0 place us) (closes : right.kind = .symbol .rightBracket)
    (short : us.length ≤ n) (enough : 8 * (nestingLimit - depth) + 2 ≤ fuel)
    (deep : nestingLimit < depth + us.length → excuse)
    (go : ∀ x fuel', bareExpr x = bareExpr (.index span e place) →
      8 * (nestingLimit - (depth + 1)) + 2 ≤ fuel' →
        Yields (suffixRule fuel' x) ⟨k, depth + 1⟩ (TooDeep excuse) good) :
    Yields (suffixRule fuel e') ⟨left :: us ++ right :: k, depth⟩ (TooDeep excuse) good := by
  obtain ⟨fuel, rfl⟩ : ∃ f, fuel = f + 1 := ⟨fuel - 1, by omega⟩
  obtain ⟨t, ts, split, -⟩ := inside.leads
  have nonempty : 0 < us.length := by simp [split]
  simp only [suffixRule, yields_bind, yields_peekKind?, List.cons_append, ahead?, opens,
    reduceCtorEq, if_false, Option.map_some, yields_advance, List.tail_cons]
  refine (exprs depth fuel (by omega) inside short (ends_cons 0 k closes rfl rfl rfl)).imp
    (TooDeep.imp deep) ?_
  rintro place' s ⟨samePlace, rfl⟩
  simp only [yields_expect_cons closes, ne_eq, reduceCtorEq, not_false_eq_true, yields_descend]
  split
  · refine go _ fuel ?_ (by omega)
    simp only [bareExpr, Expr.respan, nowhere] at same samePlace ⊢
    rw [same, samePlace]
  · exact ⟨rfl, deep (by omega)⟩

theorem suffix_call (exprs : ReadsExpr n) {span : Span} {args : List Expr}
    (same : bareExpr e' = bareExpr e) (inside : Parenthesized (Operand 0) args us)
    (short : us.length ≤ n + 1) (enough : 8 * (nestingLimit - depth) + 2 ≤ fuel)
    (deep : nestingLimit < depth + us.length → excuse)
    (go : ∀ x fuel', bareExpr x = bareExpr (.call span e args) →
      8 * (nestingLimit - (depth + 1)) + 2 ≤ fuel' →
        Yields (suffixRule fuel' x) ⟨k, depth + 1⟩ (TooDeep excuse) good) :
    Yields (suffixRule fuel e') ⟨us ++ k, depth⟩ (TooDeep excuse) good := by
  obtain ⟨fuel, rfl⟩ : ∃ f, fuel = f + 1 := ⟨fuel - 1, by omega⟩
  obtain ⟨left, vs, rfl, opens⟩ := inside.opens
  simp only [suffixRule, yields_bind, yields_peekKind?, List.cons_append, ahead?, opens,
    reduceCtorEq, if_false, Option.map_some]
  apply (reads_args exprs inside short (by omega) k).imp (TooDeep.imp deep)
  rintro args' s ⟨sameArgs, rfl⟩
  simp only [yields_descend]
  split
  · refine go _ fuel ?_ (by omega)
    simp only [bareExpr, Expr.respan, nowhere] at same sameArgs ⊢
    rw [same, sameArgs]
  · exact ⟨rfl, deep (by simp only [List.length_cons]; omega)⟩

end

section

variable {k us : List Token} {depth fuel : Nat} {excuse : Prop} {fails : Failure → Prop}
  {good : Expr → State → Prop}

theorem primary_literal {span : Span} {form : Literal} {t : Token} (kind : t.kind = .literal form)
    (go : ∀ x, bareExpr x = bareExpr (.literal span form t.lexeme) → good x ⟨k, depth⟩) :
    Yields (primaryRule (fuel + 1)) ⟨t :: k, depth⟩ fails good := by
  simp only [primaryRule, yields_bind, yields_peek?, ahead?, kind, reduceCtorEq, if_false,
    yields_advance, List.tail_cons, yields_pure]
  exact go _ rfl

theorem primary_name {span : Span} {t : Token} (kind : t.kind.isName = true)
    (go : ∀ x, bareExpr x = bareExpr (.name span t.lexeme) → good x ⟨k, depth⟩) :
    Yields (primaryRule (fuel + 1)) ⟨t :: k, depth⟩ fails good := by
  simp only [Kind.isName, Bool.or_eq_true, beq_iff_eq] at kind
  obtain kind | kind := kind
  all_goals
    simp only [primaryRule, yields_bind, yields_peek?, ahead?, kind, reduceCtorEq, if_false,
      yields_advance, List.tail_cons, yields_pure]
    exact go _ rfl

theorem primary_self {span : Span} {t : Token} (kind : t.kind = .keyword .kwThis)
    (go : ∀ x, bareExpr x = bareExpr (.self span) → good x ⟨k, depth⟩) :
    Yields (primaryRule (fuel + 1)) ⟨t :: k, depth⟩ fails good := by
  simp only [primaryRule, yields_bind, yields_peek?, ahead?, kind, reduceCtorEq, if_false,
    yields_advance, List.tail_cons, yields_pure]
  exact go _ rfl

theorem primary_null {span : Span} {t : Token} (kind : t.kind = .keyword .kwNull)
    (go : ∀ x, bareExpr x = bareExpr (.null span) → good x ⟨k, depth⟩) :
    Yields (primaryRule (fuel + 1)) ⟨t :: k, depth⟩ fails good := by
  simp only [primaryRule, yields_bind, yields_peek?, ahead?, kind, reduceCtorEq, if_false,
    yields_advance, List.tail_cons, yields_pure]
  exact go _ rfl

theorem primary_paren (exprs : ReadsExpr n) {e : Expr} {left right : Token}
    (opens : left.kind = .symbol .leftParen) (inside : Operand 0 e us)
    (closes : right.kind = .symbol .rightParen) (short : us.length ≤ n)
    (enough : 8 * (nestingLimit - depth) + 1 ≤ fuel)
    (deep : nestingLimit < depth + us.length → excuse)
    (go : ∀ x, bareExpr x = bareExpr e → good x ⟨k, depth⟩) :
    Yields (primaryRule (fuel + 1)) ⟨left :: us ++ right :: k, depth⟩ (TooDeep excuse) good := by
  simp only [primaryRule, yields_bind, yields_peek?, List.cons_append, ahead?, opens,
    reduceCtorEq, if_false, yields_advance, List.tail_cons]
  refine (exprs depth fuel enough inside short (ends_cons 0 k closes rfl rfl rfl)).imp
    (TooDeep.imp deep) ?_
  rintro x s ⟨same, rfl⟩
  simp only [yields_expect_cons closes, ne_eq, reduceCtorEq, not_false_eq_true, yields_pure]
  exact go x same

theorem primary_math (exprs : ReadsExpr n) {span : Span} {function : MathFunction}
    {args : List Expr} {t : Token} (kind : t.kind = .math function)
    (inside : Parenthesized (Operand 0) args us) (short : us.length ≤ n + 1)
    (enough : 8 * (nestingLimit - depth) + 1 ≤ fuel)
    (deep : nestingLimit < depth + us.length → excuse)
    (go : ∀ x, bareExpr x = bareExpr (.math span function args) → good x ⟨k, depth⟩) :
    Yields (primaryRule (fuel + 1)) ⟨t :: us ++ k, depth⟩ (TooDeep excuse) good := by
  simp only [primaryRule, yields_bind, yields_peek?, List.cons_append, ahead?, kind,
    reduceCtorEq, if_false, yields_advance, List.tail_cons, yields_pure]
  apply (reads_args exprs inside short enough k).imp (TooDeep.imp deep)
  rintro args' s ⟨sameArgs, rfl⟩
  apply go _
  simp only [bareExpr, Expr.respan, sameArgs, nowhere]

theorem primary_new (exprs : ReadsExpr n) {span : Span} {type : TypeRef} {args : List Expr}
    {ts : List Token} {word : Token} (kind : word.kind = .keyword .kwNew)
    (named : WritesType type ts) (inside : Parenthesized (Operand 0) args us)
    (short : us.length ≤ n + 1) (enough : 8 * (nestingLimit - depth) + 1 ≤ fuel)
    (deep : nestingLimit < depth + us.length → excuse)
    (go : ∀ x, bareExpr x = bareExpr (.new span type args) → good x ⟨k, depth⟩) :
    Yields (primaryRule (fuel + 1)) ⟨word :: ts ++ (us ++ k), depth⟩ (TooDeep excuse) good := by
  obtain ⟨left, vs, split, opens⟩ := inside.opens
  simp only [primaryRule, yields_bind, yields_peek?, List.cons_append, ahead?, kind,
    reduceCtorEq, if_false, yields_advance, List.tail_cons, yields_pure]
  refine yields_typeRef named (by simp [split, opens]) fun place => ?_
  refine (reads_args exprs inside short enough k).imp (TooDeep.imp deep) ?_
  rintro args' s ⟨sameArgs, rfl⟩
  apply go _
  simp only [bareExpr, Expr.respan, sameArgs, nowhere, TypeRef.respan]

end

theorem Operand.length_pos {least : Nat} {e : Expr} {ts : List Token}
    (written : Operand least e ts) : 0 < ts.length := by
  obtain ⟨t, us, rfl, -⟩ := written.leads
  exact Nat.zero_lt_succ _

/-- A primary is read at once. A suffix is added to a chain that is shorter. -/
theorem readsSuffixes_succ (suffixes : ReadsSuffixes n) (exprs : ReadsExpr n) :
    ReadsSuffixes (n + 1) := by
  intro e ts k depth fuel excuse good written short _ enough deep go
  obtain ⟨fuel, rfl⟩ : ∃ f, fuel = f + 1 := ⟨fuel - 1, by omega⟩
  have nonempty := written.length_pos
  have primary : ∀ x, bareExpr x = bareExpr e →
      depth = depth ∧ Yields (suffixRule (fuel + 1) x) ⟨k, depth⟩ (TooDeep excuse) good :=
    fun x same => ⟨rfl, go x depth (fuel + 1) same (by omega) enough⟩
  cases written with
  | @paren _ _ ts left right opens inside closes =>
    simp only [List.length_append, List.length_cons, List.length_nil] at short deep
    simpa using primary_paren exprs opens inside closes (by omega) (by omega)
      (fun _ => deep (by omega)) primary
  | bare strong written =>
    cases written with
    | literal kind lexeme =>
      subst lexeme
      exact primary_literal kind primary
    | name name =>
      obtain ⟨kind, rfl⟩ := name
      exact primary_name kind primary
    | self kind => exact primary_self kind primary
    | null kind => exact primary_null kind primary
    | math kind inside =>
      simp only [List.length_cons] at short deep
      exact primary_math exprs kind inside (by omega) (by omega) (fun _ => deep (by omega)) primary
    | @new _ type args ts us word kind named inside =>
      simp only [List.length_cons, List.length_append] at short deep
      rw [List.append_assoc]
      exact primary_new exprs kind named inside (by omega) (by omega) (fun _ => deep (by omega))
        primary
    | @step _ op operand ts o inner kind =>
      simp only [List.length_append, List.length_singleton] at short deep go
      simp only [List.append_assoc, List.singleton_append]
      refine suffixes operand ts (o :: k) depth (fuel + 1) excuse good inner (by omega) trivial
        enough (fun _ => deep (by omega)) fun e' depth' fuel' same near enough' => ?_
      exact suffix_step same kind enough' (fun _ => deep (by omega)) fun x fuel'' sameStep =>
        go x (depth' + 1) fuel'' sameStep (by omega)
    | @member _ object field ts dot t inner kind name =>
      simp only [List.length_append, List.length_cons, List.length_nil] at short deep go
      simp only [List.append_assoc, List.cons_append, List.nil_append]
      refine suffixes object ts (dot :: t :: k) depth (fuel + 1) excuse good inner (by omega)
        trivial enough (fun _ => deep (by omega)) fun e' depth' fuel' same near enough' => ?_
      exact suffix_member same kind name enough' (fun _ => deep (by omega))
        fun x fuel'' sameMember => go x (depth' + 1) fuel'' sameMember (by omega)
    | @index _ object place ts us left right inner opens inside closes =>
      simp only [List.length_append, List.length_cons, List.length_nil] at short deep go
      simp only [List.append_assoc, List.cons_append, List.nil_append]
      refine suffixes object ts (left :: (us ++ right :: k)) depth (fuel + 1) excuse good inner
        (by omega) trivial enough (fun _ => deep (by omega))
        fun e' depth' fuel' same near enough' => ?_
      exact suffix_index exprs same opens inside closes (by omega) enough'
        (fun _ => deep (by omega)) fun x fuel'' sameIndex =>
          go x (depth' + 1) fuel'' sameIndex (by omega)
    | @call _ callee args ts us inner inside =>
      obtain ⟨left, vs, split, opens⟩ := inside.opens
      have someArgs : 0 < us.length := by simp [split]
      have someCallee := inner.length_pos
      simp only [List.length_append] at short deep go
      simp only [List.append_assoc]
      refine suffixes callee ts (us ++ k) depth (fuel + 1) excuse good inner (by omega) trivial
        enough (fun _ => deep (by omega)) fun e' depth' fuel' same near enough' => ?_
      exact suffix_call exprs same inside (by omega) enough' (fun _ => deep (by omega))
        fun x fuel'' sameCall => go x (depth' + 1) fuel'' sameCall (by omega)
    | unary kind inner => simp [Expr.strength] at strong
    | assign assignable left kind right => simp [Expr.strength] at strong
    | @binary _ op lhs rhs ls rs o left kind right =>
      have low := op.precedence_le_ten
      simp only [Expr.strength] at strong
      omega

theorem yields_suffixRule_of_ends {e : Expr} {k : List Token} {depth fuel : Nat}
    {fails : Failure → Prop} {good : Expr → State → Prop} (ends : Ends 12 k) :
    Yields (suffixRule (fuel + 1) e) ⟨k, depth⟩ fails good ↔ good e ⟨k, depth⟩ := by
  simp only [suffixRule, yields_bind, yields_peekKind?]
  cases next : ahead? k with
  | none => simp
  | some t =>
    have other := ends.noSuffix t next
    simp only [Option.map_some]
    split
    · next found => simp [Option.some.inj found, startsSuffix] at other
    · next found => simp [Option.some.inj found, startsSuffix] at other
    · next found => simp [Option.some.inj found, startsSuffix] at other
    · next kind _ _ _ found =>
      cases found
      have noStep : t.kind.stepOp? = none := by
        cases step : t.kind.stepOp? with
        | none => rfl
        | some op =>
          rw [Kind.stepOp?_eq_some_iff.mp step] at other
          cases op <;> simp [StepOp.symbol, startsSuffix] at other
      simp [noStep]
    · next found => cases found

theorem reads_suffixed (suffixes : ReadsSuffixes n) : ReadsInside suffixedRule 12 3 n := by
  intro e ts k depth fuel written short ends enough
  obtain ⟨fuel, rfl⟩ : ∃ f, fuel = f + 1 := ⟨fuel - 1, by omega⟩
  simp only [suffixedRule, yields_bind, yields_keepingDepth]
  have chain := suffixes e ts k depth fuel (nestingLimit + 1 < depth + ts.length)
    (fun e' s => Gives bareExpr e k depth e' ⟨s.rest, depth⟩) written short trivial (by omega) id
    fun e' depth' fuel' same near enough' => by
      obtain ⟨fuel', rfl⟩ : ∃ f, fuel' = f + 1 := ⟨fuel' - 1, by omega⟩
      rw [yields_suffixRule_of_ends ends]
      exact ⟨same, rfl⟩
  apply chain.imp (fun _ => id)
  rintro e' s ⟨rfl, loop⟩
  exact loop

theorem unaryOp?_eq_none_of_primary {kind : Kind} (primary : startsPrimary kind = true) :
    kind.unaryOp? = none := by
  cases found : kind.unaryOp? with
  | none => rfl
  | some op =>
    rw [Kind.unaryOp?_eq_some_iff.mp found] at primary
    cases op <;> simp [UnaryOp.symbol, startsPrimary] at primary

theorem Operand.unary_or_tight {e : Expr} {ts : List Token} (written : Operand 11 e ts) :
    Operand 12 e ts ∨ ∃ span op operand o us, e = .unary span op operand ∧ ts = o :: us ∧
      o.kind = .symbol op.symbol ∧ Operand 11 operand us := by
  cases written with
  | paren opens inside closes => exact .inl (.paren opens inside closes)
  | bare strong written =>
    by_cases tight : 12 ≤ e.strength
    · exact .inl (.bare tight written)
    · cases written with
      | unary kind inner => exact .inr ⟨_, _, _, _, _, rfl, rfl, kind, inner⟩
      | @binary _ op lhs rhs ls rs o left kind right =>
        have low := op.precedence_le_ten
        simp only [Expr.strength] at strong
        omega
      | assign assignable left kind right => simp [Expr.strength] at strong
      | _ => exact absurd (Nat.le_refl 12) tight

theorem readsUnary_succ (unary : ReadsInside unaryRule 11 4 n) (suffixes : ReadsSuffixes (n + 1)) :
    ReadsInside unaryRule 11 4 (n + 1) := by
  intro e ts k depth fuel written short ends enough
  obtain ⟨fuel, rfl⟩ : ∃ f, fuel = f + 1 := ⟨fuel - 1, by omega⟩
  obtain tight | ⟨span, op, operand, o, ts, rfl, rfl, kind, inner⟩ := written.unary_or_tight
  · obtain ⟨t, us, rfl, primary | ⟨low, -⟩⟩ := tight.leads
    · have noOp := unaryOp?_eq_none_of_primary primary
      have live : t.kind ≠ .endOfStream := by
        intro ended
        simp [ended, startsPrimary] at primary
      simp only [unaryRule, yields_bind, yields_peek?, List.cons_append, ahead?_cons live, noOp]
      exact reads_suffixed suffixes e (t :: us) k depth fuel tight short (ends.mono (by omega))
        (by omega)
    · omega
  · have live : o.kind ≠ .endOfStream := by simp [kind]
    have nonempty := inner.length_pos
    simp only [List.length_cons] at short ⊢
    simp only [unaryRule, yields_bind, yields_peek?, List.cons_append, ahead?_cons live,
      Kind.unaryOp?_eq_some_iff.mpr kind, yields_descend]
    split
    · simp only [yields_advance, List.tail_cons]
      refine (unary operand ts k (depth + 1) fuel inner (by omega) ends (by omega)).imp
        (TooDeep.imp fun deep => by omega) ?_
      rintro e' s ⟨same, rfl⟩
      simp only [yields_ascend, Nat.add_sub_cancel, yields_pure]
      refine ⟨?_, rfl⟩
      simp only [bareExpr, Expr.respan, nowhere] at same ⊢
      rw [same]
    · exact ⟨rfl, by omega⟩

/-- Reading of operands joined by operators of precedence `least` and above. Where the operand on
the left of all needs strength `level`, an operator that follows must not bind tighter. -/
def ReadsOperators (n : Nat) : Prop :=
  ∀ least level, least ≤ level → 1 ≤ level →
    ReadsChain unaryRule (fun fuel => operatorRule fuel least) level 4 n (Ends (level + 1))

theorem yields_operatorRule_of_ends {e : Expr} {k : List Token} {depth fuel least : Nat}
    {fails : Failure → Prop} {good : Expr → State → Prop} (ends : Ends least k) :
    Yields (operatorRule (fuel + 1) least e) ⟨k, depth⟩ fails good ↔ good e ⟨k, depth⟩ := by
  simp only [operatorRule, yields_bind, yields_peekKind?]
  cases next : ahead? k with
  | none => simp
  | some t =>
    simp only [Option.map_some, Option.bind_some]
    cases operator : t.kind.binaryOp? with
    | none => simp
    | some op => simp [ends.noOperator t op next operator]

theorem reads_binary (operators : ReadsOperators n) {least : Nat} (positive : 1 ≤ least) :
    ReadsInside (fun fuel => binaryRule fuel least) least 5 n := by
  intro e ts k depth fuel written short ends enough
  obtain ⟨fuel, rfl⟩ : ∃ f, fuel = f + 1 := ⟨fuel - 1, by omega⟩
  simp only [binaryRule, yields_bind, yields_keepingDepth]
  have chain := operators least least (Nat.le_refl _) positive e ts k depth fuel
    (nestingLimit + 1 < depth + ts.length)
    (fun e' s => Gives bareExpr e k depth e' ⟨s.rest, depth⟩) written short
    (ends.mono (Nat.le_succ _)) (by omega) id
    fun e' depth' fuel' same near enough' => by
      obtain ⟨fuel', rfl⟩ : ∃ f, fuel' = f + 1 := ⟨fuel' - 1, by omega⟩
      rw [yields_operatorRule_of_ends ends]
      exact ⟨same, rfl⟩
  apply chain.imp (fun _ => id)
  rintro e' s ⟨rfl, loop⟩
  exact loop

theorem Operand.binary_or_tight {level : Nat} {e : Expr} {ts : List Token}
    (written : Operand level e ts) (positive : 1 ≤ level) :
    Operand 11 e ts ∨ ∃ span op lhs rhs o ls rs, e = .binary span op lhs rhs ∧
      ts = ls ++ o :: rs ∧ level ≤ op.precedence ∧ Operand op.precedence lhs ls ∧
        o.kind = .symbol op.symbol ∧ Operand (op.precedence + 1) rhs rs := by
  cases written with
  | paren opens inside closes => exact .inl (.paren opens inside closes)
  | bare strong written =>
    by_cases tight : 11 ≤ e.strength
    · exact .inl (.bare tight written)
    · cases written with
      | binary left kind right =>
        exact .inr ⟨_, _, _, _, _, _, _, rfl, rfl, strong, left, kind, right⟩
      | assign assignable left kind right =>
        simp only [Expr.strength] at strong
        omega
      | unary kind inner => exact absurd (Nat.le_refl 11) tight
      | _ => exact absurd (by decide : 11 ≤ 12) tight

theorem operator_step (operators : ReadsOperators n) {op : BinaryOp} {span : Span}
    {lhs lhs' rhs : Expr} {o : Token} {rs k : List Token} {depth fuel least : Nat} {excuse : Prop}
    {good : Expr → State → Prop} (same : bareExpr lhs' = bareExpr lhs)
    (kind : o.kind = .symbol op.symbol) (right : Operand (op.precedence + 1) rhs rs)
    (short : rs.length ≤ n) (allowed : least ≤ op.precedence) (ends : Ends (op.precedence + 1) k)
    (enough : 8 * (nestingLimit - depth) + 4 ≤ fuel)
    (deep : nestingLimit < depth + rs.length → excuse)
    (go : ∀ x fuel', bareExpr x = bareExpr (.binary span op lhs rhs) →
      8 * (nestingLimit - (depth + 1)) + 4 ≤ fuel' →
        Yields (operatorRule fuel' least x) ⟨k, depth + 1⟩ (TooDeep excuse) good) :
    Yields (operatorRule fuel least lhs') ⟨o :: rs ++ k, depth⟩ (TooDeep excuse) good := by
  obtain ⟨fuel, rfl⟩ : ∃ f, fuel = f + 1 := ⟨fuel - 1, by omega⟩
  have live : o.kind ≠ .endOfStream := by simp [kind]
  have nonempty := right.length_pos
  simp only [operatorRule, yields_bind, yields_peekKind?, List.cons_append, ahead?_cons live,
    Option.map_some, Option.bind_some, Kind.binaryOp?_eq_some_iff.mpr kind,
    if_neg (Nat.not_lt.mpr allowed), yields_descend]
  split
  · simp only [yields_advance, List.tail_cons]
    refine (reads_binary operators (Nat.le_add_left 1 _) rhs rs k (depth + 1) fuel right short ends
      (by omega)).imp (TooDeep.imp fun _ => deep (by omega)) ?_
    rintro rhs' s ⟨sameRight, rfl⟩
    refine go _ fuel ?_ (by omega)
    simp only [bareExpr, Expr.respan, nowhere] at same sameRight ⊢
    rw [same, sameRight]
  · exact ⟨rfl, deep (by omega)⟩

theorem readsOperators_succ (operators : ReadsOperators n)
    (unary : ReadsInside unaryRule 11 4 (n + 1)) : ReadsOperators (n + 1) := by
  intro least level allowed positive e ts k depth fuel excuse good written short follow enough
    deep go
  obtain tight | ⟨span, op, lhs, rhs, o, ls, rs, rfl, rfl, strong, left, kind, right⟩ :=
    written.binary_or_tight positive
  · apply (unary e ts k depth fuel tight short follow.eleven enough).imp (TooDeep.imp deep)
    rintro e' s ⟨same, rfl⟩
    have nonempty := written.length_pos
    exact ⟨rfl, go e' depth fuel same (by omega) enough⟩
  · have someLeft := left.length_pos
    have someRight := right.length_pos
    simp only [List.length_append, List.length_cons] at short deep go
    simp only [List.append_assoc, List.cons_append]
    -- the left operand is followed by this operator, which does not bind tighter than it asks for
    refine operators least op.precedence (by omega) (by omega) lhs ls (o :: (rs ++ k)) depth fuel
      excuse good left (by omega) (ends_operator kind _) enough (fun _ => deep (by omega))
      fun lhs' depth' fuel' same near enough' => ?_
    exact operator_step operators same kind right (by omega) (by omega) (follow.mono (by omega))
      enough' (fun _ => deep (by omega)) fun x fuel'' sameBinary =>
        go x (depth' + 1) fuel'' sameBinary (by omega)

theorem Operand.assign_or_strong {e : Expr} {ts : List Token} (written : Operand 0 e ts) :
    Operand 1 e ts ∨ ∃ span op target value o us vs, e = .assign span op target value ∧
      ts = us ++ o :: vs ∧ target.isAssignable = true ∧ Operand 1 target us ∧
        o.kind = .symbol op.symbol ∧ Operand 0 value vs := by
  cases written with
  | paren opens inside closes => exact .inl (.paren opens inside closes)
  | bare _ written =>
    by_cases strong : 1 ≤ e.strength
    · exact .inl (.bare strong written)
    · cases written with
      | assign assignable left kind right =>
        exact .inr ⟨_, _, _, _, _, _, _, rfl, rfl, assignable, left, kind, right⟩
      | @binary _ op lhs rhs ls rs o left kind right =>
        exact absurd (op.one_le_precedence) strong
      | unary kind inner => exact absurd (by decide : 1 ≤ 11) strong
      | _ => exact absurd (by decide : 1 ≤ 12) strong

theorem reads_assignment (exprs : ReadsExpr n) (operators : ReadsOperators (n + 1)) :
    ReadsInside assignmentRule 0 6 (n + 1) := by
  intro e ts k depth fuel written short ends enough
  obtain ⟨fuel, rfl⟩ : ∃ f, fuel = f + 1 := ⟨fuel - 1, by omega⟩
  obtain strong | ⟨span, op, target, value, o, us, vs, rfl, rfl, assignable, left, kind, right⟩ :=
    written.assign_or_strong
  · simp only [assignmentRule, yields_bind]
    refine (reads_binary operators (Nat.le_refl 1) e ts k depth fuel strong short
      (ends.mono (Nat.zero_le 1)) (by omega)).imp (fun _ => id) ?_
    rintro e' s ⟨same, rfl⟩
    have noAssign : ((ahead? k).map (·.kind)).bind Kind.assignOp? = none := by
      cases next : ahead? k with
      | none => rfl
      | some t => exact ends.noAssign t next rfl
    simp only [yields_peekKind?, noAssign, yields_pure]
    exact ⟨same, rfl⟩
  · have someTarget := left.length_pos
    have someValue := right.length_pos
    have live : o.kind ≠ .endOfStream := by simp [kind]
    simp only [List.length_append, List.length_cons] at short ⊢
    simp only [assignmentRule, yields_bind, List.append_assoc, List.cons_append]
    refine (reads_binary operators (Nat.le_refl 1) target us (o :: (vs ++ k)) depth fuel left
      (by omega) (ends_assign kind _) (by omega)).imp (TooDeep.imp fun _ => by omega) ?_
    rintro target' s ⟨same, rfl⟩
    have assignable' : target'.isAssignable = true := by
      have shown := congrArg Expr.isAssignable same
      simpa only [bareExpr, Expr.isAssignable_respan, assignable] using shown
    simp only [yields_peekKind?, ahead?_cons live, Option.map_some, Option.bind_some,
      Kind.assignOp?_eq_some_iff.mpr kind, assignable', if_true, yields_bind, yields_advance,
      List.tail_cons]
    refine (exprs depth fuel (by omega) right (by omega) ends).imp
      (TooDeep.imp fun _ => by omega) ?_
    rintro value' s ⟨sameValue, rfl⟩
    refine ⟨?_, rfl⟩
    simp only [bareExpr, Expr.respan, nowhere] at same sameValue ⊢
    rw [same, sameValue]

theorem readsExpr_succ (exprs : ReadsExpr n) (operators : ReadsOperators (n + 1)) :
    ReadsExpr (n + 1) := by
  intro depth fuel enough e ts k written short ends
  obtain ⟨fuel, rfl⟩ : ∃ f, fuel = f + 1 := ⟨fuel - 1, by omega⟩
  have nonempty := written.length_pos
  simp only [exprRule, yields_bind, yields_descend]
  split
  · refine (reads_assignment exprs operators e ts k (depth + 1) fuel written short ends
      (by omega)).imp (TooDeep.imp fun _ => by omega) ?_
    rintro e' s ⟨same, rfl⟩
    simp only [yields_ascend, Nat.add_sub_cancel, yields_pure]
    exact ⟨same, rfl⟩
  · exact ⟨rfl, by omega⟩

end

/-- All rules for expressions at once, by the number of tokens. -/
theorem reads_all (n : Nat) : ReadsSuffixes n ∧ ReadsInside unaryRule 11 4 n ∧
    ReadsOperators n ∧ ReadsExpr n := by
  induction n with
  | zero =>
    -- no expression is written without a token
    refine ⟨?_, ?_, ?_, ?_⟩
    · intro e ts k depth fuel excuse good written short
      exact absurd written.length_pos (by omega)
    · intro e ts k depth fuel written short
      exact absurd written.length_pos (by omega)
    · intro least level _ _ e ts k depth fuel excuse good written short
      exact absurd written.length_pos (by omega)
    · intro depth fuel _ e ts k written short
      exact absurd written.length_pos (by omega)
  | succ n ih =>
    obtain ⟨suffixes, unary, operators, exprs⟩ := ih
    have suffixes' := readsSuffixes_succ suffixes exprs
    have unary' := readsUnary_succ unary suffixes'
    have operators' := readsOperators_succ operators unary'
    exact ⟨suffixes', unary', operators', readsExpr_succ exprs operators'⟩

theorem reads_expression (depth n : Nat) :
    Reads expression (Operand 0) bareExpr (fun _ => Ends 0) depth n :=
  (reads_all n).2.2.2 depth ruleFuel (by unfold ruleFuel; omega)

end Syntax

end CherryLang
