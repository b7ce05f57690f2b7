import CherryLang.Syntax.File
import CherryLang.Proofs.Syntax.Yields

/-! Where the parser puts the blame. A rule that fails names the place of a token ahead or the end
of the input; the target of an assignment, which lies behind, began with such a token too. -/
namespace CherryLang.Syntax

section

variable (places : Span → Prop)

def State.At (s : State) : Prop := ∀ t ∈ s.rest, places t.span

/-- From tokens at `places`, the rule blames one of these places or the end of the input, or leaves
tokens at these places and a result that `good` accepts. -/
def Blames {α : Type} (rule : Rule α) (good : α → Prop) : Prop :=
  ∀ s : State, s.At places →
    Yields rule s (fun failure => ∀ span ∈ failure.span, places span) fun a s' =>
      good a ∧ s'.At places

def OnlyBlames {α : Type} (rule : Rule α) : Prop := Blames places rule fun _ => True

variable {places} {α β : Type} {rule : Rule α} {mid : α → Prop} {good : β → Prop}

theorem State.At.ahead {s : State} (known : s.At places) : ∀ t ∈ ahead? s.rest, places t.span := by
  intro t next
  unfold ahead? at next
  split at next
  · cases next
  · next rest first later =>
    split at next
    · cases next
    · cases next
      exact known t (by simp [later])

theorem State.At.blame {s : State} (known : s.At places) :
    ∀ span ∈ (ahead? s.rest).map (·.span), places span := by
  intro span found
  obtain ⟨t, next, rfl⟩ := Option.map_eq_some_iff.mp found
  exact known.ahead t next

theorem State.At.subset {s s' : State} (known : s.At places) (fewer : s'.rest ⊆ s.rest) :
    s'.At places := fun t left => known t (fewer left)

theorem Blames.bind {next : α → Rule β} (first : Blames places rule mid)
    (second : ∀ a, mid a → Blames places (next a) good) : Blames places (rule >>= next) good := by
  intro s known
  refine yields_bind.mpr ((first s known).imp (fun _ => id) ?_)
  rintro a s' ⟨accepted, left⟩
  exact second a accepted s' left

theorem Blames.andThen {next : Rule β} (first : Blames places rule mid)
    (second : Blames places next good) : Blames places (rule >>= fun _ => next) good :=
  first.bind fun _ _ => second

theorem Blames.onlyBlames (blames : Blames places rule mid) : OnlyBlames places rule := by
  intro s known
  refine (blames s known).imp (fun _ => id) ?_
  rintro a s' ⟨_, left⟩
  exact ⟨trivial, left⟩

theorem blames_pure {b : β} (accepted : good b) : Blames places (pure b) good :=
  fun _ known => ⟨accepted, known⟩

theorem Blames.ends {f : α → β} (blames : Blames places rule mid) :
    OnlyBlames places (rule >>= fun a => pure (f a)) :=
  blames.bind fun _ _ => blames_pure trivial

theorem blames_throw {kind : ErrorKind} {span : Span} (blamed : places span) :
    Blames places (throw ⟨kind, some span⟩) good := by
  intro s known
  rw [yields_throw]
  rintro _ ⟨⟩
  exact blamed

theorem blames_unexpected (what : Expectation) : Blames places (unexpected what) good := by
  intro s known
  rw [yields_unexpected]
  exact known.blame

theorem blames_tooDeep : Blames places tooDeep good := by
  intro s known
  rw [yields_tooDeep]
  exact known.blame

theorem blames_get : Blames places get (State.At places) := fun _ known => ⟨known, known⟩

theorem blames_modify {change : State → State} (fewer : ∀ s, (change s).rest ⊆ s.rest) :
    OnlyBlames places (modify change) :=
  fun s known => ⟨trivial, known.subset (fewer s)⟩

theorem blames_peek? : Blames places peek? fun t? => ∀ t ∈ t?, places t.span := by
  intro s known
  rw [yields_peek?]
  exact ⟨known.ahead, known⟩

theorem blames_peekKind? : OnlyBlames places peekKind? :=
  blames_peek?.ends

theorem blames_advance : OnlyBlames places advance :=
  blames_modify fun s => (List.tail_sublist s.rest).subset

theorem blames_isNext (kind : Kind) : OnlyBlames places (isNext kind) :=
  blames_peekKind?.ends

theorem blames_eat (kind : Kind) : OnlyBlames places (eat kind) := by
  refine (blames_isNext kind).bind fun found _ => ?_
  cases found with
  | true => exact blames_advance.ends
  | false => exact blames_pure trivial

theorem blames_take (accepts : Kind → Bool) (what : Expectation) :
    Blames places (take accepts what) fun t => places t.span := by
  apply blames_peek?.bind
  intro t? next
  cases t? with
  | none => exact blames_unexpected what
  | some t =>
    dsimp only
    split
    · exact blames_advance.andThen (blames_pure (next t rfl))
    · exact blames_unexpected what

theorem blames_expect (kind : Kind) : Blames places (expect kind) fun t => places t.span :=
  blames_take _ _

theorem blames_expectName : Blames places expectName fun t => places t.span := blames_take _ _

theorem blames_descend : OnlyBlames places descend := by
  intro s known
  rw [yields_descend]
  split
  · exact ⟨trivial, known⟩
  · exact known.blame

theorem blames_ascend : OnlyBlames places ascend := blames_modify fun _ => List.Subset.refl _

theorem Blames.keepingDepth (blames : Blames places rule mid) :
    Blames places (keepingDepth rule) mid := by
  intro s known
  rw [yields_keepingDepth]
  exact blames s known

theorem blames_untilClose (close : Kind) (blames : Blames places rule mid) (bound : Nat)
    (found : Array α) : OnlyBlames places (untilClose close rule bound found) := by
  induction bound generalizing found with
  | zero => exact (blames_expect close).ends
  | succ bound ih =>
    apply blames_peekKind?.bind
    intro kind? _
    cases kind? with
    | none => exact blames_unexpected _
    | some kind =>
      dsimp only
      split
      · exact blames_advance.ends
      · exact blames.bind fun a _ => ih _

theorem blames_untilBrace (blames : Blames places rule mid) :
    OnlyBlames places (untilBrace rule) :=
  blames_get.bind fun _ _ => blames_untilClose _ blames _ _

theorem blames_commaList (blames : Blames places rule mid) (bound : Nat) (found : Array α) :
    OnlyBlames places (commaList rule bound found) := by
  induction bound generalizing found with
  | zero => exact (blames_expect _).ends
  | succ bound ih =>
    refine blames.bind fun a _ => (blames_eat _).bind fun more _ => ?_
    cases more with
    | true => exact ih _
    | false => exact (blames_expect _).ends

theorem blames_parenthesized (blames : Blames places rule mid) :
    OnlyBlames places (parenthesized rule) := by
  refine (blames_expect _).andThen ((blames_eat _).bind fun empty _ => ?_)
  cases empty with
  | true => exact blames_pure trivial
  | false => exact blames_get.bind fun _ _ => blames_commaList blames _ _

theorem blames_modifiers : OnlyBlames places modifiers := by
  intro s known
  simp only [modifiers, yields_bind, yields_get, yields_modify, yields_pure]
  exact ⟨trivial, known.subset (List.dropWhile_subset _)⟩

theorem bracketPairs_subset : ∀ (count : Nat) (ts : List Token), (bracketPairs count ts).2 ⊆ ts
  | _, [] | _, [_] => List.Subset.refl _
  | count, left :: right :: rest => by
    unfold bracketPairs
    split
    · have inner := bracketPairs_subset (count + 1) rest
      exact List.Subset.trans inner (List.subset_cons_of_subset _ (List.subset_cons_self _ _))
    · exact List.Subset.refl _

theorem blames_typeRef : OnlyBlames places typeRef := by
  apply blames_peek?.bind
  intro t? _
  cases t? with
  | none => exact blames_unexpected _
  | some first =>
    dsimp only
    cases typeName? first with
    | none => exact blames_unexpected _
    | some name =>
      apply blames_advance.andThen
      intro s known
      simp only [yields_bind, yields_get, yields_modify, yields_pure]
      exact ⟨trivial, known.subset (bracketPairs_subset 0 s.rest)⟩

end

section

variable {places : Span → Prop}

def ExprAt (places : Span → Prop) (e : Expr) : Prop := places e.span

structure ExpressionsBlame (places : Span → Prop) (fuel : Nat) : Prop where
  expr : Blames places (exprRule fuel) (ExprAt places)
  assignment : Blames places (assignmentRule fuel) (ExprAt places)
  binary (least : Nat) : Blames places (binaryRule fuel least) (ExprAt places)
  operator (least : Nat) {lhs : Expr} (known : ExprAt places lhs) :
    Blames places (operatorRule fuel least lhs) (ExprAt places)
  unary : Blames places (unaryRule fuel) (ExprAt places)
  suffixed : Blames places (suffixedRule fuel) (ExprAt places)
  suffix {e : Expr} (known : ExprAt places e) : Blames places (suffixRule fuel e) (ExprAt places)
  primary : Blames places (primaryRule fuel) (ExprAt places)

namespace ExpressionsBlame

theorem zero : ExpressionsBlame places 0 where
  expr := blames_tooDeep
  assignment := blames_tooDeep
  binary _ := blames_tooDeep
  operator _ _ _ := blames_tooDeep
  unary := blames_tooDeep
  suffixed := blames_tooDeep
  suffix _ := blames_tooDeep
  primary := blames_tooDeep

variable {fuel : Nat} (inner : ExpressionsBlame places fuel)
include inner

theorem exprRule_succ : Blames places (exprRule (fuel + 1)) (ExprAt places) := by
  unfold exprRule
  apply blames_descend.andThen
  apply inner.assignment.bind
  intro e known
  exact blames_ascend.andThen (blames_pure known)

theorem assignmentRule_succ : Blames places (assignmentRule (fuel + 1)) (ExprAt places) := by
  unfold assignmentRule
  apply (inner.binary 1).bind
  intro target known
  apply blames_peekKind?.bind
  intro kind? _
  cases kind?.bind Kind.assignOp? with
  | none => exact blames_pure known
  | some op =>
    dsimp only
    split
    · apply blames_advance.andThen
      exact inner.expr.bind fun value _ => blames_pure known
    · exact blames_throw known

theorem binaryRule_succ (least : Nat) :
    Blames places (binaryRule (fuel + 1) least) (ExprAt places) := by
  unfold binaryRule
  exact inner.unary.bind fun lhs known => (inner.operator least known).keepingDepth

theorem operatorRule_succ (least : Nat) {lhs : Expr} (known : ExprAt places lhs) :
    Blames places (operatorRule (fuel + 1) least lhs) (ExprAt places) := by
  unfold operatorRule
  apply blames_peekKind?.bind
  intro kind? _
  cases kind?.bind Kind.binaryOp? with
  | none => exact blames_pure known
  | some op =>
    dsimp only
    split
    · exact blames_pure known
    · apply blames_descend.andThen
      apply blames_advance.andThen
      apply (inner.binary _).bind
      intro rhs _
      exact inner.operator least known

theorem unaryRule_succ : Blames places (unaryRule (fuel + 1)) (ExprAt places) := by
  unfold unaryRule
  apply blames_peek?.bind
  intro t? next
  cases t? with
  | none => exact inner.suffixed
  | some first =>
    dsimp only
    cases first.kind.unaryOp? with
    | none => exact inner.suffixed
    | some op =>
      apply blames_descend.andThen
      apply blames_advance.andThen
      apply inner.unary.bind
      intro operand _
      exact blames_ascend.andThen (blames_pure (next first rfl))

theorem suffixedRule_succ : Blames places (suffixedRule (fuel + 1)) (ExprAt places) := by
  unfold suffixedRule
  exact inner.primary.bind fun e known => (inner.suffix known).keepingDepth

theorem suffixRule_succ {e : Expr} (known : ExprAt places e) :
    Blames places (suffixRule (fuel + 1) e) (ExprAt places) := by
  unfold suffixRule
  apply blames_peekKind?.bind
  intro kind? _
  split
  · apply (blames_parenthesized inner.expr).bind
    intro args _
    exact blames_descend.andThen (inner.suffix known)
  · apply blames_advance.andThen
    apply inner.expr.bind
    intro index _
    exact (blames_expect _).andThen (blames_descend.andThen (inner.suffix known))
  · apply blames_advance.andThen
    apply blames_expectName.bind
    intro name _
    exact blames_descend.andThen (inner.suffix known)
  · next kind _ _ _ =>
    cases kind.stepOp? with
    | none => exact blames_pure known
    | some op => exact blames_advance.andThen (blames_descend.andThen (inner.suffix known))
  · exact blames_pure known

theorem primaryRule_succ : Blames places (primaryRule (fuel + 1)) (ExprAt places) := by
  unfold primaryRule
  apply blames_peek?.bind
  intro t? next
  cases t? with
  | none => exact blames_unexpected _
  | some first =>
    have here : places first.span := next first rfl
    dsimp only
    split
    · exact blames_advance.andThen (blames_pure here)
    · exact blames_advance.andThen (blames_pure here)
    · exact blames_advance.andThen (blames_pure here)
    · exact blames_advance.andThen (blames_pure here)
    · exact blames_advance.andThen (blames_pure here)
    · apply blames_advance.andThen
      apply blames_typeRef.bind
      intro type _
      exact (blames_parenthesized inner.expr).bind fun args _ => blames_pure here
    · apply blames_advance.andThen
      apply inner.expr.bind
      intro e known
      exact (blames_expect _).andThen (blames_pure known)
    · apply blames_advance.andThen
      exact (blames_parenthesized inner.expr).bind fun args _ => blames_pure here
    · exact blames_unexpected _

theorem succ : ExpressionsBlame places (fuel + 1) where
  expr := inner.exprRule_succ
  assignment := inner.assignmentRule_succ
  binary := inner.binaryRule_succ
  operator := inner.operatorRule_succ
  unary := inner.unaryRule_succ
  suffixed := inner.suffixedRule_succ
  suffix := inner.suffixRule_succ
  primary := inner.primaryRule_succ

end ExpressionsBlame

theorem blames_expression : OnlyBlames places expression := by
  have all : ∀ fuel, ExpressionsBlame places fuel := by
    intro fuel
    induction fuel with
    | zero => exact .zero
    | succ fuel ih => exact ih.succ
  exact (all ruleFuel).expr.onlyBlames

theorem blames_initializer : OnlyBlames places initializer := by
  refine (blames_eat _).bind fun found _ => ?_
  cases found with
  | true => exact blames_expression.ends
  | false => exact blames_pure trivial

theorem blames_unlessNext (close : Kind) : OnlyBlames places (unlessNext close) := by
  refine (blames_isNext close).bind fun found _ => ?_
  cases found with
  | true => exact blames_pure trivial
  | false => exact blames_expression.ends

theorem blames_condition : OnlyBlames places condition := by
  apply (blames_expect _).andThen
  apply blames_expression.bind
  intro e _
  exact (blames_expect _).ends

theorem blames_semicolon : OnlyBlames places semicolon :=
  (blames_expect _).ends

theorem blames_localVariable (span : Span) : OnlyBlames places (localVariable span) := by
  refine blames_modifiers.bind fun words _ => blames_typeRef.bind fun type _ => ?_
  refine blames_expectName.bind fun name _ => blames_initializer.bind fun init _ => ?_
  exact blames_semicolon.ends

theorem blames_simpleStatement : OnlyBlames places simpleStatement := by
  have otherwise : OnlyBlames places (do let e ← expression; semicolon; return Stmt.eval e) :=
    blames_expression.bind fun e _ => blames_semicolon.ends
  refine blames_get.bind fun s _ => blames_peek?.bind fun t? _ => ?_
  cases startsDeclaration s.rest with
  | false => exact otherwise
  | true =>
    cases t? with
    | none => exact otherwise
    | some first => exact (blames_localVariable first.span).ends

theorem blames_forInit : OnlyBlames places forInit := by
  refine (blames_eat _).bind fun empty _ => ?_
  cases empty with
  | true => exact blames_pure trivial
  | false => exact blames_simpleStatement.ends

structure StatementsBlame (places : Span → Prop) (fuel : Nat) : Prop where
  statement : OnlyBlames places (statementRule fuel)
  bareStatement : OnlyBlames places (bareStatementRule fuel)
  block : OnlyBlames places (blockRule fuel)

namespace StatementsBlame

theorem zero : StatementsBlame places 0 where
  statement := blames_tooDeep
  bareStatement := blames_tooDeep
  block := blames_tooDeep

variable {fuel : Nat} (inner : StatementsBlame places fuel)
include inner

theorem statementRule_succ : OnlyBlames places (statementRule (fuel + 1)) := by
  unfold statementRule
  apply blames_descend.andThen
  apply inner.bareStatement.bind
  intro s _
  exact blames_ascend.ends

theorem blockRule_succ : OnlyBlames places (blockRule (fuel + 1)) := by
  unfold blockRule
  apply (blames_expect _).bind
  intro brace _
  exact (blames_untilBrace inner.statement).ends

theorem bareStatementRule_succ : OnlyBlames places (bareStatementRule (fuel + 1)) := by
  unfold bareStatementRule
  apply blames_peek?.bind
  intro t? _
  cases t? with
  | none => exact blames_simpleStatement
  | some first =>
    dsimp only
    split
    · exact inner.block.ends
    · refine blames_advance.andThen (blames_condition.bind fun test _ => ?_)
      refine inner.statement.bind fun onTrue _ => (blames_eat _).bind fun found _ => ?_
      cases found with
      | true => exact inner.statement.ends
      | false => exact blames_pure trivial
    · refine blames_advance.andThen (blames_condition.bind fun test _ => ?_)
      exact inner.statement.ends
    · refine blames_advance.andThen (inner.statement.bind fun body _ => ?_)
      refine (blames_expect _).andThen (blames_condition.bind fun test _ => ?_)
      exact blames_semicolon.ends
    · refine blames_advance.andThen ((blames_expect _).andThen ?_)
      refine blames_forInit.bind fun init _ => (blames_unlessNext _).bind fun test _ => ?_
      refine blames_semicolon.andThen ((blames_unlessNext _).bind fun step _ => ?_)
      refine (blames_expect _).andThen (inner.statement.ends)
    · refine blames_advance.andThen ((blames_unlessNext _).bind fun value _ => ?_)
      exact blames_semicolon.ends
    · exact blames_advance.andThen (blames_semicolon.ends)
    · exact blames_advance.andThen (blames_semicolon.ends)
    · exact blames_simpleStatement

theorem succ : StatementsBlame places (fuel + 1) where
  statement := inner.statementRule_succ
  bareStatement := inner.bareStatementRule_succ
  block := inner.blockRule_succ

end StatementsBlame

theorem blames_block : OnlyBlames places block := by
  have all : ∀ fuel, StatementsBlame places fuel := by
    intro fuel
    induction fuel with
    | zero => exact .zero
    | succ fuel ih => exact ih.succ
  exact (all ruleFuel).block

theorem blames_dottedNames (bound : Nat) (found : Array String) :
    OnlyBlames places (dottedNames bound found) := by
  induction bound generalizing found with
  | zero => exact blames_pure trivial
  | succ bound ih =>
    refine (blames_eat _).bind fun more _ => ?_
    cases more with
    | true => exact blames_expectName.bind fun name _ => ih _
    | false => exact blames_pure trivial

theorem blames_importDecl : OnlyBlames places importDecl := by
  refine (blames_expect _).bind fun word _ => blames_expectName.bind fun first _ => ?_
  refine blames_get.bind fun s _ => (blames_dottedNames _ _).bind fun path _ => ?_
  exact blames_semicolon.ends

theorem blames_param : OnlyBlames places param :=
  blames_typeRef.bind fun _ _ => blames_expectName.ends

theorem blames_member (words : List Modifier) (span : Span) :
    OnlyBlames places (member words span) := by
  refine blames_typeRef.bind fun type _ => blames_expectName.bind fun name _ => ?_
  refine (blames_isNext _).bind fun called _ => ?_
  cases called with
  | true =>
    apply (blames_parenthesized blames_param).bind
    intro params _
    exact blames_block.ends
  | false =>
    apply blames_initializer.bind
    intro init _
    exact blames_semicolon.ends

theorem blames_classMember : OnlyBlames places classMember := by
  apply blames_peek?.bind
  intro t? _
  cases t? with
  | none => exact blames_unexpected _
  | some first => exact blames_modifiers.bind fun words _ => blames_member words first.span

theorem blames_baseName : OnlyBlames places baseName := by
  refine (blames_eat _).bind fun found _ => ?_
  cases found with
  | true => exact blames_expectName.ends
  | false => exact blames_pure trivial

theorem blames_classDecl (words : List Modifier) (word : ClassWord) (span : Span) :
    OnlyBlames places (classDecl words word span) := by
  refine blames_expectName.bind fun name _ => blames_baseName.bind fun base _ => ?_
  refine (blames_expect _).andThen ?_
  exact (blames_untilBrace blames_classMember).ends

theorem blames_declaration : OnlyBlames places declaration := by
  apply blames_peek?.bind
  intro t? _
  cases t? with
  | none => exact blames_unexpected _
  | some first =>
    refine blames_modifiers.bind fun words _ => blames_peekKind?.bind fun kind? _ => ?_
    cases kind? with
    | none => exact blames_unexpected _
    | some kind =>
      dsimp only
      cases classWord? kind with
      | some word =>
        apply blames_advance.andThen
        exact (blames_classDecl words word first.span).ends
      | none =>
        dsimp only
        split
        · apply (blames_member words first.span).bind
          intro m _
          cases m <;> exact blames_pure trivial
        · exact blames_unexpected _

theorem blames_fileRule (bound : Nat) (imports : Array Import) (items : Array Declaration) :
    OnlyBlames places (fileRule bound imports items) := by
  induction bound generalizing imports items with
  | zero => exact blames_unexpected _
  | succ bound ih =>
    apply blames_peekKind?.bind
    intro kind? _
    cases kind? with
    | none => exact blames_pure trivial
    | some kind =>
      dsimp only
      split
      · exact blames_importDecl.bind fun i _ => ih _ _
      · exact blames_declaration.bind fun item _ => ih _ _

theorem endSpan_at {tokens : List Token} (known : ∀ t ∈ tokens, places t.span)
    (some : tokens ≠ []) : places (endSpan tokens) := by
  unfold endSpan
  rw [List.getLast?_eq_some_getLast some]
  exact known _ (List.getLast_mem some)

theorem blame_of_parse {tokens : List Token} {e : Error} (known : ∀ t ∈ tokens, places t.span)
    (some : tokens ≠ []) (failed : parse tokens = .error e) : places e.span := by
  have blames : OnlyBlames places (fileRule (tokens.length + 1) #[] #[]) := blames_fileRule _ _ _
  have blames := blames ⟨tokens, 0⟩ known
  unfold Yields at blames
  unfold parse at failed
  simp only [StateT.run] at failed
  split at failed
  · next failure run =>
    rw [run] at blames
    cases failed
    cases blamed : failure.span with
    | none => exact endSpan_at known some
    | some span => exact blames span blamed
  · cases failed

end

end CherryLang.Syntax
