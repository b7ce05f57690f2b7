import CherryLang.Proofs.Syntax.Respan
import CherryLang.Proofs.Syntax.Writing
import CherryLang.Proofs.Syntax.Yields

/-! The small rules read what is written for them: types, modifiers, and lists of elements once the
rule for one element reads every element. What `view` shows of an element is what counts. -/
namespace CherryLang.Syntax

/-- The only failure: nesting beyond the limit, where there is an excuse for it. -/
def TooDeep (excuse : Prop) (failure : Failure) : Prop :=
  failure.kind = .nestingTooDeep ∧ excuse

theorem TooDeep.imp {excuse excuse' : Prop} (weaker : excuse → excuse') (failure : Failure)
    (deep : TooDeep excuse failure) : TooDeep excuse' failure :=
  ⟨deep.1, weaker deep.2⟩

/-- The element read shows the same as `x`, and `k` is left at the depth of the start. -/
def Gives {α γ : Type} (view : α → γ) (x : α) (k : List Token) (depth : Nat) (x' : α)
    (s : State) : Prop :=
  view x' = view x ∧ s = ⟨k, depth⟩

/-- From every state at `depth` the rule reads what `writes` writes in up to `n` tokens, if what
follows is as `follow` says. The nesting is too deep only where there are enough tokens for it. -/
def Reads {α γ : Type} (rule : Rule α) (writes : α → List Token → Prop) (view : α → γ)
    (follow : α → List Token → Prop) (depth n : Nat) : Prop :=
  ∀ {x ts k}, writes x ts → ts.length ≤ n → follow x k →
    Yields rule ⟨ts ++ k, depth⟩ (TooDeep (nestingLimit < depth + ts.length))
      (Gives view x k depth)

section

variable {k : List Token} {depth : Nat} {fails : Failure → Prop}

theorem typeName?_of_writes {name : TypeName} {t : Token} (written : WritesTypeName name t) :
    typeName? t = some name := by
  cases name with
  | primitive type => simp [typeName?, show t.kind = .primitive type from written]
  | inferred => simp [typeName?, show t.kind = .keyword .kwVar from written]
  | named name =>
    obtain ⟨kind, rfl⟩ := written
    simp only [Kind.isName, Bool.or_eq_true, beq_iff_eq] at kind
    obtain kind | kind := kind <;> simp [typeName?, kind]

theorem live_of_typeName? {t : Token} {name : TypeName} (named : typeName? t = some name) :
    t.kind ≠ .endOfStream := by
  intro ended
  simp [typeName?, ended] at named

theorem bracketPairs_append {n : Nat} {ts : List Token} (written : Brackets n ts)
    (other : ∀ t ∈ k.head?, t.kind ≠ .symbol .leftBracket) (count : Nat) :
    bracketPairs count (ts ++ k) = (count + n, k) := by
  induction written generalizing count with
  | none =>
    match k with
    | [] => rfl
    | [t] => rfl
    | t :: u :: rest =>
      have noPair : ¬ (t.kind = .symbol .leftBracket ∧ u.kind = .symbol .rightBracket) :=
        fun pair => other t rfl pair.1
      simp only [List.nil_append, bracketPairs, if_neg noPair, Nat.add_zero]
  | @pair n ts left right opens closes rest ih =>
    simp only [List.cons_append, bracketPairs, opens, closes, and_self, if_true, ih]
    congr 1
    omega

theorem yields_typeRef {type : TypeRef} {ts : List Token} {good : TypeRef → State → Prop}
    (written : WritesType type ts) (other : ∀ t ∈ k.head?, t.kind ≠ .symbol .leftBracket)
    (go : ∀ span, good { type with span := span } ⟨k, depth⟩) :
    Yields typeRef ⟨ts ++ k, depth⟩ fails good := by
  cases written with
  | @mk ts t name brackets =>
    have named := typeName?_of_writes name
    simp only [typeRef, yields_bind, yields_peek?, List.cons_append,
      ahead?_cons (live_of_typeName? named), named, yields_advance, List.tail_cons, yields_get,
      bracketPairs_append brackets other, Nat.zero_add, yields_modify, yields_pure]
    exact go t.span

theorem yields_modifiers {words : List Modifier} {ms : List Token}
    {good : List Modifier → State → Prop} (written : WritesModifiers words ms)
    (other : ∀ t ∈ k.head?, modifier? t = none) :
    Yields modifiers ⟨ms ++ k, depth⟩ fails good ↔ good words ⟨k, depth⟩ := by
  have none : k.takeWhile (fun t => (modifier? t).isSome) = [] ∧
      k.dropWhile (fun t => (modifier? t).isSome) = k := by
    cases k with
    | nil => exact ⟨rfl, rfl⟩
    | cons t rest => simp [other t rfl]
  have split : ((ms ++ k).takeWhile fun t => (modifier? t).isSome).filterMap modifier? = words ∧
      (ms ++ k).dropWhile (fun t => (modifier? t).isSome) = k := by
    induction written with
    | nil => simp [none.1, none.2]
    | @cons word words ts t kind rest ih =>
      have is : modifier? t = some word := by simp [modifier?, kind]
      simp [is, ih.1, ih.2]
  simp only [modifiers, yields_bind, yields_get, yields_modify, yields_pure, split.1, split.2]

end

section

variable {α γ : Type} {rule : Rule α} {writes : α → List Token → Prop} {view : α → γ}
  {follow : α → List Token → Prop} {depth n : Nat} {k : List Token}

theorem reads_commaList (reads : Reads rule writes view follow depth n)
    (followed : ∀ x t rest, t.kind = .symbol .comma ∨ t.kind = .symbol .rightParen →
      follow x (t :: rest))
    {xs : List α} {us : List Token} (written : CommaSeries writes xs us) (short : us.length ≤ n)
    {bound : Nat} (enough : us.length ≤ bound) (found : Array α) :
    Yields (commaList rule bound found) ⟨us ++ k, depth⟩
      (TooDeep (nestingLimit < depth + us.length)) fun xs' s =>
        xs'.map view = found.toList.map view ++ xs.map view ∧ s = ⟨k, depth⟩ := by
  induction written generalizing bound found with
  | @last x ts right only closes =>
    cases bound with
    | zero => simp at enough
    | succ bound =>
      simp only [List.length_append, List.length_singleton] at short enough ⊢
      simp only [commaList, yields_bind, List.append_assoc, List.singleton_append]
      refine (reads only (by omega) (followed x right k (.inr closes))).imp
        (TooDeep.imp fun deep => by omega) ?_
      rintro x' s ⟨same, rfl⟩
      simp [yields_eat, ahead?, closes, yields_expect_cons closes, same]
  | @more x xs ts us comma first goesOn rest ih =>
    cases bound with
    | zero => simp at enough
    | succ bound =>
      simp only [List.length_append, List.length_cons] at short enough ⊢
      simp only [commaList, yields_bind, List.append_assoc, List.cons_append]
      refine (reads first (by omega) (followed x comma (us ++ k) (.inl goesOn))).imp
        (TooDeep.imp fun deep => by omega) ?_
      rintro x' s ⟨same, rfl⟩
      rw [yields_eat_cons goesOn (by simp)]
      apply (ih (by omega) (by omega) (found.push x')).imp (TooDeep.imp fun deep => by omega)
      rintro xs' s ⟨sames, rfl⟩
      simp [sames, same]

theorem reads_parenthesized (reads : Reads rule writes view follow depth n)
    (followed : ∀ x t rest, t.kind = .symbol .comma ∨ t.kind = .symbol .rightParen →
      follow x (t :: rest))
    (starts : ∀ x ts, writes x ts → ∃ t us, ts = t :: us ∧ t.kind ≠ .symbol .rightParen)
    {xs : List α} {us : List Token} (written : Parenthesized writes xs us)
    (short : us.length ≤ n + 1) :
    Yields (parenthesized rule) ⟨us ++ k, depth⟩ (TooDeep (nestingLimit < depth + us.length))
      fun xs' s => xs'.map view = xs.map view ∧ s = ⟨k, depth⟩ := by
  cases written with
  | @empty left right opens closes =>
    simp [parenthesized, yields_expect_cons opens, yields_eat_cons closes]
  | @filled _ ts left opens inside =>
    -- the first element starts with another token than the parenthesis that ends an empty list
    have first : ∃ t us, ts = t :: us ∧ t.kind ≠ .symbol .rightParen := by
      cases inside with
      | last only closes =>
        obtain ⟨t, us, rfl, other⟩ := starts _ _ only
        exact ⟨t, _, rfl, other⟩
      | more first goesOn rest =>
        obtain ⟨t, us, rfl, other⟩ := starts _ _ first
        exact ⟨t, _, rfl, other⟩
    obtain ⟨t, us, rfl, other⟩ := first
    have notClosed : ¬ (ahead? (t :: (us ++ k))).map (·.kind) = some (.symbol .rightParen) := by
      simp only [ahead?]
      split <;> simp [other]
    simp only [List.length_cons] at short
    simp only [parenthesized, yields_bind, List.cons_append, yields_expect_cons opens,
      ne_eq, reduceCtorEq, not_false_eq_true, yields_eat]
    rw [if_neg notClosed]
    simp only [if_false, yields_bind, yields_get]
    refine (reads_commaList reads followed inside (by simpa using short)
      (by simp only [List.length_cons, List.length_append]; omega) #[]).imp
        (TooDeep.imp fun deep => ?_) ?_
    · simp only [List.length_cons] at deep ⊢
      omega
    · rintro xs' s ⟨same, rfl⟩
      simpa using same

theorem reads_untilClose (reads : Reads rule writes view follow depth n)
    (closing : ∀ x t rest, t.kind = .symbol .rightBrace → follow x (t :: rest))
    (next : ∀ x y ts rest, writes y ts → follow x (ts ++ rest))
    (starts : ∀ x ts, writes x ts → ∃ t us, ts = t :: us ∧ t.kind ≠ .symbol .rightBrace ∧
      t.kind ≠ .endOfStream)
    {xs : List α} {ts : List Token} (written : Series writes xs ts) (short : ts.length ≤ n)
    {right : Token} (closes : right.kind = .symbol .rightBrace)
    {bound : Nat} (enough : ts.length < bound) (found : Array α) :
    Yields (untilClose (.symbol .rightBrace) rule bound found) ⟨ts ++ right :: k, depth⟩
      (TooDeep (nestingLimit < depth + ts.length)) fun xs' s =>
        xs'.map view = found.toList.map view ++ xs.map view ∧ s = ⟨k, depth⟩ := by
  induction written generalizing bound found with
  | nil =>
    obtain ⟨bound, rfl⟩ : ∃ b, bound = b + 1 := ⟨bound - 1, by omega⟩
    simp [untilClose, ahead?, closes]
  | @cons x xs ts us first rest ih =>
    obtain ⟨bound, rfl⟩ : ∃ b, bound = b + 1 := ⟨bound - 1, by omega⟩
    obtain ⟨t, ts', split, other, live⟩ := starts x ts first
    have tail : follow x (us ++ right :: k) := by
      cases rest with
      | nil => exact closing x right k closes
      | @cons y ys vs ws second others =>
        rw [List.append_assoc]
        exact next x y vs _ second
    simp only [List.length_append] at short enough ⊢
    have front : (ahead? (ts ++ (us ++ right :: k))).map (·.kind) = some t.kind := by
      simp [split, ahead?_cons live]
    simp only [untilClose, yields_bind, yields_peekKind?, List.append_assoc, front, if_neg other]
    apply (reads first (by omega) tail).imp (TooDeep.imp fun deep => by omega)
    rintro x' s ⟨same, rfl⟩
    have nonempty : 0 < ts.length := by simp [split]
    apply (ih (by omega) (by omega) (found.push x')).imp (TooDeep.imp fun deep => by omega)
    rintro xs' s ⟨sames, rfl⟩
    simp [sames, same]

end

end CherryLang.Syntax
