import CherryLang.Proofs.Syntax.Height
import CherryLang.Proofs.Syntax.Spells
import CherryLang.Proofs.Syntax.Takes

namespace CherryLang.Syntax

/-- From every state, what the rule returns stands in relation `good` to the depth of the start and
to the tokens taken, and the depth is as it was. -/
def Returns {α : Type} (rule : Rule α) (good : Nat → α → List Token → Prop) : Prop :=
  ∀ rest depth, Takes rule ⟨rest, depth⟩ fun a ts s' => s'.depth = depth ∧ good depth a ts

structure Bounded {α : Type} (spells : α → List Token → Prop) (height : α → Nat) (bound : Nat)
    (a : α) (ts : List Token) : Prop where
  spelled : spells a ts
  low : height a ≤ bound

section

variable {α β : Type} {rule : Rule α} {next : α → Rule β} {given : Nat → α → List Token → Prop}
  {rest : List Token} {depth : Nat} {good : β → List Token → State → Prop}

theorem Returns.imp {given' : Nat → α → List Token → Prop} (returns : Returns rule given)
    (weaker : ∀ depth a ts, given depth a ts → given' depth a ts) : Returns rule given' :=
  fun rest depth => (returns rest depth).imp fun a ts _ ⟨kept, accepted⟩ =>
    ⟨kept, weaker depth a ts accepted⟩

theorem Returns.bind (returns : Returns rule given)
    (second : ∀ a ts rest', given depth a ts →
      Takes (next a) ⟨rest', depth⟩ fun b us s' => good b (ts ++ us) s') :
    Takes (rule >>= next) ⟨rest, depth⟩ good := by
  refine (returns rest depth).bind ?_
  rintro a ts ⟨rest', depth'⟩ ⟨rfl, accepted⟩
  exact second a ts rest' accepted

/-- The rule is the last one, and `f` makes the result of what it returns. -/
theorem Returns.last {f : α → β} (returns : Returns rule given)
    (done : ∀ a ts s', s'.depth = depth → given depth a ts → good (f a) ts s') :
    Takes (do return f (← rule)) ⟨rest, depth⟩ good := by
  refine (returns rest depth).bind ?_
  rintro a ts s' ⟨kept, accepted⟩
  apply takes_pure
  rw [List.append_nil]
  exact done a ts s' kept accepted

theorem returns_tooDeep {good : Nat → β → List Token → Prop} : Returns tooDeep good :=
  fun _ _ => takes_tooDeep

end

theorem Takes.placed {α : Type} {rule : Rule α} {place : α → Span} {height : α → Nat}
    {forms : α → List Token → Prop} {t : Token} {rest : List Token} {depth bound : Nat}
    (live : t.kind ≠ .endOfStream) (any : ∀ {a ts}, forms a ts → ts ≠ [])
    (takes : Takes rule ⟨t :: rest, depth⟩ fun a ts s' =>
      s'.depth = depth ∧ height a ≤ bound ∧ place a = t.span ∧ forms a ts) :
    Takes rule ⟨t :: rest, depth⟩ fun a ts s' =>
      s'.depth = depth ∧ Bounded (Placed place forms) height bound a ts := by
  refine takes.split.imp ?_
  rintro a ts s' ⟨⟨kept, low, place, form⟩, taken⟩
  refine ⟨kept, ⟨?_, form⟩, low⟩
  cases ts with
  | nil => exact absurd rfl (any form)
  | cons u us =>
    rw [beforeEnd_cons live, List.cons_append, List.cons.injEq] at taken
    rw [place, taken.1]
    exact .head u

theorem WritesModifiers.of_takeWhile (rest : List Token) :
    WritesModifiers ((rest.takeWhile fun t => (modifier? t).isSome).filterMap modifier?)
      (rest.takeWhile fun t => (modifier? t).isSome) := by
  induction rest with
  | nil => exact .nil
  | cons t rest ih =>
    cases found : modifier? t with
    | none => simpa [found] using WritesModifiers.nil
    | some word =>
      have kind : t.kind = .modifier word := by
        unfold modifier? at found
        split at found <;> simp_all
      simpa [found] using WritesModifiers.cons kind ih

theorem WritesModifiers.live {words : List Modifier} {ts : List Token}
    (written : WritesModifiers words ts) : ∀ t ∈ ts, t.kind ≠ .endOfStream := by
  induction written with
  | nil => simp
  | cons kind _ ih => simpa [kind] using ih

theorem returns_modifiers : Returns modifiers fun _ => WritesModifiers := by
  intro rest depth
  have written := WritesModifiers.of_takeWhile rest
  apply takes_get
  refine yields_bind.mpr (yields_modify.mpr ⟨_, ?_, rfl, written⟩)
  rw [← beforeEnd_append written.live, List.takeWhile_append_dropWhile]

theorem Brackets.of_bracketPairs (count : Nat) : ∀ rest : List Token,
    ∃ n ts, Brackets n ts ∧ (bracketPairs count rest).1 = count + n ∧
      rest = ts ++ (bracketPairs count rest).2
  | [] | [_] => ⟨0, [], .none, rfl, rfl⟩
  | left :: right :: rest => by
    rw [bracketPairs]
    split
    · next pair =>
      obtain ⟨n, ts, brackets, counted, split⟩ := Brackets.of_bracketPairs (count + 1) rest
      refine ⟨n + 1, left :: right :: ts, .pair pair.1 pair.2 brackets, by omega, ?_⟩
      rw [List.cons_append, List.cons_append, ← split]
    · exact ⟨0, [], .none, rfl, rfl⟩

theorem Brackets.live {n : Nat} {ts : List Token} (brackets : Brackets n ts) :
    ∀ t ∈ ts, t.kind ≠ .endOfStream := by
  induction brackets with
  | none => simp
  | pair opens closes _ ih => simpa [opens, closes] using ih

theorem WritesTypeName.of_typeName? {t : Token} {name : TypeName}
    (named : typeName? t = some name) : WritesTypeName name t := by
  unfold typeName? at named
  split at named <;> cases named
  · assumption
  · assumption
  · next kind => exact ⟨by rw [kind]; rfl, rfl⟩
  · next kind => exact ⟨by rw [kind]; rfl, rfl⟩

theorem returns_typeRef : Returns typeRef fun _ => SpellsType := by
  intro rest depth
  refine takes_peek? (fun _ => takes_unexpected _) ?_
  rintro first rest rfl live
  simp only
  split
  · exact takes_unexpected _
  · next name named =>
    apply takes_advance live
    apply takes_get
    obtain ⟨n, ts, brackets, counted, split⟩ := Brackets.of_bracketPairs 0 rest
    refine yields_bind.mpr (yields_modify.mpr ⟨ts, ?_, rfl, .head first, ?_⟩)
    · rw [← beforeEnd_append brackets.live, ← split]
    · rw [Nat.zero_add] at counted
      exact .mk (.of_typeName? named) (counted ▸ brackets)

section

variable {α : Type} {rule : Rule α} {given : Nat → α → List Token → Prop}

theorem takes_untilClose (returns : Returns rule given) (close : Kind) (bound : Nat)
    (found : Array α) (rest : List Token) (depth : Nat) :
    Takes (untilClose close rule bound found) ⟨rest, depth⟩ fun xs ts s' =>
      s'.depth = depth ∧ ∃ ys us right, xs = found.toList ++ ys ∧ ts = us ++ [right] ∧
        Series (given depth) ys us ∧ right.kind = close := by
  induction bound generalizing found rest with
  | zero =>
    apply takes_expect
    intro right rest kind
    refine takes_pure ⟨rfl, [], [], right, ?_⟩
    exact ⟨by simp, rfl, .nil, kind⟩
  | succ bound ih =>
    refine takes_peekKind? (fun _ => takes_unexpected _) ?_
    rintro t rest rfl live
    simp only
    split
    · next kind =>
      apply takes_advance live
      refine takes_pure ⟨rfl, [], [], t, ?_⟩
      exact ⟨by simp, rfl, .nil, kind⟩
    · apply returns.bind
      intro a ts rest first
      refine (ih (found.push a) rest).imp ?_
      rintro xs _ s' ⟨kept, ys, us, right, rfl, rfl, others, kind⟩
      exact ⟨kept, a :: ys, ts ++ us, right, by simp, by simp, .cons first others, kind⟩

theorem returns_untilBrace (returns : Returns rule given) :
    Returns (untilBrace rule) fun depth xs ts =>
      ∃ us right, ts = us ++ [right] ∧ Series (given depth) xs us ∧
        right.kind = .symbol .rightBrace := by
  intro rest depth
  apply takes_get
  refine (takes_untilClose returns _ _ #[] rest depth).imp ?_
  rintro xs ts s' ⟨kept, ys, us, right, rfl, rfl, series, closes⟩
  exact ⟨kept, us, right, rfl, by simpa using series, closes⟩

theorem takes_commaList (returns : Returns rule given) (bound : Nat) (found : Array α)
    (rest : List Token) (depth : Nat) (enough : (beforeEnd rest).length < bound) :
    Takes (commaList rule bound found) ⟨rest, depth⟩ fun xs ts s' =>
      s'.depth = depth ∧ ∃ ys, xs = found.toList ++ ys ∧ CommaSeries (given depth) ys ts := by
  induction bound generalizing found rest with
  | zero => omega
  | succ bound ih =>
    refine (returns rest depth).split.bind ?_
    rintro a ts ⟨rest', _⟩ ⟨⟨rfl, first⟩, taken⟩
    refine takes_eat ?_ ?_
    · rintro comma rest' rfl kind
      have shorter : (beforeEnd rest').length < bound := by
        rw [taken, beforeEnd_cons (by simp [kind])] at enough
        simp at enough
        omega
      refine (ih (found.push a) rest' shorter).imp ?_
      rintro xs us s' ⟨kept, ys, rfl, others⟩
      exact ⟨kept, a :: ys, by simp, .more first kind others⟩
    · apply takes_expect
      intro right rest kind
      refine takes_pure ⟨rfl, [a], by simp, ?_⟩
      exact .last first kind

theorem returns_parenthesized (returns : Returns rule given) :
    Returns (parenthesized rule) fun depth => Parenthesized (given depth) := by
  intro rest depth
  apply takes_expect
  intro left rest opens
  refine takes_eat ?_ ?_
  · rintro right rest rfl closes
    exact takes_pure ⟨rfl, .empty opens closes⟩
  · have enough : (beforeEnd rest).length < rest.length + 1 :=
      Nat.lt_succ_of_le (List.takeWhile_sublist _).length_le
    apply takes_get
    refine (takes_commaList returns _ #[] rest depth enough).imp ?_
    rintro xs us s' ⟨kept, ys, rfl, inside⟩
    exact ⟨kept, .filled opens (by simpa using inside)⟩

end

section

variable {α : Type} {spells : α → List Token → Prop} {height : α → Nat} {bound : Nat}
  {xs : List α} {ts : List Token}

theorem Series.bounded (series : Series (Bounded spells height bound) xs ts) :
    Bounded (Series spells) (highest height) bound xs ts := by
  induction series with
  | nil => exact ⟨.nil, Nat.zero_le _⟩
  | cons first _ ih => exact ⟨.cons first.spelled ih.spelled, Nat.max_le.mpr ⟨first.low, ih.low⟩⟩

theorem CommaSeries.bounded (series : CommaSeries (Bounded spells height bound) xs ts) :
    Bounded (CommaSeries spells) (highest height) bound xs ts := by
  induction series with
  | last only closes =>
    exact ⟨.last only.spelled closes, Nat.max_le.mpr ⟨only.low, Nat.zero_le _⟩⟩
  | more first goesOn _ ih =>
    exact ⟨.more first.spelled goesOn ih.spelled, Nat.max_le.mpr ⟨first.low, ih.low⟩⟩

theorem Parenthesized.bounded (list : Parenthesized (Bounded spells height bound) xs ts) :
    Bounded (Parenthesized spells) (highest height) bound xs ts := by
  cases list with
  | empty opens closes => exact ⟨.empty opens closes, Nat.zero_le _⟩
  | filled opens inside => exact ⟨.filled opens inside.bounded.spelled, inside.bounded.low⟩

end

end CherryLang.Syntax
