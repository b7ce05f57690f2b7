import CherryLang.Syntax.Rule

/-! What a rule does from a given state, in the manner of a weakest precondition: one equivalence
for each building block of the grammar rules. -/
namespace CherryLang.Syntax

/-- From `s` the rule gives a result that `good` accepts, or a failure that `fails` accepts. -/
def Yields {α : Type} (rule : Rule α) (s : State) (fails : Failure → Prop)
    (good : α → State → Prop) : Prop :=
  match rule s with
  | .ok (a, s') => good a s'
  | .error failure => fails failure

section

variable {α β : Type} {s : State} {fails : Failure → Prop}

theorem Yields.imp {rule : Rule α} {fails' : Failure → Prop} {good good' : α → State → Prop}
    (yields : Yields rule s fails good) (onFail : ∀ failure, fails failure → fails' failure)
    (onGood : ∀ a s', good a s' → good' a s') : Yields rule s fails' good' := by
  unfold Yields at *
  cases run : rule s with
  | error failure =>
    rw [run] at yields
    exact onFail failure yields
  | ok result =>
    rw [run] at yields
    exact onGood result.1 result.2 yields

theorem Yields.of_run {rule : Rule α} {good : α → State → Prop} {a : α} {s' : State}
    (yields : Yields rule s fails good) (run : rule s = .ok (a, s')) : good a s' := by
  unfold Yields at yields
  rwa [run] at yields

theorem yields_any (rule : Rule α) (s : State) :
    Yields rule s (fun _ => True) fun _ _ => True := by
  unfold Yields
  split <;> trivial

@[simp] theorem yields_pure {a : α} {good : α → State → Prop} :
    Yields (pure a) s fails good ↔ good a s := Iff.rfl

@[simp] theorem yields_bind {rule : Rule α} {next : α → Rule β} {good : β → State → Prop} :
    Yields (rule >>= next) s fails good ↔
      Yields rule s fails fun a s' => Yields (next a) s' fails good := by
  unfold Yields
  simp only [bind, StateT.bind, Except.bind]
  cases rule s <;> rfl

@[simp] theorem yields_map {rule : Rule α} {f : α → β} {good : β → State → Prop} :
    Yields (f <$> rule) s fails good ↔ Yields rule s fails fun a s' => good (f a) s' := by
  unfold Yields
  simp only [Functor.map, StateT.map, bind, Except.bind]
  cases rule s <;> rfl

@[simp] theorem yields_get {good : State → State → Prop} :
    Yields get s fails good ↔ good s s := Iff.rfl

@[simp] theorem yields_modify {change : State → State} {good : PUnit → State → Prop} :
    Yields (modify change) s fails good ↔ good ⟨⟩ (change s) := Iff.rfl

@[simp] theorem yields_throw {failure : Failure} {good : α → State → Prop} :
    Yields (throw failure) s fails good ↔ fails failure := Iff.rfl

@[simp] theorem yields_ite {c : Prop} [Decidable c] {onTrue onFalse : Rule α}
    {good : α → State → Prop} :
    Yields (if c then onTrue else onFalse) s fails good ↔
      if c then Yields onTrue s fails good else Yields onFalse s fails good := by
  split <;> rfl

@[simp] theorem yields_peek? {good : Option Token → State → Prop} :
    Yields peek? s fails good ↔ good (ahead? s.rest) s := by
  simp [peek?]

@[simp] theorem yields_peekKind? {good : Option Kind → State → Prop} :
    Yields peekKind? s fails good ↔ good ((ahead? s.rest).map (·.kind)) s := by
  simp [peekKind?]

@[simp] theorem yields_advance {good : Unit → State → Prop} :
    Yields advance s fails good ↔ good () ⟨s.rest.tail, s.depth⟩ := Iff.rfl

@[simp] theorem yields_unexpected {what : Expectation} {good : α → State → Prop} :
    Yields (unexpected what) s fails good ↔
      fails ⟨.expected what ((ahead? s.rest).map (·.lexeme)), (ahead? s.rest).map (·.span)⟩ := by
  simp [unexpected, failHere]

@[simp] theorem yields_tooDeep {good : α → State → Prop} :
    Yields tooDeep s fails good ↔ fails ⟨.nestingTooDeep, (ahead? s.rest).map (·.span)⟩ := by
  simp [tooDeep, failHere]

@[simp] theorem yields_isNext {kind : Kind} {good : Bool → State → Prop} :
    Yields (isNext kind) s fails good ↔
      good ((ahead? s.rest).map (·.kind) == some kind) s := by
  simp [isNext]

theorem yields_eat {kind : Kind} {good : Bool → State → Prop} :
    Yields (eat kind) s fails good ↔
      if (ahead? s.rest).map (·.kind) = some kind then good true ⟨s.rest.tail, s.depth⟩
      else good false s := by
  simp [eat]

theorem yields_take {accepts : Kind → Bool} {what : Expectation} {good : Token → State → Prop} :
    Yields (take accepts what) s fails good ↔
      match ahead? s.rest with
      | some t =>
        if accepts t.kind then good t ⟨s.rest.tail, s.depth⟩
        else fails ⟨.expected what (some t.lexeme), some t.span⟩
      | none => fails ⟨.expected what none, none⟩ := by
  simp only [take, yields_bind, yields_peek?]
  cases next : ahead? s.rest <;> simp [next]

@[simp] theorem yields_descend {good : Unit → State → Prop} :
    Yields descend s fails good ↔
      if s.depth < nestingLimit then good () ⟨s.rest, s.depth + 1⟩
      else fails ⟨.nestingTooDeep, (ahead? s.rest).map (·.span)⟩ := by
  simp [descend]

@[simp] theorem yields_ascend {good : Unit → State → Prop} :
    Yields ascend s fails good ↔ good () ⟨s.rest, s.depth - 1⟩ := Iff.rfl

@[simp] theorem yields_keepingDepth {rule : Rule α} {good : α → State → Prop} :
    Yields (keepingDepth rule) s fails good ↔
      Yields rule s fails fun a s' => good a ⟨s'.rest, s.depth⟩ := by
  simp [keepingDepth]

end

section

variable {t : Token} {rest : List Token} {depth : Nat} {fails : Failure → Prop}

theorem ahead?_cons (live : t.kind ≠ .endOfStream) : ahead? (t :: rest) = some t := by
  simp [ahead?, live]

theorem yields_expect_cons {kind : Kind} {good : Token → State → Prop} (same : t.kind = kind)
    (live : kind ≠ .endOfStream) :
    Yields (expect kind) ⟨t :: rest, depth⟩ fails good ↔ good t ⟨rest, depth⟩ := by
  simp [expect, yields_take, ahead?_cons (same ▸ live), same]

theorem yields_expectName_cons {good : Token → State → Prop} (named : t.kind.isName = true) :
    Yields expectName ⟨t :: rest, depth⟩ fails good ↔ good t ⟨rest, depth⟩ := by
  have live : t.kind ≠ .endOfStream := by
    intro ended
    simp [ended, Kind.isName] at named
  simp [expectName, yields_take, ahead?_cons live, named]

theorem yields_eat_cons {kind : Kind} {good : Bool → State → Prop} (same : t.kind = kind)
    (live : kind ≠ .endOfStream) :
    Yields (eat kind) ⟨t :: rest, depth⟩ fails good ↔ good true ⟨rest, depth⟩ := by
  simp [yields_eat, ahead?_cons (same ▸ live), same]

end

end CherryLang.Syntax
