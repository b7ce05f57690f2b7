import CherryLang.Proofs.Soundness.Parts

/-! Two runs of a rule on token lists that are the same up to the end of the stream. Whatever stands
behind that end, and whether it is marked at all, the runs fail alike or give one result and go on
alike. No rule steps over a token that it has not seen; and every turn of a loop takes a token, so
that no loop depends on its bound, which counts the tokens behind the end as well. -/
namespace CherryLang.Syntax

/-- The same tokens are ahead, up to the end of the stream. -/
structure State.SameAhead (s s' : State) : Prop where
  rest : beforeEnd s.rest = beforeEnd s'.rest
  depth : s.depth = s'.depth

/-- Both runs failed alike, or gave one result and left the same tokens ahead. -/
inductive Same {α : Type} : Except Failure (α × State) → Except Failure (α × State) → Prop
  | error {e : Failure} : Same (.error e) (.error e)
  | ok {a : α} {s s' : State} : s.SameAhead s' → Same (.ok (a, s)) (.ok (a, s'))

/-- The rule does not see behind the end of the stream. -/
def Blind {α : Type} (rule : Rule α) : Prop :=
  ∀ s s' : State, s.SameAhead s' → Same (rule s) (rule s')

def BlindAhead {α : Type} (rule : Rule α) : Prop :=
  ∀ s s' : State, s.SameAhead s' → ahead? s.rest ≠ none → Same (rule s) (rule s')

/-- The rule takes a token at least. -/
def Shrinks {α : Type} (rule : Rule α) : Prop :=
  ∀ s a s', rule s = .ok (a, s') → (beforeEnd s'.rest).length < (beforeEnd s.rest).length

theorem ahead?_eq (rest : List Token) : ahead? rest = (beforeEnd rest).head? := by
  obtain ⟨none, nothing⟩ | ⟨t, rest', rfl, live, some⟩ := ahead?_cases rest
  · rw [none, nothing, List.head?_nil]
  · rw [some, beforeEnd_cons live, List.head?_cons]

theorem beforeEnd_tail {rest : List Token} (live : ahead? rest ≠ none) :
    beforeEnd rest.tail = (beforeEnd rest).tail := by
  obtain ⟨none, -⟩ | ⟨t, rest', rfl, live, -⟩ := ahead?_cases rest
  · exact absurd none live
  · rw [beforeEnd_cons live, List.tail_cons, List.tail_cons]

theorem length_beforeEnd_le (rest : List Token) : (beforeEnd rest).length ≤ rest.length :=
  (List.takeWhile_sublist _).length_le

section

variable {α β : Type} {s s' : State}

theorem State.SameAhead.ahead (same : s.SameAhead s') : ahead? s.rest = ahead? s'.rest := by
  rw [ahead?_eq, ahead?_eq, same.rest]

theorem Same.bind {rule rule' : Rule α} {next next' : α → Rule β} (first : Same (rule s) (rule' s'))
    (further : ∀ a t t', rule s = .ok (a, t) → t.SameAhead t' → Same (next a t) (next' a t')) :
    Same ((rule >>= next) s) ((rule' >>= next') s') := by
  simp only [Bind.bind, StateT.bind, Except.bind]
  cases run : rule s with
  | error e =>
    rw [run] at first
    cases run' : rule' s' with
    | error e' =>
      rw [run'] at first
      cases first
      exact .error
    | ok result =>
      rw [run'] at first
      cases first
  | ok result =>
    rw [run] at first
    cases run' : rule' s' with
    | error e' =>
      rw [run'] at first
      cases first
    | ok result' =>
      rw [run'] at first
      cases first with
      | ok same => exact further _ _ _ run same

variable {rule : Rule α} {next : α → Rule β}

theorem Blind.bind (first : Blind rule) (further : ∀ a, Blind (next a)) : Blind (rule >>= next) :=
  fun s s' same => (first s s' same).bind fun a t t' _ later => further a t t' later

theorem Blind.andThen {next : Rule β} (first : Blind rule) (further : Blind next) :
    Blind (rule >>= fun _ => next) :=
  first.bind fun _ => further

theorem Blind.follows (blind : Blind rule) : BlindAhead rule := fun s s' same _ => blind s s' same

theorem blind_pure (a : α) : Blind (pure a : Rule α) := fun _ _ same => .ok same

theorem Blind.ends {f : α → β} (blind : Blind rule) : Blind (do return f (← rule)) :=
  blind.bind fun a => blind_pure (f a)

theorem blind_throw (e : Failure) : Blind (throw e : Rule α) := fun _ _ _ => .error

theorem blind_modify {change : State → State}
    (kept : ∀ s s' : State, s.SameAhead s' → (change s).SameAhead (change s')) :
    Blind (modify change) :=
  fun s s' same => .ok (kept s s' same)

theorem Same.get {next next' : State → Rule β} (go : Same (next s s) (next' s' s')) :
    Same ((get >>= next) s) ((get >>= next') s') := go

theorem peek?_blind : Blind peek? := by
  intro s s' same
  change Same (.ok (ahead? s.rest, s)) (.ok (ahead? s'.rest, s'))
  rw [same.ahead]
  exact .ok same

theorem peekKind?_blind : Blind peekKind? := peek?_blind.ends

theorem blind_failHere (kind : ErrorKind) : Blind (failHere kind : Rule α) :=
  peek?_blind.bind fun _ => blind_throw _

theorem blind_unexpected (what : Expectation) : Blind (unexpected what : Rule α) :=
  peek?_blind.bind fun _ => blind_failHere _

theorem blind_tooDeep : Blind (tooDeep : Rule α) := blind_failHere _

theorem same_peek? {next next' : Option Token → Rule β} (same : s.SameAhead s')
    (ended : ahead? s.rest = none → Same (next none s) (next' none s'))
    (ahead : ∀ t, ahead? s.rest = some t → Same (next (some t) s) (next' (some t) s')) :
    Same ((peek? >>= next) s) ((peek? >>= next') s') := by
  change Same (next (ahead? s.rest) s) (next' (ahead? s'.rest) s')
  rw [← same.ahead]
  cases found : ahead? s.rest with
  | none => exact ended found
  | some t => exact ahead t found

theorem same_peekKind? {next next' : Option Kind → Rule β} (same : s.SameAhead s')
    (ended : ahead? s.rest = none → Same (next none s) (next' none s'))
    (ahead : ∀ t, ahead? s.rest = some t → Same (next (some t.kind) s) (next' (some t.kind) s')) :
    Same ((peekKind? >>= next) s) ((peekKind? >>= next') s') := by
  have unfolded (next : Option Kind → Rule β) :
      (peekKind? >>= next) = peek? >>= fun t? => next (t?.map (·.kind)) := by
    simp [peekKind?]
  rw [unfolded, unfolded]
  exact same_peek? same ended ahead

theorem blind_peek? {next : Option Token → Rule β} (ended : Blind (next none))
    (ahead : ∀ t, BlindAhead (next (some t))) : Blind (peek? >>= next) := by
  intro s s' same
  refine same_peek? same (fun _ => ended s s' same) fun t found => ?_
  exact ahead t s s' same (by simp [found])

theorem blind_peekKind? {next : Option Kind → Rule β} (ended : Blind (next none))
    (ahead : ∀ kind, BlindAhead (next (some kind))) : Blind (peekKind? >>= next) := by
  intro s s' same
  refine same_peekKind? same (fun _ => ended s s' same) fun t found => ?_
  exact ahead t.kind s s' same (by simp [found])

theorem blind_advance {next : Rule β} (further : Blind next) :
    BlindAhead (advance >>= fun _ => next) := by
  intro s s' same live
  have live' : ahead? s'.rest ≠ none := same.ahead ▸ live
  refine further ⟨s.rest.tail, s.depth⟩ ⟨s'.rest.tail, s'.depth⟩ ⟨?_, same.depth⟩
  rw [beforeEnd_tail live, beforeEnd_tail live', same.rest]

theorem blind_isNext (kind : Kind) : Blind (isNext kind) := peekKind?_blind.ends

theorem blind_take (accepts : Kind → Bool) (what : Expectation) : Blind (take accepts what) := by
  refine blind_peek? (blind_unexpected what) fun t => ?_
  dsimp only
  split
  · exact blind_advance (blind_pure t)
  · exact (blind_unexpected what).follows

theorem blind_expect (kind : Kind) : Blind (expect kind) := blind_take _ _

theorem blind_expectName : Blind expectName := blind_take _ _

theorem blind_eat (kind : Kind) : Blind (eat kind) := by
  have unfolded : eat kind = peekKind? >>= fun kind? =>
      if kind? == some kind then advance >>= fun _ => pure true else pure false := by
    simp [eat, isNext]
  rw [unfolded]
  refine blind_peekKind? (blind_pure false) fun found => ?_
  split
  · exact blind_advance (blind_pure true)
  · exact (blind_pure false).follows

theorem blind_descend : Blind descend := by
  intro s s' same
  apply Same.get
  rw [same.depth]
  split
  · exact .ok ⟨same.rest, congrArg (· + 1) same.depth⟩
  · exact blind_tooDeep s s' same

theorem BlindAhead.descend {next : Rule β} (further : BlindAhead next) :
    BlindAhead (descend >>= fun _ => next) := by
  intro s s' same live
  refine (blind_descend s s' same).bind fun a t t' entered later => further t t' later ?_
  have kept : Yields Syntax.descend s (fun _ => True) fun _ t => t.rest = s.rest := by
    rw [yields_descend]
    split <;> trivial
  rwa [kept.of_run entered]

theorem blind_ascend : Blind ascend :=
  blind_modify fun _ _ same => ⟨same.rest, congrArg (· - 1) same.depth⟩

theorem Blind.keepingDepth (blind : Blind rule) : Blind (keepingDepth rule) := by
  intro s s' same
  apply Same.get
  refine (blind s s' same).bind fun a t t' _ later => ?_
  exact .ok ⟨later.rest, same.depth⟩

theorem Returns.shrinks {given : Nat → α → List Token → Prop} (returns : Returns rule given)
    (some : ∀ depth a ts, given depth a ts → ts ≠ []) : Shrinks rule := by
  intro s a s' run
  obtain ⟨ts, taken, -, accepted⟩ := (returns s.rest s.depth).of_run run
  have taken : beforeEnd s.rest = ts ++ beforeEnd s'.rest := taken
  have nonempty := List.length_pos_iff.mpr (some _ _ _ accepted)
  rw [taken, List.length_append]
  omega

theorem same_untilClose (blind : Blind rule) (shrinks : Shrinks rule) (close : Kind)
    {bound bound' : Nat} (found : Array α) (same : s.SameAhead s')
    (enough : (beforeEnd s.rest).length < bound) (enough' : (beforeEnd s.rest).length < bound') :
    Same (untilClose close rule bound found s) (untilClose close rule bound' found s') := by
  induction bound generalizing bound' found s s' with
  | zero => omega
  | succ bound ih =>
    obtain ⟨bound', rfl⟩ : ∃ n, bound' = n + 1 := ⟨bound' - 1, by omega⟩
    unfold untilClose
    refine same_peekKind? same (fun _ => blind_unexpected _ s s' same) fun t ahead => ?_
    dsimp only
    split
    · exact blind_advance (blind_pure _) s s' same (by simp [ahead])
    · refine (blind s s' same).bind fun a t t' run later => ?_
      have fewer := shrinks _ _ _ run
      exact ih (found.push a) later (by omega) (by omega)

theorem blind_untilBrace (blind : Blind rule) (shrinks : Shrinks rule) :
    Blind (untilBrace rule) := by
  intro s s' same
  have enough := length_beforeEnd_le s.rest
  have enough' := length_beforeEnd_le s'.rest
  rw [← same.rest] at enough'
  apply Same.get
  exact same_untilClose blind shrinks _ #[] same (by omega) (by omega)

theorem shrinks_take (accepts : Kind → Bool) (what : Expectation) :
    Shrinks (take accepts what) := by
  intro s t s' run
  have fewer : Yields (take accepts what) s (fun _ => True) fun _ s' =>
      (beforeEnd s'.rest).length < (beforeEnd s.rest).length := by
    rw [yields_take]
    obtain ⟨none, -⟩ | ⟨t, rest, split, live, some⟩ := ahead?_cases s.rest
    · simp only [none]
    · simp only [some]
      split
      · simp [split, beforeEnd_cons live]
      · trivial
  exact fewer.of_run run

theorem length_eat {kind : Kind} {found : Bool} {t : State} (run : eat kind s = .ok (found, t)) :
    (beforeEnd t.rest).length + found.toNat ≤ (beforeEnd s.rest).length := by
  have fewer : Yields (eat kind) s (fun _ => True) fun found t =>
      (beforeEnd t.rest).length + found.toNat ≤ (beforeEnd s.rest).length := by
    rw [yields_eat]
    obtain ⟨none, -⟩ | ⟨t, rest, split, live, some⟩ := ahead?_cases s.rest
    · simp [none]
    · split
      · simp [split, beforeEnd_cons live]
      · exact Nat.le_refl _
  exact fewer.of_run run

theorem same_commaList (blind : Blind rule) (shrinks : Shrinks rule) {bound bound' : Nat}
    (found : Array α) (same : s.SameAhead s') (enough : (beforeEnd s.rest).length < bound)
    (enough' : (beforeEnd s.rest).length < bound') :
    Same (commaList rule bound found s) (commaList rule bound' found s') := by
  induction bound generalizing bound' found s s' with
  | zero => omega
  | succ bound ih =>
    obtain ⟨bound', rfl⟩ : ∃ n, bound' = n + 1 := ⟨bound' - 1, by omega⟩
    unfold commaList
    refine (blind s s' same).bind fun a t t' run later => ?_
    have fewer := shrinks _ _ _ run
    refine (blind_eat _ t t' later).bind fun more u u' eaten last => ?_
    have left := length_eat eaten
    cases more with
    | true => exact ih (found.push a) last (by omega) (by omega)
    | false => exact (blind_expect _).ends u u' last

theorem blind_parenthesized (blind : Blind rule) (shrinks : Shrinks rule) :
    Blind (parenthesized rule) := by
  refine (blind_expect _).andThen ((blind_eat _).bind fun empty => ?_)
  cases empty with
  | true => exact blind_pure []
  | false =>
    intro s s' same
    have enough := length_beforeEnd_le s.rest
    have enough' := length_beforeEnd_le s'.rest
    rw [← same.rest] at enough'
    apply Same.get
    exact same_commaList blind shrinks #[] same (by omega) (by omega)

end

theorem modifier?_live {t : Token} (word : (modifier? t).isSome) : t.kind ≠ .endOfStream := by
  intro ended
  simp [modifier?, ended] at word

theorem modifiers_beforeEnd (rest : List Token) :
    (beforeEnd rest).takeWhile (fun t => (modifier? t).isSome) =
        rest.takeWhile (fun t => (modifier? t).isSome) ∧
      beforeEnd (rest.dropWhile fun t => (modifier? t).isSome) =
        (beforeEnd rest).dropWhile fun t => (modifier? t).isSome := by
  induction rest with
  | nil => exact ⟨rfl, rfl⟩
  | cons t rest ih =>
    by_cases word : (modifier? t).isSome = true
    · rw [beforeEnd_cons (modifier?_live word)]
      simpa [word] using ih
    · by_cases ended : t.kind = .endOfStream
      · simp [beforeEnd, ended, word]
      · simp [beforeEnd_cons ended, word]

theorem blind_modifiers : Blind modifiers := by
  intro s s' same
  obtain ⟨taken, left⟩ := modifiers_beforeEnd s.rest
  obtain ⟨taken', left'⟩ := modifiers_beforeEnd s'.rest
  apply Same.get
  rw [← taken, ← taken', same.rest]
  refine Same.ok ⟨?_, same.depth⟩
  rw [left, left', same.rest]

theorem bracketPairs_beforeEnd (count : Nat) : ∀ rest : List Token,
    (bracketPairs count (beforeEnd rest)).1 = (bracketPairs count rest).1 ∧
      (bracketPairs count (beforeEnd rest)).2 = beforeEnd (bracketPairs count rest).2
  | [] => ⟨rfl, rfl⟩
  | [t] => by by_cases ended : t.kind = .endOfStream <;> simp [beforeEnd, ended, bracketPairs]
  | left :: right :: rest => by
    by_cases ended : left.kind = .endOfStream
    · simp [beforeEnd, ended, bracketPairs]
    · by_cases last : right.kind = .endOfStream
      · simp [beforeEnd, ended, last, bracketPairs]
      · rw [beforeEnd_cons ended, beforeEnd_cons last, bracketPairs, bracketPairs]
        split
        · exact bracketPairs_beforeEnd (count + 1) rest
        · exact ⟨rfl, by rw [beforeEnd_cons ended, beforeEnd_cons last]⟩

theorem blind_typeRef : Blind typeRef := by
  refine blind_peek? (blind_unexpected _) fun first => ?_
  dsimp only
  cases typeName? first with
  | none => exact (blind_unexpected _).follows
  | some name =>
    apply blind_advance
    intro s s' same
    obtain ⟨counted, left⟩ := bracketPairs_beforeEnd 0 s.rest
    obtain ⟨counted', left'⟩ := bracketPairs_beforeEnd 0 s'.rest
    apply Same.get
    have depth : (bracketPairs 0 s.rest).1 = (bracketPairs 0 s'.rest).1 := by
      rw [← counted, ← counted', same.rest]
    rw [depth]
    refine Same.ok ⟨?_, same.depth⟩
    rw [← left, ← left', same.rest]

end CherryLang.Syntax
