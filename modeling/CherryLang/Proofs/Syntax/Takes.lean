import CherryLang.Proofs.Syntax.Yields

/-! What a rule takes from the tokens ahead. The building blocks of the grammar rules are followed
one after the other, and the tokens that each of them takes add up. Failures do not matter. -/
namespace CherryLang.Syntax

/-- The tokens before the first end of the stream, all of them if there is none. -/
def beforeEnd (tokens : List Token) : List Token :=
  tokens.takeWhile fun t => t.kind ≠ .endOfStream

/-- If the rule gives a result from `s`, then `good` accepts it together with the tokens taken. -/
def Takes {α : Type} (rule : Rule α) (s : State) (good : α → List Token → State → Prop) : Prop :=
  Yields rule s (fun _ => True) fun a s' =>
    ∃ ts, beforeEnd s.rest = ts ++ beforeEnd s'.rest ∧ good a ts s'

theorem beforeEnd_append {ts : List Token} (live : ∀ t ∈ ts, t.kind ≠ .endOfStream)
    (rest : List Token) : beforeEnd (ts ++ rest) = ts ++ beforeEnd rest :=
  List.takeWhile_append_of_pos (by simpa using live)

theorem beforeEnd_cons {t : Token} {rest : List Token} (live : t.kind ≠ .endOfStream) :
    beforeEnd (t :: rest) = t :: beforeEnd rest := by
  simp [beforeEnd, live]

theorem ahead?_cases (rest : List Token) :
    (ahead? rest = none ∧ beforeEnd rest = []) ∨
      ∃ t rest', rest = t :: rest' ∧ t.kind ≠ .endOfStream ∧ ahead? rest = some t := by
  cases rest with
  | nil => exact .inl ⟨rfl, rfl⟩
  | cons t rest =>
    by_cases ended : t.kind = .endOfStream
    · exact .inl (by simp [ahead?, beforeEnd, ended])
    · exact .inr ⟨t, rest, rfl, ended, ahead?_cons ended⟩

section

variable {α β : Type} {rule : Rule α} {next : α → Rule β} {s : State} {rest : List Token}
  {depth : Nat} {good : β → List Token → State → Prop}

theorem Takes.of_run {good : α → List Token → State → Prop} {a : α} {s' : State}
    (takes : Takes rule s good) (run : rule s = .ok (a, s')) :
    ∃ ts, beforeEnd s.rest = ts ++ beforeEnd s'.rest ∧ good a ts s' :=
  Yields.of_run takes run

theorem Takes.imp {good good' : α → List Token → State → Prop} (takes : Takes rule s good)
    (weaker : ∀ a ts s', good a ts s' → good' a ts s') : Takes rule s good' := by
  refine Yields.imp takes (fun _ => id) ?_
  rintro a s' ⟨ts, taken, accepted⟩
  exact ⟨ts, taken, weaker a ts s' accepted⟩

theorem Takes.bind {mid : α → List Token → State → Prop} (first : Takes rule s mid)
    (second : ∀ a ts s', mid a ts s' → Takes (next a) s' fun b us s'' => good b (ts ++ us) s'') :
    Takes (rule >>= next) s good := by
  refine yields_bind.mpr (Yields.imp first (fun _ => id) ?_)
  rintro a s' ⟨ts, taken, accepted⟩
  refine Yields.imp (second a ts s' accepted) (fun _ => id) ?_
  rintro b s'' ⟨us, taken', accepted'⟩
  exact ⟨ts ++ us, by rw [taken, taken', List.append_assoc], accepted'⟩

theorem Takes.split {good : α → List Token → State → Prop} (takes : Takes rule s good) :
    Takes rule s fun a ts s' => good a ts s' ∧ beforeEnd s.rest = ts ++ beforeEnd s'.rest := by
  refine Yields.imp takes (fun _ => id) ?_
  rintro a s' ⟨ts, taken, accepted⟩
  exact ⟨ts, taken, accepted, taken⟩

theorem Takes.and {good : α → List Token → State → Prop} {also : α → Prop}
    (takes : Takes rule s good) (more : Yields rule s (fun _ => True) fun a _ => also a) :
    Takes rule s fun a ts s' => good a ts s' ∧ also a := by
  unfold Takes Yields at *
  cases run : rule s with
  | error failure => trivial
  | ok result =>
    rw [run] at takes more
    obtain ⟨ts, taken, accepted⟩ := takes
    exact ⟨ts, taken, accepted, more⟩

theorem takes_pure {b : β} (accepted : good b [] s) : Takes (pure b) s good :=
  ⟨[], rfl, accepted⟩

theorem takes_throw (failure : Failure) : Takes (throw failure) s good := trivial

theorem takes_unexpected (what : Expectation) : Takes (unexpected what) s good :=
  yields_unexpected.mpr trivial

theorem takes_tooDeep : Takes tooDeep s good := yields_tooDeep.mpr trivial

theorem takes_get {next : State → Rule β} (go : Takes (next s) s good) :
    Takes (get >>= next) s good :=
  yields_bind.mpr (yields_get.mpr go)

theorem takes_peek? {next : Option Token → Rule β}
    (ended : beforeEnd rest = [] → Takes (next none) ⟨rest, depth⟩ good)
    (ahead : ∀ t rest', rest = t :: rest' → t.kind ≠ .endOfStream →
      Takes (next (some t)) ⟨rest, depth⟩ good) :
    Takes (peek? >>= next) ⟨rest, depth⟩ good := by
  refine yields_bind.mpr (yields_peek?.mpr ?_)
  obtain ⟨none, nothing⟩ | ⟨t, rest', split, live, some⟩ := ahead?_cases rest
  · rw [none]
    exact ended nothing
  · rw [some]
    exact ahead t rest' split live

theorem takes_peekKind? {next : Option Kind → Rule β}
    (ended : beforeEnd rest = [] → Takes (next none) ⟨rest, depth⟩ good)
    (ahead : ∀ t rest', rest = t :: rest' → t.kind ≠ .endOfStream →
      Takes (next (some t.kind)) ⟨rest, depth⟩ good) :
    Takes (peekKind? >>= next) ⟨rest, depth⟩ good := by
  have unfolded : (peekKind? >>= next) = peek? >>= fun t? => next (t?.map (·.kind)) := by
    simp [peekKind?]
  rw [unfolded]
  exact takes_peek? ended ahead

theorem Takes.cons {rule : Rule β} {t : Token} (live : t.kind ≠ .endOfStream)
    (go : Takes rule ⟨rest, depth⟩ fun b us s' => good b (t :: us) s') :
    Yields rule ⟨rest, depth⟩ (fun _ => True) fun b s' =>
      ∃ ts, beforeEnd (t :: rest) = ts ++ beforeEnd s'.rest ∧ good b ts s' := by
  refine Yields.imp go (fun _ => id) ?_
  rintro b s' ⟨us, taken, accepted⟩
  exact ⟨t :: us, by rw [beforeEnd_cons live, taken, List.cons_append], accepted⟩

theorem takes_advance {t : Token} {next : Unit → Rule β} (live : t.kind ≠ .endOfStream)
    (go : Takes (next ()) ⟨rest, depth⟩ fun b us s' => good b (t :: us) s') :
    Takes (advance >>= next) ⟨t :: rest, depth⟩ good :=
  yields_bind.mpr (yields_advance.mpr (go.cons live))

theorem takes_take {accepts : Kind → Bool} {what : Expectation} {next : Token → Rule β}
    (go : ∀ t rest', accepts t.kind →
      Takes (next t) ⟨rest', depth⟩ fun b us s' => good b (t :: us) s') :
    Takes (take accepts what >>= next) ⟨rest, depth⟩ good := by
  refine yields_bind.mpr (yields_take.mpr ?_)
  obtain ⟨none, _⟩ | ⟨t, rest', rfl, live, some⟩ := ahead?_cases rest
  · simp only [none]
  · simp only [some]
    split
    · next accepted => exact (go t rest' accepted).cons live
    · trivial

theorem takes_expect {kind : Kind} {next : Token → Rule β}
    (go : ∀ t rest', t.kind = kind →
      Takes (next t) ⟨rest', depth⟩ fun b us s' => good b (t :: us) s') :
    Takes (expect kind >>= next) ⟨rest, depth⟩ good :=
  takes_take fun t rest' accepted => go t rest' (eq_of_beq accepted)

theorem takes_expectName {next : Token → Rule β}
    (go : ∀ t rest', t.kind.isName = true →
      Takes (next t) ⟨rest', depth⟩ fun b us s' => good b (t :: us) s') :
    Takes (expectName >>= next) ⟨rest, depth⟩ good :=
  takes_take go

theorem takes_isNext {kind : Kind} {yes no : Rule β} (onYes : Takes yes ⟨rest, depth⟩ good)
    (onNo : Takes no ⟨rest, depth⟩ good) :
    Takes (do if ← isNext kind then yes else no) ⟨rest, depth⟩ good := by
  refine yields_bind.mpr (yields_isNext.mpr ?_)
  split
  · exact onYes
  · exact onNo

theorem takes_eat {kind : Kind} {yes no : Rule β}
    (onYes : ∀ t rest', rest = t :: rest' → t.kind = kind →
      Takes yes ⟨rest', depth⟩ fun b us s' => good b (t :: us) s')
    (onNo : Takes no ⟨rest, depth⟩ good) :
    Takes (do if ← eat kind then yes else no) ⟨rest, depth⟩ good := by
  refine yields_bind.mpr (yields_eat.mpr ?_)
  split
  · next found =>
    obtain ⟨none, _⟩ | ⟨t, rest', rfl, live, some⟩ := ahead?_cases rest
    · simp [none] at found
    · have same : t.kind = kind := by simpa [some] using found
      exact (onYes t rest' rfl same).cons live
  · exact onNo

theorem takes_descend {next : Unit → Rule β}
    (go : depth < nestingLimit → Takes (next ()) ⟨rest, depth + 1⟩ good) :
    Takes (descend >>= next) ⟨rest, depth⟩ good := by
  refine yields_bind.mpr (yields_descend.mpr ?_)
  split
  · next free => exact go free
  · trivial

theorem takes_ascend {next : Unit → Rule β} (go : Takes (next ()) ⟨rest, depth - 1⟩ good) :
    Takes (ascend >>= next) ⟨rest, depth⟩ good :=
  yields_bind.mpr (yields_ascend.mpr go)

theorem takes_keepingDepth {rule : Rule β}
    (go : Takes rule ⟨rest, depth⟩ fun b ts s' => good b ts ⟨s'.rest, depth⟩) :
    Takes (keepingDepth rule) ⟨rest, depth⟩ good :=
  yields_keepingDepth.mpr go

end

end CherryLang.Syntax
