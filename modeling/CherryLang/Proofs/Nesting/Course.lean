import CherryLang.Proofs.Horizon.Parts

/-! What happens to the state of a rule on its way. A rule is made of few kinds of steps, and its
course from a state is the list of the states that they set one after the other. The tokens ahead
are seen by every step, the depth only by those that enter and leave levels. A level is entered
below the limit only, and one is left only where there is one: at depth zero `ascend` has no
course. -/
namespace CherryLang.Syntax

/-- A run of a rule from a state: the states that it sets on its way, and how it ends. -/
inductive Course : {α : Type} → Rule α → State → List State → Except Failure (α × State) → Prop
  | pure {α : Type} {a : α} {s : State} : Course (Pure.pure a) s [] (.ok (a, s))
  | throw {α : Type} {e : Failure} {s : State} : Course (throw e : Rule α) s [] (.error e)
  | look {α : Type} {next : List Token → Rule α} {s : State} {path : List State}
      {result : Except Failure (α × State)} (further : Course (next s.rest) s path result) :
      Course (get >>= fun s => next s.rest) s path result
  /-- Tokens are stepped over if none of them ends the stream. -/
  | forward {move : List Token → List Token} {ts rest : List Token} {depth : Nat}
      (live : ∀ t ∈ ts, t.kind ≠ .endOfStream) (moves : move (ts ++ rest) = rest) :
      Course (modify fun s => { s with rest := move s.rest }) ⟨ts ++ rest, depth⟩ [⟨rest, depth⟩]
        (.ok ((), ⟨rest, depth⟩))
  | descend {rest : List Token} {depth : Nat} (free : depth < nestingLimit) :
      Course descend ⟨rest, depth⟩ [⟨rest, depth + 1⟩] (.ok ((), ⟨rest, depth + 1⟩))
  | tooDeep {rest : List Token} {depth : Nat} (full : nestingLimit ≤ depth) :
      Course descend ⟨rest, depth⟩ [] (.error ⟨.nestingTooDeep, (ahead? rest).map (·.span)⟩)
  | ascend {rest : List Token} {depth : Nat} :
      Course ascend ⟨rest, depth + 1⟩ [⟨rest, depth⟩] (.ok ((), ⟨rest, depth⟩))
  /-- The levels that are still open behind the rule are left, and no other. -/
  | leave {α : Type} {rule : Rule α} {s s' : State} {path : List State} {a : α}
      (inner : Course rule s path (.ok (a, s'))) (above : s.depth ≤ s'.depth) :
      Course (keepingDepth rule) s (path ++ [⟨s'.rest, s.depth⟩]) (.ok (a, ⟨s'.rest, s.depth⟩))
  | abandon {α : Type} {rule : Rule α} {s : State} {path : List State} {e : Failure}
      (inner : Course rule s path (.error e)) : Course (keepingDepth rule) s path (.error e)
  | bind {α β : Type} {rule : Rule α} {next : α → Rule β} {s s' : State} {path path' : List State}
      {a : α} {result : Except Failure (β × State)} (first : Course rule s path (.ok (a, s')))
      (further : Course (next a) s' path' result) : Course (rule >>= next) s (path ++ path') result
  | stop {α β : Type} {rule : Rule α} {next : α → Rule β} {s : State} {path : List State}
      {e : Failure} (first : Course rule s path (.error e)) :
      Course (rule >>= next) s path (.error e)

section

variable {α β : Type} {rule : Rule α} {s s' : State} {path : List State}

theorem descend_eq (s : State) :
    descend s = if s.depth < nestingLimit then .ok ((), ⟨s.rest, s.depth + 1⟩)
      else .error ⟨.nestingTooDeep, (ahead? s.rest).map (·.span)⟩ := by
  change (if s.depth < nestingLimit then _ else tooDeep : Rule Unit) s = _
  split <;> rfl

theorem keepingDepth_eq (rule : Rule α) (s : State) :
    keepingDepth rule s = (rule s).map fun (a, s') => (a, ⟨s'.rest, s.depth⟩) := by
  change (rule s).bind (fun result => .ok (result.1, State.mk result.2.rest s.depth)) = _
  cases rule s <;> rfl

theorem Course.eq {result : Except Failure (α × State)} (course : Course rule s path result) :
    rule s = result := by
  induction course with
  | pure | throw | ascend => rfl
  | look _ ih => exact ih
  | @forward move ts rest depth live moves =>
    change Except.ok ((), State.mk (move (ts ++ rest)) depth) = _
    rw [moves]
  | descend free => rw [descend_eq, if_pos free]
  | tooDeep full => rw [descend_eq, if_neg (Nat.not_lt.mpr full)]
  | leave _ _ ih | abandon _ ih =>
    rw [keepingDepth_eq, ih]
    rfl
  | bind _ _ ih ih' => simp only [Bind.bind, StateT.bind, Except.bind, ih, ih']
  | stop _ ih => simp only [Bind.bind, StateT.bind, Except.bind, ih]

theorem Course.last {result : Except Failure (α × State)} (course : Course rule s path result) :
    ∀ a s', result = .ok (a, s') → s' = s ∨ s' ∈ path := by
  induction course with
  | pure =>
    rintro a s' same
    cases same
    exact .inl rfl
  | throw | tooDeep | abandon | stop =>
    rintro a s' same
    cases same
  | look _ ih => exact ih
  | forward | descend | ascend | leave =>
    rintro a s' same
    cases same
    exact .inr (by simp)
  | bind _ _ ih ih' =>
    intro b s'' same
    rcases ih' b s'' same with rfl | later
    · exact (ih _ _ rfl).imp_right (List.mem_append_left _)
    · exact .inr (List.mem_append_right _ later)

/-- From `s` to `s'` tokens are taken, and no end of the stream among them. -/
def State.Onward (s s' : State) : Prop :=
  ∃ ts, (∀ t ∈ ts, t.kind ≠ .endOfStream) ∧ s.rest = ts ++ s'.rest

theorem State.Onward.of_rest (same : s'.rest = s.rest) : s.Onward s' :=
  ⟨[], by simp, by simp [same]⟩

theorem State.Onward.trans {s'' : State} (first : s.Onward s') (second : s'.Onward s'') :
    s.Onward s'' := by
  obtain ⟨ts, live, split⟩ := first
  obtain ⟨us, live', split'⟩ := second
  refine ⟨ts ++ us, fun t member => ?_, by rw [split, split', List.append_assoc]⟩
  exact (List.mem_append.mp member).elim (live t) (live' t)

theorem Course.onward {result : Except Failure (α × State)} (course : Course rule s path result) :
    ∀ p ∈ path, s.Onward p := by
  induction course with
  | pure | throw | tooDeep => simp
  | look _ ih | abandon _ ih | stop _ ih => exact ih
  | @forward move ts rest depth live moves =>
    intro p member
    obtain rfl := List.mem_singleton.mp member
    exact ⟨ts, live, rfl⟩
  | descend | ascend =>
    intro p member
    obtain rfl := List.mem_singleton.mp member
    exact .of_rest rfl
  | @leave _ _ s s' path a inner above ih =>
    intro p member
    rcases List.mem_append.mp member with inside | back
    · exact ih p inside
    · obtain rfl := List.mem_singleton.mp back
      rcases inner.last _ _ rfl with rfl | there
      · exact .of_rest rfl
      · exact (ih s' there).trans (.of_rest rfl)
  | @bind _ _ _ _ s s' path path' a result first further ih ih' =>
    intro p member
    rcases List.mem_append.mp member with early | late
    · exact ih p early
    · rcases first.last _ _ rfl with rfl | there
      · exact ih' p late
      · exact (ih s' there).trans (ih' p late)

/-- A course does not tell where zero is: begun a level deeper, the rule ends a level deeper, or it
fails. -/
theorem Course.deeper {result : Except Failure (α × State)} (course : Course rule s path result) :
    ∀ a s', result = .ok (a, s') → ∀ t, rule ⟨s.rest, s.depth + 1⟩ = .ok t →
      t = (a, ⟨s'.rest, s'.depth + 1⟩) := by
  induction course with
  | pure =>
    rintro a s' same t run
    cases same
    exact (Except.ok.inj run).symm
  | throw | tooDeep | abandon | stop =>
    rintro a s' same
    cases same
  | look _ ih => exact ih
  | @forward move ts rest depth live moves =>
    rintro a s' same t run
    cases same
    change Except.ok ((), State.mk (move (ts ++ rest)) (depth + 1)) = _ at run
    rw [moves] at run
    exact (Except.ok.inj run).symm
  | descend free =>
    rintro a s' same t run
    cases same
    rw [descend_eq] at run
    split at run
    · exact (Except.ok.inj run).symm
    · cases run
  | ascend =>
    rintro a s' same t run
    cases same
    exact (Except.ok.inj run).symm
  | @leave _ rule s s' path a inner above ih =>
    rintro a' s'' same t run
    cases same
    rw [keepingDepth_eq] at run
    cases ended : rule ⟨s.rest, s.depth + 1⟩ with
    | error e =>
      rw [ended] at run
      cases run
    | ok u =>
      obtain rfl := ih a s' rfl u ended
      rw [ended] at run
      exact (Except.ok.inj run).symm
  | @bind _ _ rule next s s' path path' a result first further ih ih' =>
    intro b s'' same t run
    simp only [Bind.bind, StateT.bind, Except.bind] at run
    cases ended : rule ⟨s.rest, s.depth + 1⟩ with
    | error e =>
      rw [ended] at run
      cases run
    | ok u =>
      obtain rfl := ih a s' rfl u ended
      rw [ended] at run
      exact ih' b s'' same t run

theorem not_course_ascend {rest : List Token} {result : Except Failure (Unit × State)} :
    ¬ Course ascend ⟨rest, 0⟩ path result := by
  intro course
  -- The run stays at zero, and so does the one from a level deeper, which would have to end there.
  obtain rfl : .ok ((), ⟨rest, 0⟩) = result := course.eq
  have deeper := course.deeper () ⟨rest, 0⟩ rfl ((), ⟨rest, 0⟩) rfl
  simp at deeper

structure State.Between (floor : Nat) (s : State) : Prop where
  low : floor ≤ s.depth
  high : s.depth ≤ nestingLimit

/-- The rule has a course from `s` on which at least `floor` levels stay open. -/
def Runs (floor : Nat) (rule : Rule α) (s : State) : Prop :=
  ∃ path, Course rule s path (rule s) ∧ ∀ p ∈ path, p.Between floor

/-- On its way the rule never leaves a level that it has not entered. -/
def Steady (rule : Rule α) : Prop := ∀ floor s, s.Between floor → Runs floor rule s

/-- The same for a rule that follows a token ahead. -/
def SteadyAhead (rule : Rule α) : Prop :=
  ∀ floor s, s.Between floor → ahead? s.rest ≠ none → Runs floor rule s

variable {floor : Nat}

theorem Course.runs {result : Except Failure (α × State)} (course : Course rule s path result)
    (between : ∀ p ∈ path, p.Between floor) : Runs floor rule s :=
  ⟨path, course.eq ▸ course, between⟩

theorem Runs.between {a : α} (runs : Runs floor rule s) (here : s.Between floor)
    (ended : rule s = .ok (a, s')) : s'.Between floor := by
  obtain ⟨path, course, between⟩ := runs
  rcases course.last a s' ended with rfl | there
  · exact here
  · exact between s' there

theorem Runs.onward {a : α} (runs : Runs floor rule s) (ended : rule s = .ok (a, s')) :
    s.Onward s' := by
  obtain ⟨path, course, -⟩ := runs
  rcases course.last a s' ended with rfl | there
  · exact .of_rest rfl
  · exact course.onward s' there

theorem Runs.bind {next : α → Rule β} (first : Runs floor rule s)
    (further : ∀ a s', rule s = .ok (a, s') → Runs floor (next a) s') :
    Runs floor (rule >>= next) s := by
  obtain ⟨path, course, between⟩ := first
  cases ended : rule s with
  | error e =>
    rw [ended] at course
    exact course.stop.runs between
  | ok result =>
    obtain ⟨a, s'⟩ := result
    rw [ended] at course
    obtain ⟨path', course', between'⟩ := further a s' ended
    refine (course.bind course').runs fun p member => ?_
    exact (List.mem_append.mp member).elim (between p) (between' p)

theorem Runs.mono {floor' : Nat} (runs : Runs floor' rule s) (lower : floor ≤ floor') :
    Runs floor rule s := by
  obtain ⟨path, course, between⟩ := runs
  exact ⟨path, course, fun p member =>
    ⟨Nat.le_trans lower (between p member).low, (between p member).high⟩⟩

/-- What follows may look at the tokens ahead, but not at the depth. -/
theorem runs_look {next : State → Rule α} (blind : ∀ s, next s = next ⟨s.rest, 0⟩)
    (further : Runs floor (next s) s) : Runs floor (get >>= next) s := by
  obtain ⟨path, course, between⟩ := further
  obtain ⟨look, rfl⟩ : ∃ look : List Token → Rule α, next = fun s => look s.rest :=
    ⟨fun rest => next ⟨rest, 0⟩, funext blind⟩
  exact course.look.runs between

theorem runs_descend {next : Unit → Rule α} (here : s.Between floor)
    (further : s.depth < nestingLimit → Runs floor (next ()) ⟨s.rest, s.depth + 1⟩) :
    Runs floor (descend >>= next) s := by
  have entered : Runs floor descend s := by
    by_cases free : s.depth < nestingLimit
    · refine (Course.descend free).runs fun p member => ?_
      obtain rfl := List.mem_singleton.mp member
      exact ⟨Nat.le_succ_of_le here.low, free⟩
    · exact (Course.tooDeep (Nat.not_lt.mp free)).runs (by simp)
  refine entered.bind fun a s' ended => ?_
  rw [descend_eq] at ended
  split at ended
  · next free =>
    cases ended
    exact further free
  · cases ended

theorem runs_advance {next : Unit → Rule α} (here : s.Between floor) (live : ahead? s.rest ≠ none)
    (further : Runs floor (next ()) ⟨s.rest.tail, s.depth⟩) :
    Runs floor (advance >>= next) s := by
  obtain ⟨rest, depth⟩ := s
  obtain ⟨none, -⟩ | ⟨t, rest, rfl, live, -⟩ := ahead?_cases rest
  · exact absurd none live
  · have moved : Runs floor advance ⟨t :: rest, depth⟩ := by
      refine Course.runs (@Course.forward List.tail [t] rest depth (by simpa using live) rfl)
        fun p member => ?_
      obtain rfl := List.mem_singleton.mp member
      exact ⟨here.low, here.high⟩
    refine moved.bind fun a s' ended => ?_
    cases ended
    exact further

theorem Steady.leaving (steady : Steady rule) {f : α → β} (above : s.Between (floor + 1)) :
    Runs floor (do let a ← rule; ascend; return f a) s := by
  have inner := steady (floor + 1) s above
  refine (inner.mono (Nat.le_succ _)).bind fun a s' ended => ?_
  obtain ⟨low, high⟩ := inner.between above ended
  obtain ⟨rest, depth⟩ := s'
  obtain ⟨depth, rfl⟩ : ∃ n, depth = n + 1 := ⟨depth - 1, by simp only at low; omega⟩
  refine Course.runs (Course.ascend.bind Course.pure) fun p member => ?_
  obtain rfl : p = ⟨rest, depth⟩ := by simpa using member
  exact ⟨Nat.le_of_succ_le_succ low, Nat.le_of_succ_le high⟩

variable {next : α → Rule β}

theorem Steady.bind (first : Steady rule) (further : ∀ a, Steady (next a)) :
    Steady (rule >>= next) := by
  intro floor s here
  have runs := first floor s here
  exact runs.bind fun a s' ended => further a floor s' (runs.between here ended)

theorem Steady.andThen {next : Rule β} (first : Steady rule) (further : Steady next) :
    Steady (rule >>= fun _ => next) :=
  first.bind fun _ => further

theorem Steady.follows (steady : Steady rule) : SteadyAhead rule :=
  fun floor s here _ => steady floor s here

theorem steady_pure (a : α) : Steady (pure a : Rule α) := fun _ _ _ => Course.pure.runs (by simp)

theorem Steady.ends {f : α → β} (steady : Steady rule) : Steady (do return f (← rule)) :=
  steady.bind fun a => steady_pure (f a)

theorem steady_throw (e : Failure) : Steady (throw e : Rule α) :=
  fun _ _ _ => Course.throw.runs (by simp)

theorem steady_look {next : State → Rule α} (blind : ∀ s, next s = next ⟨s.rest, 0⟩)
    (further : ∀ s, Steady (next s)) : Steady (get >>= next) :=
  fun floor s here => runs_look blind (further s floor s here)

theorem steady_forward (move : List Token → List Token) (f : List Token → α)
    (drops : ∀ rest, ∃ ts, (∀ t ∈ ts, t.kind ≠ .endOfStream) ∧ rest = ts ++ move rest) :
    Steady (do
      let s ← get
      modify fun s' => { s' with rest := move s.rest }
      return f s.rest) := by
  rintro floor ⟨rest, depth⟩ here
  obtain ⟨ts, live, split⟩ := drops rest
  refine runs_look (fun _ => rfl) ?_
  have moved : Course (modify fun s => { s with rest := move rest }) ⟨rest, depth⟩
      [⟨move rest, depth⟩] (.ok ((), ⟨move rest, depth⟩)) := by
    -- What `move` does elsewhere is of no interest: here it gives what is left.
    generalize move rest = rest' at split
    subst split
    exact @Course.forward (fun _ => rest') ts rest' depth live rfl
  refine Course.runs (moved.bind Course.pure) fun p member => ?_
  obtain rfl := List.mem_singleton.mp member
  exact ⟨here.low, here.high⟩

theorem Steady.keepingDepth (steady : Steady rule) : Steady (keepingDepth rule) := by
  intro floor s here
  -- With the depth of now for the floor, what has been entered inside is behind it at the end.
  have inside : s.Between s.depth := ⟨Nat.le_refl _, here.high⟩
  have runs := steady s.depth s inside
  obtain ⟨path, course, between⟩ := runs.mono here.low
  cases ended : rule s with
  | error e =>
    rw [ended] at course
    exact course.abandon.runs between
  | ok result =>
    obtain ⟨a, s'⟩ := result
    rw [ended] at course
    refine (course.leave (runs.between inside ended).low).runs fun p member => ?_
    rcases List.mem_append.mp member with early | back
    · exact between p early
    · obtain rfl := List.mem_singleton.mp back
      exact ⟨here.low, here.high⟩

theorem steady_peek?_pure : Steady peek? :=
  steady_look (fun _ => rfl) fun s => steady_pure (ahead? s.rest)

theorem steady_peek? {next : Option Token → Rule β} (ended : Steady (next none))
    (ahead : ∀ t, SteadyAhead (next (some t))) : Steady (peek? >>= next) := by
  intro floor s here
  refine (steady_peek?_pure floor s here).bind fun t? s' looked => ?_
  obtain ⟨rfl, rfl⟩ : ahead? s.rest = t? ∧ s = s' := by
    change Except.ok (ahead? s.rest, s) = _ at looked
    simpa using looked
  cases found : ahead? s.rest with
  | none => exact ended floor s here
  | some t => exact ahead t floor s here (by simp [found])

theorem steady_peekKind? {next : Option Kind → Rule β} (ended : Steady (next none))
    (ahead : ∀ kind, SteadyAhead (next (some kind))) : Steady (peekKind? >>= next) := by
  have unfolded : (peekKind? >>= next) = peek? >>= fun t? => next (t?.map (·.kind)) := by
    simp [peekKind?]
  rw [unfolded]
  exact steady_peek? ended fun t => ahead t.kind

theorem steady_failHere (kind : ErrorKind) : Steady (failHere kind : Rule α) :=
  steady_peek?_pure.bind fun _ => steady_throw _

theorem steady_unexpected (what : Expectation) : Steady (unexpected what : Rule α) :=
  steady_peek?_pure.bind fun _ => steady_failHere _

theorem steady_tooDeep : Steady (tooDeep : Rule α) := steady_failHere _

theorem steady_advance {next : Rule β} (further : Steady next) :
    SteadyAhead (advance >>= fun _ => next) :=
  fun floor _ here live => runs_advance here live (further floor _ ⟨here.low, here.high⟩)

theorem steady_isNext (kind : Kind) : Steady (isNext kind) := by
  have looks : Steady peekKind? := steady_peek?_pure.ends
  exact looks.ends

theorem steady_take (accepts : Kind → Bool) (what : Expectation) : Steady (take accepts what) := by
  refine steady_peek? (steady_unexpected what) fun t => ?_
  dsimp only
  split
  · exact steady_advance (steady_pure t)
  · exact (steady_unexpected what).follows

theorem steady_expect (kind : Kind) : Steady (expect kind) := steady_take _ _

theorem steady_expectName : Steady expectName := steady_take _ _

theorem steady_eat (kind : Kind) : Steady (eat kind) := by
  have unfolded : eat kind = peekKind? >>= fun kind? =>
      if kind? == some kind then advance >>= fun _ => pure true else pure false := by
    simp [eat, isNext]
  rw [unfolded]
  refine steady_peekKind? (steady_pure false) fun found => ?_
  split
  · exact steady_advance (steady_pure true)
  · exact (steady_pure false).follows

theorem SteadyAhead.descend {next : Rule β} (further : SteadyAhead next) :
    SteadyAhead (descend >>= fun _ => next) :=
  fun floor _ here live => runs_descend here fun free =>
    further floor _ ⟨Nat.le_succ_of_le here.low, free⟩ live

theorem Steady.descend {next : Rule β} (further : Steady next) :
    Steady (descend >>= fun _ => next) :=
  fun floor _ here => runs_descend here fun free =>
    further floor _ ⟨Nat.le_succ_of_le here.low, free⟩

theorem steady_untilClose (steady : Steady rule) (close : Kind) (bound : Nat) (found : Array α) :
    Steady (untilClose close rule bound found) := by
  induction bound generalizing found with
  | zero => exact (steady_expect close).ends
  | succ bound ih =>
    unfold untilClose
    refine steady_peekKind? (steady_unexpected _) fun kind => ?_
    dsimp only
    split
    · exact steady_advance (steady_pure _)
    · exact (steady.bind fun a => ih (found.push a)).follows

theorem steady_untilBrace (steady : Steady rule) : Steady (untilBrace rule) :=
  steady_look (fun _ => rfl) fun s => steady_untilClose steady _ (s.rest.length + 1) #[]

theorem steady_commaList (steady : Steady rule) (bound : Nat) (found : Array α) :
    Steady (commaList rule bound found) := by
  induction bound generalizing found with
  | zero => exact (steady_expect _).ends
  | succ bound ih =>
    refine steady.bind fun a => (steady_eat _).bind fun more => ?_
    cases more with
    | true => exact ih (found.push a)
    | false => exact (steady_expect _).ends

theorem steady_parenthesized (steady : Steady rule) : Steady (parenthesized rule) := by
  refine (steady_expect _).andThen ((steady_eat _).bind fun empty => ?_)
  cases empty with
  | true => exact steady_pure []
  | false =>
    exact steady_look (fun _ => rfl) fun s => steady_commaList steady (s.rest.length + 1) #[]

end

theorem steady_modifiers : Steady modifiers := by
  refine steady_forward (fun rest => rest.dropWhile fun t => (modifier? t).isSome)
    (fun rest => (rest.takeWhile fun t => (modifier? t).isSome).filterMap modifier?) fun rest => ?_
  exact ⟨_, (WritesModifiers.of_takeWhile rest).live, List.takeWhile_append_dropWhile.symm⟩

theorem steady_typeRef : Steady typeRef := by
  refine steady_peek? (steady_unexpected _) fun first => ?_
  dsimp only
  cases typeName? first with
  | none => exact (steady_unexpected _).follows
  | some name =>
    let type rest : TypeRef := ⟨name, (bracketPairs 0 rest).1, first.span⟩
    refine steady_advance (steady_forward (fun rest => (bracketPairs 0 rest).2) type fun rest => ?_)
    obtain ⟨n, ts, brackets, -, split⟩ := Brackets.of_bracketPairs 0 rest
    exact ⟨ts, brackets.live, split⟩

end CherryLang.Syntax
