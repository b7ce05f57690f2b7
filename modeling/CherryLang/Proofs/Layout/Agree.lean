import CherryLang.Syntax.Rule
import CherryLang.Proofs.Syntax.Respan

/-! Two runs of a rule, on token lists that differ in their places and in whether a name directly
before a parenthesis counts as a method. The runs fail together, or both go on with results that
differ in their places only. -/
namespace CherryLang.Syntax

theorem eq_of_isName {kind : Kind} (name : kind.isName) :
    kind = .identifier ∨ kind = .methodIdentifier := by
  simpa [Kind.isName] using name

def KindsMatch (k l : Kind) : Prop := k = l ∨ k.isName ∧ l.isName

namespace KindsMatch

theorem names {k l : Kind} (matched : KindsMatch k l) : k.isName = l.isName := by
  obtain rfl | ⟨left, right⟩ := matched
  · rfl
  · rw [left, right]

theorem congr {α : Type} {k l : Kind} (matched : KindsMatch k l) (g : Kind → α)
    (blind : g .identifier = g .methodIdentifier) : g k = g l := by
  have named : ∀ kind : Kind, kind.isName → g kind = g .methodIdentifier := by
    intro kind name
    obtain rfl | rfl := eq_of_isName name
    · exact blind
    · rfl
  obtain rfl | ⟨left, right⟩ := matched
  · rfl
  · rw [named k left, named l right]

theorem eq_iff {k l : Kind} (matched : KindsMatch k l) (kind : Kind) (plain : kind.isName = false) :
    k = kind ↔ l = kind := by
  have other : ∀ name : Kind, name.isName → decide (name = kind) = false := by
    intro name named
    rw [decide_eq_false_iff_not]
    rintro rfl
    simp [named] at plain
  have same := matched.congr (fun k => decide (k = kind))
    ((other .identifier rfl).trans (other .methodIdentifier rfl).symm)
  simpa using same

theorem bind_eq {α : Type} {k? l? : Option Kind} (ahead : Option.Rel KindsMatch k? l?)
    (g : Kind → Option α) (blind : g .identifier = g .methodIdentifier) :
    k?.bind g = l?.bind g := by
  cases ahead with
  | none => rfl
  | some matched => exact matched.congr g blind

end KindsMatch

section

variable (f : Span → Span)

structure TokensMatch (t u : Token) : Prop where
  kind : KindsMatch t.kind u.kind
  lexeme : u.lexeme = t.lexeme
  file : u.file = t.file
  span : u.span = f t.span

/-- Tokens that match one by one. Two names of different kinds stand before a parenthesis. -/
inductive Alike : List Token → List Token → Prop
  | nil : Alike [] []
  | cons {t u : Token} {ts us : List Token} : TokensMatch f t u →
    (t.kind = u.kind ∨ ts.head?.map (·.kind) = some (.symbol .leftParen)) → Alike ts us →
    Alike (t :: ts) (u :: us)

structure StatesMatch (s s' : State) : Prop where
  rest : Alike f s.rest s'.rest
  depth : s.depth = s'.depth

/-- Both runs failed, or both succeeded and go on from states that match. -/
inductive Agree {α : Type} (R : α → α → Prop) :
    Except Failure (α × State) → Except Failure (α × State) → Prop
  | error {e e' : Failure} : Agree R (.error e) (.error e')
  | ok {a a' : α} {s s' : State} : R a a' → StatesMatch f s s' → Agree R (.ok (a, s)) (.ok (a', s'))

def Agrees {α : Type} (R : α → α → Prop) (rule rule' : Rule α) : Prop :=
  ∀ s s', StatesMatch f s s' → Agree f R (rule s) (rule' s')

variable {f} {α β : Type} {R : α → α → Prop} {Q : β → β → Prop}

theorem Agrees.bind {rule rule' : Rule α} {next next' : α → Rule β}
    (first : Agrees f R rule rule') (further : ∀ a a', R a a' → Agrees f Q (next a) (next' a')) :
    Agrees f Q (rule >>= next) (rule' >>= next') := by
  intro s s' same
  have ran := first s s' same
  simp only [Bind.bind, StateT.bind, Except.bind]
  cases run : rule s with
  | error e =>
    rw [run] at ran
    cases run' : rule' s' with
    | error e' => exact .error
    | ok result => rw [run'] at ran; cases ran
  | ok result =>
    rw [run] at ran
    cases run' : rule' s' with
    | error e' => rw [run'] at ran; cases ran
    | ok result' =>
      rw [run'] at ran
      cases ran with
      | ok related later => exact further _ _ related _ _ later

def Moved (g : α → α) (a a' : α) : Prop := a' = g a

theorem Agrees.bind_moved {g : α → α} {rule rule' : Rule α} {next next' : α → Rule β}
    (first : Agrees f (Moved g) rule rule') (further : ∀ a, Agrees f Q (next a) (next' (g a))) :
    Agrees f Q (rule >>= next) (rule' >>= next') := by
  apply first.bind
  rintro a _ rfl
  exact further a

theorem Agrees.bind_eq {rule rule' : Rule α} {next next' : α → Rule β}
    (first : Agrees f Eq rule rule') (further : ∀ a, Agrees f Q (next a) (next' a)) :
    Agrees f Q (rule >>= next) (rule' >>= next') := by
  apply first.bind
  rintro a _ rfl
  exact further a

theorem Agrees.andThen {rule rule' : Rule α} {next next' : Rule β} (first : Agrees f R rule rule')
    (further : Agrees f Q next next') :
    Agrees f Q (rule >>= fun _ => next) (rule' >>= fun _ => next') :=
  first.bind fun _ _ _ => further

theorem agrees_pure {a a' : α} (related : R a a') : Agrees f R (pure a) (pure a') :=
  fun _ _ same => .ok related same

theorem agrees_throw (e e' : Failure) : Agrees f R (throw e) (throw e') := fun _ _ _ => .error

theorem agrees_unexpected (what what' : Expectation) :
    Agrees f R (unexpected what) (unexpected what') := fun _ _ _ => .error

theorem agrees_tooDeep : Agrees f R tooDeep tooDeep := fun _ _ _ => .error

theorem Alike.ahead {ts us : List Token} (alike : Alike f ts us) :
    Option.Rel (TokensMatch f) (ahead? ts) (ahead? us) := by
  cases alike with
  | nil => exact .none
  | @cons t u ts us matched =>
    have ended := matched.kind.eq_iff .endOfStream rfl
    by_cases last : t.kind = .endOfStream
    · simp [ahead?, last, ended.mp last]
    · simpa [ahead?, last, mt ended.mpr last] using Option.Rel.some matched

theorem Alike.head_kind {ts us : List Token} (alike : Alike f ts us) (kind : Kind)
    (plain : kind.isName = false) :
    ts.head?.map (·.kind) = some kind ↔ us.head?.map (·.kind) = some kind := by
  cases alike with
  | nil => rfl
  | cons matched => simpa using matched.kind.eq_iff kind plain

theorem agrees_peek? : Agrees f (Option.Rel (TokensMatch f)) peek? peek? :=
  fun _ _ same => .ok same.rest.ahead same

theorem agrees_peekKind? : Agrees f (Option.Rel KindsMatch) peekKind? peekKind? := by
  refine agrees_peek?.bind fun t? u? ahead => agrees_pure ?_
  cases ahead with
  | none => exact .none
  | some matched => exact .some matched.kind

theorem agrees_modify {change change' : State → State}
    (kept : ∀ s s', StatesMatch f s s' → StatesMatch f (change s) (change' s')) :
    Agrees f Eq (modify change) (modify change') :=
  fun s s' same => .ok rfl (kept s s' same)

theorem Alike.tail {ts us : List Token} (alike : Alike f ts us) : Alike f ts.tail us.tail := by
  cases alike with
  | nil => exact .nil
  | cons _ _ rest => exact rest

theorem agrees_advance : Agrees f Eq advance advance :=
  agrees_modify fun _ _ same => ⟨same.rest.tail, same.depth⟩

theorem agrees_isNext {kind : Kind} (plain : kind.isName = false) :
    Agrees f Eq (isNext kind) (isNext kind) := by
  refine agrees_peekKind?.bind fun k? l? ahead => agrees_pure ?_
  cases ahead with
  | none => rfl
  | @some k l matched =>
    rw [Bool.eq_iff_iff]
    simpa using matched.eq_iff kind plain

theorem agrees_eat {kind : Kind} (plain : kind.isName = false) :
    Agrees f Eq (eat kind) (eat kind) := by
  apply (agrees_isNext plain).bind_eq
  intro found
  cases found with
  | true =>
    apply agrees_advance.andThen
    exact agrees_pure rfl
  | false => exact agrees_pure rfl

theorem agrees_take {accepts : Kind → Bool} {what : Expectation}
    (blind : ∀ k l, KindsMatch k l → accepts k = accepts l) :
    Agrees f (TokensMatch f) (take accepts what) (take accepts what) := by
  apply agrees_peek?.bind
  intro t? u? ahead
  cases ahead with
  | none => exact agrees_unexpected _ _
  | @some t u matched =>
    simp only [blind _ _ matched.kind]
    split
    · exact agrees_advance.andThen (agrees_pure matched)
    · exact agrees_unexpected _ _

theorem agrees_expect {kind : Kind} (plain : kind.isName = false) :
    Agrees f (TokensMatch f) (expect kind) (expect kind) := by
  refine agrees_take fun k l matched => ?_
  rw [Bool.eq_iff_iff]
  simpa using matched.eq_iff kind plain

theorem agrees_expectName : Agrees f (TokensMatch f) expectName expectName :=
  agrees_take fun _ _ matched => matched.names

theorem agrees_descend : Agrees f Eq descend descend := by
  intro s s' same
  have depth := same.depth
  simp only [descend, bind, StateT.bind, get, getThe, MonadStateOf.get, StateT.get, Except.bind,
    pure, Except.pure]
  rw [depth]
  split
  · exact .ok rfl ⟨same.rest, by simp [depth]⟩
  · exact .error

theorem agrees_ascend : Agrees f Eq ascend ascend :=
  agrees_modify fun _ _ same => ⟨same.rest, congrArg (· - 1) same.depth⟩

theorem agrees_get : Agrees f (StatesMatch f) get get := fun _ _ same => .ok same same

theorem agrees_keepingDepth {rule rule' : Rule α} (agrees : Agrees f R rule rule') :
    Agrees f R (keepingDepth rule) (keepingDepth rule') := by
  refine agrees_get.bind fun s s' same => agrees.bind fun a a' related => ?_
  refine (agrees_modify fun _ _ later => ?_).andThen ?_
  · exact ⟨later.rest, same.depth⟩
  · exact agrees_pure related

section

variable {g : α → α} {rule : Rule α}

theorem agrees_untilClose {close : Kind} (plain : close.isName = false)
    (agrees : Agrees f (Moved g) rule rule) (bound : Nat) (found found' : Array α)
    (same : found'.toList = found.toList.map g) :
    Agrees f (Moved (List.map g)) (untilClose close rule bound found)
      (untilClose close rule bound found') := by
  induction bound generalizing found found' with
  | zero =>
    refine (agrees_expect plain).bind fun t u _ => agrees_pure same
  | succ bound ih =>
    apply agrees_peekKind?.bind
    intro k? l? ahead
    cases ahead with
    | none => exact agrees_unexpected _ _
    | @some k l matched =>
      simp only [matched.eq_iff close plain]
      split
      · exact agrees_advance.andThen (agrees_pure same)
      · apply agrees.bind_moved
        intro a
        exact ih _ _ (by simp [same])

theorem Alike.length_eq {ts us : List Token} (alike : Alike f ts us) : ts.length = us.length := by
  induction alike with
  | nil => rfl
  | cons _ _ _ ih => simp [ih]

theorem agrees_untilBrace (agrees : Agrees f (Moved g) rule rule) :
    Agrees f (Moved (List.map g)) (untilBrace rule) (untilBrace rule) := by
  apply agrees_get.bind
  intro s s' same
  rw [same.rest.length_eq]
  exact agrees_untilClose rfl agrees _ _ _ rfl

theorem agrees_commaList (agrees : Agrees f (Moved g) rule rule) (bound : Nat)
    (found found' : Array α) (same : found'.toList = found.toList.map g) :
    Agrees f (Moved (List.map g)) (commaList rule bound found) (commaList rule bound found') := by
  induction bound generalizing found found' with
  | zero => exact (agrees_expect rfl).bind fun t u _ => agrees_pure same
  | succ bound ih =>
    apply agrees.bind_moved
    intro a
    apply (agrees_eat rfl).bind_eq
    intro more
    cases more with
    | true => exact ih _ _ (by simp [same])
    | false =>
      refine (agrees_expect rfl).bind fun t u _ => agrees_pure ?_
      simp [Moved, same]

theorem agrees_parenthesized (agrees : Agrees f (Moved g) rule rule) :
    Agrees f (Moved (List.map g)) (parenthesized rule) (parenthesized rule) := by
  refine (agrees_expect rfl).bind fun t u _ => (agrees_eat rfl).bind_eq ?_
  intro empty
  cases empty with
  | true => exact agrees_pure rfl
  | false =>
    apply agrees_get.bind
    intro s s' same
    rw [same.rest.length_eq]
    exact agrees_commaList agrees _ _ _ rfl

end

theorem TokensMatch.modifier? {t u : Token} (matched : TokensMatch f t u) :
    modifier? t = modifier? u :=
  matched.kind.congr (fun kind => Syntax.modifier? { t with kind := kind }) rfl

theorem agrees_modifiers : Agrees f Eq modifiers modifiers := by
  have words : ∀ ts us, Alike f ts us →
      (ts.takeWhile fun t => (modifier? t).isSome).filterMap modifier? =
          (us.takeWhile fun t => (modifier? t).isSome).filterMap modifier? ∧
        Alike f (ts.dropWhile fun t => (modifier? t).isSome)
          (us.dropWhile fun t => (modifier? t).isSome) := by
    intro ts us alike
    induction alike with
    | nil => exact ⟨rfl, .nil⟩
    | @cons t u ts us matched before rest ih =>
      have same := matched.modifier?
      cases word : modifier? t with
      | none =>
        rw [word] at same
        simpa [word, ← same] using Alike.cons matched before rest
      | some modifier =>
        rw [word] at same
        simpa [word, ← same] using ih
  apply agrees_get.bind
  intro s s' same
  obtain ⟨taken, left⟩ := words _ _ same.rest
  refine (agrees_modify fun _ _ later => ?_).andThen ?_
  · exact ⟨left, later.depth⟩
  · exact agrees_pure taken

theorem Alike.bracketPairs {ts us : List Token} (alike : Alike f ts us) (count : Nat) :
    (bracketPairs count ts).1 = (bracketPairs count us).1 ∧
      Alike f (bracketPairs count ts).2 (bracketPairs count us).2 := by
  fun_induction Syntax.bracketPairs count ts generalizing us with
  | case1 count left right rest brackets ih =>
    cases alike with
    | @cons _ left' _ us matched _ alike =>
      cases alike with
      | @cons _ right' _ us matched' _ alike =>
        have opens := (matched.kind.eq_iff (.symbol .leftBracket) rfl).mp brackets.1
        have closes := (matched'.kind.eq_iff (.symbol .rightBracket) rfl).mp brackets.2
        simpa [Syntax.bracketPairs, opens, closes] using ih alike
  | case2 count left right rest other =>
    have whole := alike
    cases alike with
    | @cons _ left' _ us matched _ alike =>
      cases alike with
      | @cons _ right' _ us matched' _ alike =>
        rw [matched.kind.eq_iff (.symbol .leftBracket) rfl,
          matched'.kind.eq_iff (.symbol .rightBracket) rfl] at other
        simpa only [Syntax.bracketPairs, if_neg other, true_and] using whole
  | case3 count ts short =>
    have whole := alike
    cases alike with
    | nil => exact ⟨rfl, .nil⟩
    | @cons t u ts us matched _ alike =>
      cases alike with
      | nil => exact ⟨rfl, whole⟩
      | cons => exact absurd rfl (short _ _ _)

theorem TokensMatch.typeName? {t u : Token} (matched : TokensMatch f t u) :
    typeName? t = typeName? u := by
  have named : ∀ t : Token, t.kind.isName → Syntax.typeName? t = some (.named t.lexeme) := by
    intro t name
    obtain kind | kind := eq_of_isName name
    · simp [Syntax.typeName?, kind]
    · simp [Syntax.typeName?, kind]
  obtain same | ⟨left, right⟩ := matched.kind
  · simp only [Syntax.typeName?, same, matched.lexeme]
  · rw [named t left, named u right, matched.lexeme]

theorem agrees_typeRef : Agrees f (Moved (TypeRef.respan f)) typeRef typeRef := by
  apply agrees_peek?.bind
  intro t? u? ahead
  cases ahead with
  | none => exact agrees_unexpected _ _
  | @some t u matched =>
    simp only [← matched.typeName?]
    cases typeName? t with
    | none => exact agrees_unexpected _ _
    | some name =>
      apply agrees_advance.andThen
      apply agrees_get.bind
      intro s s' same
      obtain ⟨depth, left⟩ := same.rest.bracketPairs 0
      refine (agrees_modify fun _ _ later => ?_).andThen ?_
      · exact ⟨left, later.depth⟩
      · apply agrees_pure
        simp [Moved, TypeRef.respan, depth, matched.span]

end

end CherryLang.Syntax
