import CherryLang.Proofs.Layout.Agree
import CherryLang.Proofs.Lexical.Lossless

/-! The kind of a token follows from its lexeme, except that a name may count as a method; that one
has a parenthesis directly behind it. Token lists of equal lexemes match therefore. -/
namespace CherryLang.Lexical

theorem length_surface_of_paren : ∀ kind ∈ Kind.all, kind.surface.toList.head? = some '(' →
    kind.surface.toList.length = 1 := by
  decide +kernel

theorem extendsSymbol_paren (c : Char) : extendsSymbol "(" c = false := by
  have unknown : Kind.ofSurface? ("(".push c) = none := by
    rw [Kind.ofSurface?, List.find?_eq_none]
    intro kind member same
    have text : kind.surface = "(".push c := by simpa using same
    have short := length_surface_of_paren kind member (by simp [text])
    simp [text] at short
  have apart : ∀ other : String, other.toList.head? ≠ some '(' → ("(".push c == other) = false := by
    intro other differs
    rw [beq_eq_false_iff_ne]
    rintro rfl
    simp at differs
  simp [extendsSymbol, Kind.symbol?, unknown, apart "//" (by decide), apart "/*" (by decide)]

theorem front_paren (rest : List Char) :
    front '(' rest = (.token (.symbol .leftParen) ['('], rest) := by
  have alone : symbolRun ['('] rest = [] := by
    cases rest with
    | nil => rfl
    | cons c rest => simp [symbolRun, extendsSymbol_paren]
  have kind : symbolKind ['('] = .symbol .leftParen := by decide +kernel
  have sort : InputClass.of '(' = .symbol := by decide
  simp [front, sort, alone, symbolPiece, kind]

def kindOf (called : Bool) : List Char → Kind
  | [] => .endOfStream
  | c :: rest =>
    match InputClass.of c with
    | .letter => wordKind (c :: rest) (if called then some '(' else none)
    | .digit => ((Number.classify? (c :: rest)).map Kind.literal).getD .undefined
    | .quote => literalKind (c :: rest)
    | _ => symbolKind (c :: rest)

theorem kindOf_called (lexeme : List Char) :
    kindOf true lexeme = kindOf false lexeme ∨
      kindOf true lexeme = .methodIdentifier ∧ kindOf false lexeme = .identifier := by
  cases lexeme with
  | nil => exact .inl rfl
  | cons c rest =>
    simp only [kindOf]
    split
    · unfold wordKind
      cases Kind.keyword? (String.ofList (c :: rest)) with
      | none => exact .inr ⟨rfl, rfl⟩
      | some kind => exact .inl rfl
    all_goals exact .inl rfl

theorem kindsMatch_kindOf (called called' : Bool) (lexeme : List Char) :
    Syntax.KindsMatch (kindOf called lexeme) (kindOf called' lexeme) := by
  obtain same | ⟨method, plain⟩ := kindOf_called lexeme
  · refine .inl ?_
    cases called <;> cases called' <;> simp [same]
  · refine .inr ?_
    cases called <;> cases called' <;> simp [method, plain, Kind.isName]

/-- Each kind is that of its lexeme, and before a parenthesis where the kind is that of a call. -/
def Spelled : List Token → Prop
  | [] => True
  | t :: ts =>
    (∃ called, t.kind = kindOf called t.lexeme.toList ∧
      (called = true → ts.head?.map (·.kind) = some (.symbol .leftParen))) ∧ Spelled ts

theorem kind_numberPiece {run left lexeme : List Char} {kind : Kind}
    (found : numberPiece run left = .token kind lexeme) :
    lexeme = run ∧ kind = ((Number.classify? lexeme).map Kind.literal).getD .undefined := by
  unfold numberPiece at found
  split at found
  · next form classified =>
    cases found
    exact ⟨rfl, by simp [classified]⟩
  · cases found

theorem kind_symbolPiece {run left lexeme : List Char} {kind : Kind}
    (found : (symbolPiece run left).1 = .token kind lexeme) :
    lexeme = run ∧ kind = symbolKind lexeme := by
  unfold symbolPiece at found
  split at found
  · cases found
  · split at found
    · split at found <;> cases found
    · cases found
      exact ⟨rfl, rfl⟩

theorem kind_closedPiece {text left lexeme : List Char} {kind : Kind}
    (found : closedPiece text left = .token kind lexeme) :
    lexeme = text ∧ kind = literalKind lexeme := by
  unfold closedPiece at found
  split at found
  · cases found
  · cases found
    exact ⟨rfl, rfl⟩

theorem kind_literalPiece {run rest lexeme : List Char} {kind : Kind}
    (found : (literalPiece run rest).1 = .token kind lexeme) :
    run <+: lexeme ∧ kind = literalKind lexeme := by
  induction rest generalizing run with
  | nil => cases found
  | cons c rest ih =>
    have further : (literalPiece (run ++ [c]) rest).1 = .token kind lexeme →
        run <+: lexeme ∧ kind = literalKind lexeme := fun later =>
      ⟨(List.prefix_append run [c]).trans (ih later).1, (ih later).2⟩
    unfold literalPiece at found
    split at found
    · split at found
      · obtain ⟨rfl, kind⟩ := kind_closedPiece found
        exact ⟨List.prefix_append run [c], kind⟩
      · exact further found
    · split at found
      · cases found
      · exact further found

theorem kind_front {c : Char} {rest lexeme : List Char} {kind : Kind}
    (found : (front c rest).1 = .token kind lexeme) :
    ∃ called, kind = kindOf called lexeme ∧
      (called = true → (front c rest).2.head? = some '(') := by
  unfold front at found ⊢
  split at found
  · next sort =>
    cases found
    refine ⟨decide ((rest.dropWhile State.word.keeps).head? = some '('), ?_, of_decide_eq_true⟩
    simp only [kindOf, sort, wordKind]
    congr 1
    split <;> simp [*]
  · next sort =>
    obtain ⟨rfl, kind⟩ := kind_numberPiece found
    exact ⟨false, by simp [kindOf, sort, kind], by simp⟩
  · next sort =>
    obtain ⟨rfl, kind⟩ := kind_symbolPiece found
    exact ⟨false, by simp [kindOf, sort, kind], by simp⟩
  · next sort =>
    obtain ⟨rfl, kind⟩ := kind_symbolPiece found
    exact ⟨false, by simp [kindOf, sort, kind], by simp⟩
  · next sort =>
    obtain ⟨⟨more, rfl⟩, kind⟩ := kind_literalPiece found
    exact ⟨false, by simp [kindOf, sort, kind], by simp⟩
  all_goals cases found

def tokensBehind (file : FileId) (before text : List Char) : List Token :=
  (emitted file before (pieces text)).filterMap Item.token?

theorem tokensBehind_nil (file : FileId) (before : List Char) :
    tokensBehind file before [] = [⟨.endOfStream, "", file, place before⟩] := by
  simp [tokensBehind, pieces, emitted]

theorem tokensBehind_cons (file : FileId) (before : List Char) (c : Char) (rest : List Char) :
    tokensBehind file before (c :: rest) =
      (((front c rest).1.item? file (place before)).bind Item.token?).toList ++
        tokensBehind file (before ++ (front c rest).1.text) (front c rest).2 := by
  rw [tokensBehind, pieces, emitted, List.filterMap_append]
  cases (front c rest).1.item? file (place before) with
  | none => rfl
  | some item => cases item <;> rfl

theorem head_tokensBehind_paren (file : FileId) (before : List Char) {text : List Char}
    (opens : text.head? = some '(') :
    (tokensBehind file before text).head?.map (·.kind) = some (.symbol .leftParen) := by
  obtain ⟨rest, rfl⟩ := List.head?_eq_some_iff.mp opens
  simp [tokensBehind_cons, front_paren, Piece.item?]

theorem spelled_tokensBehind (file : FileId) (before text : List Char) :
    Spelled (tokensBehind file before text) := by
  fun_induction pieces text generalizing before with
  | case1 =>
    rw [tokensBehind_nil]
    exact ⟨⟨false, rfl, by simp⟩, trivial⟩
  | case2 c rest ih =>
    rw [tokensBehind_cons]
    have further := ih (before ++ (front c rest).1.text)
    cases found : (front c rest).1 with
    | token kind lexeme =>
      obtain ⟨called, spelled, opens⟩ := kind_front found
      rw [found] at further
      refine ⟨⟨called, by simpa using spelled, fun call => ?_⟩, further⟩
      exact head_tokensBehind_paren file _ (opens call)
    | blank c | line body closed | block body | error kind lexeme lost quoted =>
      rw [found] at further
      exact further

theorem Spelled.alike {f : Span → Span} {ts us : List Token} (spelled : Spelled ts)
    (spelled' : Spelled us) (lexemes : ts.map (·.lexeme) = us.map (·.lexeme))
    (files : ts.map (·.file) = us.map (·.file))
    (spans : ts.map (fun t => f t.span) = us.map (·.span)) : Syntax.Alike f ts us := by
  induction ts generalizing us with
  | nil =>
    obtain rfl : us = [] := by simpa using lexemes
    exact .nil
  | cons t ts ih =>
    cases us with
    | nil => simp at lexemes
    | cons u us =>
      simp only [List.map_cons, List.cons.injEq] at lexemes files spans
      obtain ⟨⟨called, kind, opens⟩, later⟩ := spelled
      obtain ⟨⟨called', kind', opens'⟩, later'⟩ := spelled'
      have rest := ih later later' lexemes.2 files.2 spans.2
      rw [← lexemes.1] at kind'
      have kinds : Syntax.KindsMatch t.kind u.kind := by
        rw [kind, kind']
        exact kindsMatch_kindOf called called' _
      refine .cons ⟨kinds, lexemes.1.symm, files.1.symm, spans.1.symm⟩ ?_ rest
      -- Kinds differ only if one of the two names is called, and then both lists go on alike.
      cases called with
      | true => exact .inr (opens rfl)
      | false =>
        cases called' with
        | true => exact .inr ((rest.head_kind _ rfl).mpr (opens' rfl))
        | false => exact .inl (kind.trans kind'.symm)

end CherryLang.Lexical
