import CherryLang.Proofs.Lexical.LongestMatch

/-! Lexemes are read back. What makes a lexeme end does not change it: in front of a blank, or of
the end, the scan finds every lexeme again that it has found in front of anything else. So the
lexemes of a text with blanks between them are scanned to the same lexemes, whatever stood around
them before. -/
namespace CherryLang

/-- The kind without regard to a parenthesis behind a name. -/
def Kind.uncalled : Kind → Kind
  | .methodIdentifier => .identifier
  | kind => kind

namespace Lexical

/-- The tokens but for the end of the stream. -/
def Scanned.lexed (s : Scanned) : List Token := s.tokens.filter (·.kind != .endOfStream)

def Scanned.spaced (s : Scanned) : String := " ".intercalate (s.lexed.map (·.lexeme))

def Apart (behind : List Char) : Prop := ∀ d ∈ behind.head?, d = ' '

section

variable {behind : List Char} (apart : Apart behind)
include apart

theorem takeWhile_apart {p : Char → Bool} (stops : p ' ' = false) (rest : List Char) :
    (rest.takeWhile p ++ behind).takeWhile p = rest.takeWhile p ∧
      (rest.takeWhile p ++ behind).dropWhile p = behind := by
  have keeps : ∀ d ∈ rest.takeWhile p, p d = true := List.all_eq_true.mp List.all_takeWhile
  rw [List.takeWhile_append_of_pos keeps, List.dropWhile_append_of_pos keeps]
  cases behind with
  | nil => simp
  | cons d tail =>
    obtain rfl := apart d rfl
    simp [stops]

theorem symbolRun_apart (run rest : List Char) :
    symbolRun run (symbolRun run rest ++ behind) = symbolRun run rest := by
  have stops : State.symbol.keeps ' ' = false := by decide
  induction rest generalizing run with
  | nil =>
    cases behind with
    | nil => rfl
    | cons d tail =>
      obtain rfl := apart d rfl
      simp [symbolRun, stops]
  | cons c rest ih =>
    by_cases grows : (State.symbol.keeps c && extendsSymbol (String.ofList run) c) = true
    · simp only [symbolRun, if_pos grows, List.cons_append, ih]
    · simp only [symbolRun, if_neg grows, List.nil_append]
      cases behind with
      | nil => rfl
      | cons d tail =>
        obtain rfl := apart d rfl
        simp [symbolRun, stops]

end

theorem numberPiece_again {run left lexeme : List Char} {kind : Kind}
    (found : numberPiece run left = .token kind lexeme) (behind : List Char) :
    numberPiece run behind = .token kind lexeme := by
  unfold numberPiece at found ⊢
  split at found
  · exact found
  · cases found

theorem symbolPiece_again {run left lexeme : List Char} {kind : Kind}
    (found : (symbolPiece run left).1 = .token kind lexeme) (behind : List Char) :
    symbolPiece run behind = (.token kind lexeme, behind) := by
  unfold symbolPiece at found ⊢
  split at found
  · cases found
  · next line =>
    split at found
    · split at found <;> cases found
    · next block =>
      rw [if_neg line, if_neg block]
      exact congrArg (·, behind) found

theorem closedPiece_again {run left lexeme : List Char} {kind : Kind}
    (found : closedPiece run left = .token kind lexeme) (behind : List Char) :
    closedPiece run behind = .token kind lexeme := by
  unfold closedPiece at found ⊢
  split at found
  · cases found
  · exact found

theorem literalPiece_again {run rest lexeme : List Char} {kind : Kind}
    (found : (literalPiece run rest).1 = .token kind lexeme) :
    ∃ more, lexeme = run ++ more ∧
      ∀ behind, literalPiece run (more ++ behind) = (.token kind lexeme, behind) := by
  induction rest generalizing run with
  | nil => cases found
  | cons c rest ih =>
    unfold literalPiece at found
    split at found
    · next quote =>
      split at found
      · next closes =>
        refine ⟨[c], (kind_closedPiece found).1, fun behind => ?_⟩
        simp [literalPiece, quote, closes, closedPiece_again found]
      · next runsOn =>
        obtain ⟨more, spelled, again⟩ := ih found
        refine ⟨c :: more, by simpa using spelled, fun behind => ?_⟩
        simp [literalPiece, quote, runsOn, again]
    · next unquoted =>
      split at found
      · cases found
      · next inline =>
        obtain ⟨more, spelled, again⟩ := ih found
        refine ⟨c :: more, by simpa using spelled, fun behind => ?_⟩
        simp [literalPiece, unquoted, inline, again]

theorem front_again {c : Char} {rest lexeme : List Char} {kind : Kind}
    (found : (front c rest).1 = .token kind lexeme) :
    ∃ more, lexeme = c :: more ∧ ∀ behind, Apart behind →
      ∃ kind', front c (more ++ behind) = (.token kind' lexeme, behind) := by
  unfold front at found
  cases sort : InputClass.of c with
  | letter =>
    simp only [sort, wordPiece, Piece.token.injEq] at found
    obtain ⟨-, rfl⟩ := found
    refine ⟨_, rfl, fun behind apart =>
      ⟨wordKind (c :: rest.takeWhile State.word.keeps) behind.head?, ?_⟩⟩
    obtain ⟨taken, left⟩ := takeWhile_apart apart (p := State.word.keeps) (by decide) rest
    simp only [front, sort, taken, left, wordPiece]
  | digit =>
    simp only [sort] at found
    obtain ⟨rfl, -⟩ := kind_numberPiece found
    refine ⟨_, rfl, fun behind apart => ⟨kind, ?_⟩⟩
    obtain ⟨taken, left⟩ := takeWhile_apart apart (p := State.number.keeps) (by decide) rest
    simp only [front, sort, taken, left, numberPiece_again found]
  | dot | symbol =>
    simp only [sort] at found
    obtain ⟨rfl, -⟩ := kind_symbolPiece found
    refine ⟨_, rfl, fun behind apart => ⟨kind, ?_⟩⟩
    simp only [front, sort, symbolRun_apart apart, List.drop_left]
    exact symbolPiece_again found behind
  | quote =>
    simp only [sort] at found
    obtain ⟨more, rfl, again⟩ := literalPiece_again found
    exact ⟨more, rfl, fun behind _ => ⟨kind, by simpa only [front, sort] using again behind⟩⟩
  | whitespace | newline | other | eof => simp [sort] at found

theorem keyword?_ne_methodIdentifier {word : String} {kind : Kind}
    (found : Kind.keyword? word = some kind) : kind ≠ .methodIdentifier := by
  rintro rfl
  unfold Kind.keyword? at found
  split at found
  · cases found
  · simp [Option.filter_eq_some_iff, Kind.isReserved_iff] at found

theorem kindOf_ne_methodIdentifier (lexeme : List Char) :
    kindOf false lexeme ≠ .methodIdentifier := by
  cases lexeme with
  | nil => simp [kindOf]
  | cons c rest =>
    simp only [kindOf, Bool.false_eq_true, if_false]
    split
    · unfold wordKind
      cases found : Kind.keyword? (String.ofList (c :: rest)) with
      | none => simp
      | some kind => exact keyword?_ne_methodIdentifier found
    · cases Number.classify? (c :: rest) <;> simp
    · simp [literalKind]
    · unfold symbolKind
      cases found : Kind.symbol? (String.ofList (c :: rest)) with
      | none => simp
      | some kind =>
        obtain ⟨s, rfl, -⟩ := symbol?_eq_some_iff.mp found
        simp

theorem uncalled_of_ne {kind : Kind} (plain : kind ≠ .methodIdentifier) : kind.uncalled = kind := by
  cases kind <;> first | rfl | exact absurd rfl plain

theorem uncalled_kindOf (called : Bool) (lexeme : List Char) :
    (kindOf called lexeme).uncalled = kindOf false lexeme := by
  have plain := uncalled_of_ne (kindOf_ne_methodIdentifier lexeme)
  cases called with
  | false => exact plain
  | true =>
    obtain same | ⟨method, name⟩ := kindOf_called lexeme
    · rw [same, plain]
    · rw [method, name, Kind.uncalled]

def lexemePiece (lexeme : List Char) : Piece := .token (kindOf false lexeme) lexeme

/-- In front of a blank a lexeme is the first piece. -/
def Stands (lexeme : List Char) : Prop :=
  ∃ c more, lexeme = c :: more ∧
    ∀ behind, Apart behind → front c (more ++ behind) = (lexemePiece lexeme, behind)

theorem stands_of_front {c : Char} {rest lexeme : List Char} {kind : Kind}
    (found : (front c rest).1 = .token kind lexeme) :
    kind.uncalled = kindOf false lexeme ∧ Stands lexeme := by
  obtain ⟨more, spelled, again⟩ := front_again found
  obtain ⟨called, same, -⟩ := kind_front found
  refine ⟨by rw [same, uncalled_kindOf], c, more, spelled, fun behind apart => ?_⟩
  obtain ⟨kind', here⟩ := again behind apart
  obtain ⟨called, sort, opens⟩ := kind_front (congrArg Prod.fst here)
  rw [here] at opens
  cases called with
  | false => rw [here, lexemePiece, sort]
  | true => exact absurd (apart _ (opens rfl)) (by decide)

theorem stands_of_mem_pieces {text lexeme : List Char} {kind : Kind}
    (member : .token kind lexeme ∈ pieces text) :
    kind.uncalled = kindOf false lexeme ∧ Stands lexeme := by
  fun_induction pieces text with
  | case1 => cases member
  | case2 c rest ih =>
    obtain here | later := List.mem_cons.mp member
    · exact stands_of_front here.symm
    · exact ih later

namespace Piece

def lexed? : Piece → Option (Kind × List Char)
  | .token kind lexeme => some (kind, lexeme)
  | .blank _ | .line _ _ | .block _ | .error .. => none

def isError : Piece → Bool
  | .error .. => true
  | .blank _ | .line _ _ | .block _ | .token _ _ => false

end Piece

theorem pieces_intercalate {lexemes : List (List Char)}
    (stand : ∀ lexeme ∈ lexemes, Stands lexeme) :
    (pieces ([' '].intercalate lexemes)).filterMap Piece.lexed? =
        lexemes.map (fun lexeme => (kindOf false lexeme, lexeme)) ∧
      ∀ piece ∈ pieces ([' '].intercalate lexemes), piece.isError = false := by
  induction lexemes with
  | nil => simp [pieces]
  | cons lexeme lexemes ih =>
    obtain ⟨⟨c, more, rfl, first⟩, others⟩ := List.forall_mem_cons.mp stand
    cases lexemes with
    | nil =>
      have alone := first [] (by simp [Apart])
      rw [List.append_nil] at alone
      simp [pieces, alone, lexemePiece, Piece.lexed?, Piece.isError]
    | cons next lexemes =>
      obtain ⟨said, clean⟩ := ih others
      have blank : ∀ rest, front ' ' rest = (.blank ' ', rest) := fun _ => rfl
      have before := first (' ' :: [' '].intercalate (next :: lexemes)) (by simp [Apart])
      have whole : pieces ([' '].intercalate ((c :: more) :: next :: lexemes)) =
          lexemePiece (c :: more) :: .blank ' ' ::
            pieces ([' '].intercalate (next :: lexemes)) := by
        rw [List.intercalate_cons_cons, List.append_assoc, List.singleton_append,
          List.cons_append, pieces, before, pieces, blank]
      rw [whole]
      constructor
      · simpa [lexemePiece, Piece.lexed?, List.filterMap_cons] using said
      · simpa [lexemePiece, Piece.isError] using clean

theorem lexed_emitted (file : FileId) (before : List Char) {pieces : List Piece}
    (laid : Laid pieces) :
    (((emitted file before pieces).filterMap Item.token?).filter (·.kind != .endOfStream)).map
        (fun t => (t.kind, t.lexeme.toList)) = pieces.filterMap Piece.lexed? := by
  induction pieces generalizing before with
  | nil => simp [emitted]
  | cons piece pieces ih =>
    have further := ih (before ++ piece.text) laid.2
    cases piece with
    | token kind lexeme =>
      have live : kind ≠ .endOfStream := laid.1.1
      simpa [emitted, Piece.item?, Piece.lexed?, List.filterMap_cons, live] using further
    | blank c | line body closed | block body | error kind lexeme lost quoted =>
      simpa [emitted, Piece.item?, Piece.lexed?, List.filterMap_cons] using further

theorem errors_emitted (file : FileId) (before : List Char) {pieces : List Piece}
    (clean : ∀ piece ∈ pieces, piece.isError = false) :
    (emitted file before pieces).filterMap Item.error? = [] := by
  induction pieces generalizing before with
  | nil => simp [emitted]
  | cons piece pieces ih =>
    obtain ⟨here, others⟩ := List.forall_mem_cons.mp clean
    have further := ih (before ++ piece.text) others
    cases piece with
    | error kind lexeme lost quoted => cases here
    | blank c | line body closed | block body | token kind lexeme =>
      simpa [emitted, Piece.item?] using further

section

variable {file : FileId} {text : String} {scanned : Scanned}
  (ended : scan file (.ofText text) = .ok scanned)
include ended

theorem lexed_of_scan : scanned.lexed.map (fun t => (t.kind, t.lexeme.toList)) =
    (pieces text.toList).filterMap Piece.lexed? := by
  obtain rfl := Except.ok.inj ((scan_ofText file text).symm.trans ended)
  exact lexed_emitted file [] (laid_pieces _)

theorem errors_of_scan (clean : ∀ piece ∈ pieces text.toList, piece.isError = false) :
    scanned.errors = [] := by
  obtain rfl := Except.ok.inj ((scan_ofText file text).symm.trans ended)
  exact errors_emitted file [] clean

theorem stands_of_scan {t : Token} (member : t ∈ scanned.lexed) :
    t.kind.uncalled = kindOf false t.lexeme.toList ∧ Stands t.lexeme.toList := by
  have listed := List.mem_map_of_mem (f := fun t => (t.kind, t.lexeme.toList)) member
  rw [lexed_of_scan ended] at listed
  obtain ⟨piece, inside, said⟩ := List.mem_filterMap.mp listed
  cases piece with
  | token kind lexeme =>
    cases said
    exact stands_of_mem_pieces inside
  | blank c | line body closed | block body | error kind lexeme lost quoted => cases said

end

/-- The lexemes of a text, whatever errors it has, with single blanks between them are scanned
without errors to the same lexemes. They are of the same kinds, except that no name counts as a
method any more. -/
theorem scan_spaced (file again : FileId) (text : String) :
    ∃ scanned rescanned : Scanned,
      scan file (.ofText text) = .ok scanned ∧
        scan again (.ofText scanned.spaced) = .ok rescanned ∧
        rescanned.errors = [] ∧
        rescanned.lexed.map (fun t => (t.kind, t.lexeme)) =
          scanned.lexed.map fun t => (t.kind.uncalled, t.lexeme) := by
  obtain ⟨scanned, ended⟩ : ∃ scanned, scan file (.ofText text) = .ok scanned :=
    ⟨_, scan_ofText file text⟩
  obtain ⟨rescanned, ended'⟩ : ∃ rescanned, scan again (.ofText scanned.spaced) = .ok rescanned :=
    ⟨_, scan_ofText again _⟩
  have joined : scanned.spaced.toList =
      [' '].intercalate (scanned.lexed.map (·.lexeme.toList)) := by
    simp [Scanned.spaced, Function.comp_def]
  have stand : ∀ lexeme ∈ scanned.lexed.map (·.lexeme.toList), Stands lexeme := by
    intro lexeme member
    obtain ⟨t, inside, rfl⟩ := List.mem_map.mp member
    exact (stands_of_scan ended inside).2
  obtain ⟨said, clean⟩ := pieces_intercalate stand
  rw [← joined] at said clean
  refine ⟨scanned, rescanned, ended, ended', errors_of_scan ended' clean, ?_⟩
  have kinds : scanned.lexed.map (fun t => (t.kind.uncalled, t.lexeme)) =
      scanned.lexed.map fun t => (kindOf false t.lexeme.toList, t.lexeme) :=
    List.map_congr_left fun t inside => by rw [(stands_of_scan ended inside).1]
  rw [← lexed_of_scan ended', List.map_map] at said
  rw [kinds]
  have spelled := congrArg (List.map fun (kind, lexeme) => (kind, String.ofList lexeme)) said
  simpa [List.map_map, Function.comp_def] using spelled

end Lexical

end CherryLang
