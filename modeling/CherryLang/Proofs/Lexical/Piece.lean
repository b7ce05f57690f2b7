import CherryLang.Lexical.Lexeme
import CherryLang.Proofs.Source.Standing

/-! A text as a sequence of pieces. `front` tells the first piece of a text from the characters
alone: blanks and comments, which are skipped, lexemes, and text that is discarded with an error. -/
namespace CherryLang.Lexical

inductive Piece where
  | blank (c : Char)
  /-- A line comment without its slashes and its newline, and whether a newline ends it. -/
  | line (body : List Char) (closed : Bool)
  /-- A block comment without its delimiters. -/
  | block (body : List Char)
  | token (kind : Kind) (lexeme : List Char)
  /-- The lexeme of an error, what is discarded behind it, and the line that the error quotes. -/
  | error (kind : ErrorKind) (lexeme lost : List Char) (quoted : String)

namespace Piece

def text : Piece → List Char
  | .blank c => [c]
  | .line body closed => ['/', '/'] ++ body ++ if closed then ['\n'] else []
  | .block body => ['/', '*'] ++ body ++ ['*', '/']
  | .token _ lexeme => lexeme
  | .error _ lexeme lost _ => lexeme ++ lost

def item? (file : FileId) (span : Span) : Piece → Option Item
  | .token kind lexeme => some (.token ⟨kind, String.ofList lexeme, file, span⟩)
  | .error kind lexeme _ quoted => some (.error ⟨kind, span, String.ofList lexeme, quoted⟩)
  | .blank _ | .line _ _ | .block _ => none

/-- What an error discards behind its lexeme, in front of `behind`. -/
def Loses (kind : ErrorKind) (lost behind : List Char) : Prop :=
  match kind with
  | .unterminatedString | .unterminatedCharacter => lost = ['\n'] ∨ lost = [] ∧ behind = []
  | .unterminatedComment => behind = [] ∧ ¬ ['*', '/'] <:+: lost
  | _ => lost = []

def Fits : Piece → List Char → Prop
  | .blank c, _ => InputClass.of c = .whitespace ∨ InputClass.of c = .newline
  | .line body closed, behind => '\n' ∉ body ∧ (closed = false → behind = [])
  -- No `*/` ends before the last one, and the star of the opening belongs to none.
  | .block body, _ => ¬ ['*', '/'] <:+: body ++ ['*']
  | .token kind lexeme, _ => kind ≠ .endOfStream ∧ lexeme ≠ []
  | .error kind lexeme lost _, behind => lexeme ≠ [] ∧ Loses kind lost behind

theorem Fits.text_ne_nil {piece : Piece} {behind : List Char} (fits : piece.Fits behind) :
    piece.text ≠ [] := by
  cases piece with
  | blank c => simp [text]
  | line body closed => simp [text]
  | block body => simp [text]
  | token kind lexeme => exact fits.2
  | error kind lexeme lost quoted => simp [text, fits.1]

end Piece

def quotedLine (lexeme left : List Char) : String :=
  String.ofList lexeme ++ trimLine (String.ofList (firstLine left))

def State.keeps (state : State) (c : Char) : Bool := state.next (.of c) == state

def wordKind (word : List Char) (next : Option Char) : Kind :=
  (Kind.keyword? (String.ofList word)).getD
    (if next = some '(' then .methodIdentifier else .identifier)

def symbolKind (run : List Char) : Kind := (Kind.symbol? (String.ofList run)).getD .undefined

def literalKind (lexeme : List Char) : Kind :=
  .literal (if lexeme.head? == some '\'' then .character else .string)

def unterminatedKind (run : List Char) : ErrorKind :=
  if run.head? == some '\'' then .unterminatedCharacter else .unterminatedString

def wordPiece (word left : List Char) : Piece := .token (wordKind word left.head?) word

def numberPiece (run left : List Char) : Piece :=
  match Number.classify? run with
  | some form => .token (.literal form) run
  | none => .error .malformedNumber run [] (quotedLine run left)

def symbolRun (run : List Char) : List Char → List Char
  | [] => []
  | c :: rest =>
    if State.symbol.keeps c && extendsSymbol (String.ofList run) c then
      c :: symbolRun (run ++ [c]) rest
    else []

def splitBlock? : List Char → Option (List Char × List Char)
  | [] => none
  | '*' :: '/' :: rest => some ([], rest)
  | c :: rest => (splitBlock? rest).map fun (body, behind) => (c :: body, behind)

def symbolPiece (run left : List Char) : Piece × List Char :=
  if run = ['/', '/'] then
    (.line (left.takeWhile (· != '\n')) (left.contains '\n'), furtherLines left)
  else if run = ['/', '*'] then
    match splitBlock? left with
    | some (body, behind) => (.block body, behind)
    | none => (.error .unterminatedComment run left "/*", [])
  else (.token (symbolKind run) run, left)

def closedPiece (lexeme left : List Char) : Piece :=
  match Quote.problem? lexeme with
  | some kind => .error kind lexeme [] (quotedLine lexeme left)
  | none => .token (literalKind lexeme) lexeme

/-- The literal of which `run` has been read, and what stands behind it. -/
def literalPiece (run : List Char) : List Char → Piece × List Char
  | [] => (.error (unterminatedKind run) run [] (String.ofList run), [])
  | c :: rest =>
    if InputClass.of c = .quote then
      if Quote.closes (run ++ [c]) then (closedPiece (run ++ [c]) rest, rest)
      else literalPiece (run ++ [c]) rest
    else if c = '\n' then (.error (unterminatedKind run) run ['\n'] (String.ofList run), rest)
    else literalPiece (run ++ [c]) rest

/-- The first piece of a text that begins with `c`, and what stands behind it. -/
def front (c : Char) (rest : List Char) : Piece × List Char :=
  match InputClass.of c with
  | .letter =>
    let left := rest.dropWhile State.word.keeps
    (wordPiece (c :: rest.takeWhile State.word.keeps) left, left)
  | .digit =>
    let left := rest.dropWhile State.number.keeps
    (numberPiece (c :: rest.takeWhile State.number.keeps) left, left)
  | .dot | .symbol =>
    let more := symbolRun [c] rest
    symbolPiece (c :: more) (rest.drop more.length)
  | .quote => literalPiece [c] rest
  | .whitespace | .newline => (.blank c, rest)
  | .other | .eof => (.error (.unexpectedCharacter c) [c] [] (quotedLine [c] rest), rest)

theorem text_numberPiece (run left : List Char) : (numberPiece run left).text = run := by
  unfold numberPiece
  split <;> simp [Piece.text]

theorem text_closedPiece (lexeme left : List Char) : (closedPiece lexeme left).text = lexeme := by
  unfold closedPiece
  split <;> simp [Piece.text]

theorem symbolRun_append_drop (run rest : List Char) :
    symbolRun run rest ++ rest.drop (symbolRun run rest).length = rest := by
  induction rest generalizing run with
  | nil => rfl
  | cons c rest ih =>
    unfold symbolRun
    split
    · simp [ih]
    · rfl

theorem splitBlock?_cons {c : Char} {rest : List Char}
    (runsOn : ¬ (c = '*' ∧ rest.head? = some '/')) :
    splitBlock? (c :: rest) =
      (splitBlock? rest).map fun (body, behind) => (c :: body, behind) := by
  rw [splitBlock?]
  rintro tail rfl rfl
  exact runsOn ⟨rfl, rfl⟩

theorem blockEnd_infix_cons {c : Char} {text : List Char}
    (found : ['*', '/'] <:+: c :: text) :
    (c = '*' ∧ text.head? = some '/') ∨ ['*', '/'] <:+: text := by
  obtain ⟨tail, same⟩ | inside := List.infix_cons_iff.mp found
  · obtain ⟨rfl, rfl⟩ := List.cons.inj same
    exact .inl ⟨rfl, rfl⟩
  · exact .inr inside

theorem splitBlock?_eq_none {text : List Char} (missing : splitBlock? text = none) :
    ¬ ['*', '/'] <:+: text := by
  induction text with
  | nil => simp
  | cons c rest ih =>
    intro found
    by_cases closes : c = '*' ∧ rest.head? = some '/'
    · obtain ⟨rfl, head⟩ := closes
      obtain ⟨tail, rfl⟩ := List.head?_eq_some_iff.mp head
      simp [splitBlock?] at missing
    · rw [splitBlock?_cons closes, Option.map_eq_none_iff] at missing
      exact (blockEnd_infix_cons found).elim closes (ih missing)

theorem splitBlock?_eq_some {text body behind : List Char}
    (found : splitBlock? text = some (body, behind)) :
    text = body ++ ['*', '/'] ++ behind ∧ ¬ ['*', '/'] <:+: body ++ ['*'] := by
  induction text generalizing body with
  | nil => simp [splitBlock?] at found
  | cons c rest ih =>
    by_cases closes : c = '*' ∧ rest.head? = some '/'
    · obtain ⟨rfl, head⟩ := closes
      obtain ⟨tail, rfl⟩ := List.head?_eq_some_iff.mp head
      simp only [splitBlock?, Option.some.injEq, Prod.mk.injEq] at found
      obtain ⟨rfl, rfl⟩ := found
      refine ⟨rfl, fun early => ?_⟩
      have short := early.length_le
      simp at short
    · rw [splitBlock?_cons closes, Option.map_eq_some_iff] at found
      obtain ⟨⟨inner, behind⟩, later, same⟩ := found
      cases same
      obtain ⟨rfl, first⟩ := ih later
      refine ⟨rfl, fun early => (blockEnd_infix_cons early).elim ?_ first⟩
      rintro ⟨rfl, head⟩
      refine closes ⟨rfl, ?_⟩
      cases inner with
      | nil => simp at head
      | cons d inner => simpa using head

theorem firstLine_eq (text : List Char) :
    firstLine text =
      text.takeWhile (· != '\n') ++ if text.contains '\n' then ['\n'] else [] := by
  induction text with
  | nil => rfl
  | cons c rest ih =>
    by_cases newline : c = '\n'
    · simp [firstLine, newline]
    · simp [firstLine, newline, Ne.symm newline, ih]

theorem furtherLines_eq_nil {text : List Char} (flat : text.contains '\n' = false) :
    furtherLines text = [] := by
  induction text with
  | nil => rfl
  | cons c rest ih =>
    simp only [List.contains_cons, Bool.or_eq_false_iff, beq_eq_false_iff_ne] at flat
    simp only [furtherLines, if_neg (Ne.symm flat.1), ih flat.2]

theorem text_symbolPiece (run left : List Char) :
    (symbolPiece run left).1.text ++ (symbolPiece run left).2 = run ++ left := by
  unfold symbolPiece
  split
  · next slashes =>
    simp only [Piece.text, slashes, List.append_assoc, ← firstLine_eq,
      firstLine_append_furtherLines]
  · split
    · next opening =>
      split
      · next body behind found =>
        simp [Piece.text, opening, (splitBlock?_eq_some found).1]
      · simp [Piece.text]
    · rfl

theorem text_literalPiece (run rest : List Char) :
    (literalPiece run rest).1.text ++ (literalPiece run rest).2 = run ++ rest := by
  induction rest generalizing run with
  | nil => simp [literalPiece, Piece.text]
  | cons c rest ih =>
    unfold literalPiece
    split
    · split
      · simp [text_closedPiece]
      · simpa using ih (run ++ [c])
    · split
      · next newline => simp [Piece.text, newline]
      · simpa using ih (run ++ [c])

theorem text_front (c : Char) (rest : List Char) :
    (front c rest).1.text ++ (front c rest).2 = c :: rest := by
  unfold front
  split
  · simp [wordPiece, Piece.text]
  · simp [text_numberPiece]
  · simp only [text_symbolPiece, List.cons_append, symbolRun_append_drop]
  · simp only [text_symbolPiece, List.cons_append, symbolRun_append_drop]
  · exact text_literalPiece [c] rest
  all_goals rfl

theorem wordKind_ne_endOfStream (word : List Char) (next : Option Char) :
    wordKind word next ≠ .endOfStream := by
  unfold wordKind Kind.keyword?
  split
  · simp
  · cases found : (Kind.ofSurface? (String.ofList word)).filter Kind.isReserved with
    | none =>
      rw [Option.getD_none]
      split <;> simp
    | some kind =>
      rintro rfl
      simp [Option.filter_eq_some_iff, Kind.isReserved_iff] at found

theorem symbolKind_ne_endOfStream (run : List Char) : symbolKind run ≠ .endOfStream := by
  unfold symbolKind Kind.symbol?
  cases found : (Kind.ofSurface? (String.ofList run)).filter (·.category == .symbol) with
  | none => simp
  | some kind =>
    rintro rfl
    simp [Option.filter_eq_some_iff, Kind.category] at found

theorem fits_numberPiece {run left : List Char} (started : run ≠ []) :
    (numberPiece run left).Fits left := by
  unfold numberPiece
  split
  · exact ⟨by simp, started⟩
  · exact ⟨started, rfl⟩

theorem fits_closedPiece {lexeme left : List Char} (started : lexeme ≠ []) :
    (closedPiece lexeme left).Fits left := by
  unfold closedPiece
  split
  · next kind wrong =>
    refine ⟨started, ?_⟩
    unfold Quote.problem? at wrong
    split at wrong
    · cases wrong
      rfl
    · split at wrong
      · cases wrong
        rfl
      · cases wrong
  · exact ⟨by simp [literalKind], started⟩

theorem fits_symbolPiece {run left : List Char} (started : run ≠ []) :
    (symbolPiece run left).1.Fits (symbolPiece run left).2 := by
  unfold symbolPiece
  split
  · refine ⟨fun inside => ?_, furtherLines_eq_nil⟩
    have before := List.all_takeWhile (l := left) (p := (· != '\n'))
    simpa using List.all_eq_true.mp before _ inside
  · split
    · split
      · next found => exact (splitBlock?_eq_some found).2
      · next missing => exact ⟨started, rfl, splitBlock?_eq_none missing⟩
    · exact ⟨symbolKind_ne_endOfStream run, started⟩

theorem loses_unterminated (run : List Char) {lost behind : List Char}
    (cut : lost = ['\n'] ∨ lost = [] ∧ behind = []) :
    Piece.Loses (unterminatedKind run) lost behind := by
  unfold unterminatedKind
  split <;> exact cut

theorem fits_literalPiece (run rest : List Char) (started : run ≠ []) :
    (literalPiece run rest).1.Fits (literalPiece run rest).2 := by
  induction rest generalizing run with
  | nil => exact ⟨started, loses_unterminated run (.inr ⟨rfl, rfl⟩)⟩
  | cons c rest ih =>
    have further := ih (run ++ [c]) (by simp)
    unfold literalPiece
    split
    · split
      · exact fits_closedPiece (by simp)
      · exact further
    · split
      · exact ⟨started, loses_unterminated run (.inl rfl)⟩
      · exact further

theorem fits_front (c : Char) (rest : List Char) :
    (front c rest).1.Fits (front c rest).2 := by
  unfold front
  split
  · exact ⟨wordKind_ne_endOfStream _ _, by simp⟩
  · exact fits_numberPiece (by simp)
  · exact fits_symbolPiece (by simp)
  · exact fits_symbolPiece (by simp)
  · exact fits_literalPiece [c] rest (by simp)
  · next sort => exact .inl sort
  · next sort => exact .inr sort
  · exact ⟨by simp, rfl⟩
  · exact ⟨by simp, rfl⟩

theorem length_front_lt (c : Char) (rest : List Char) :
    (front c rest).2.length < (c :: rest).length := by
  have nonempty := List.length_pos_iff.mpr (fits_front c rest).text_ne_nil
  rw [← text_front c rest, List.length_append]
  omega

def pieces : List Char → List Piece
  | [] => []
  | c :: rest => (front c rest).1 :: pieces (front c rest).2
termination_by text => text.length
decreasing_by exact length_front_lt c rest

end CherryLang.Lexical
