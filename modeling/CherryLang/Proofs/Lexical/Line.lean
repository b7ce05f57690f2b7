import CherryLang.Proofs.Lexical.LineBreak
import CherryLang.Proofs.Lexical.Quotation
import CherryLang.Proofs.Text.Cut

namespace CherryLang.Lexical
open Text

def lineFrom? (text : List Char) (span : Span) : Option (List Char) :=
  (text.splitOn '\n')[span.line - 1]?.map fun line => line.drop (span.column - 1)

theorem lineFrom?_place (before behind : List Char) :
    lineFrom? (before ++ behind) (place before) = some (behind.takeWhile (· != '\n')) := by
  have line : (place before).line - 1 = before.count '\n' := by simp [place]
  have column : (place before).column - 1 = (before.rtakeWhile (· != '\n')).length := by
    simp [place, List.rtakeWhile]
  rw [lineFrom?, line, column, getElem?_splitOn_append, Option.map_some, List.drop_left]

/-- A line without the carriage returns at its end. -/
def bare (line : List Char) : List Char := line.rdropWhile (· == '\r')

theorem toList_trimLine_firstLine (text : List Char) :
    (trimLine (String.ofList (firstLine text))).toList = bare (text.takeWhile (· != '\n')) := by
  have inline : ∀ c ∈ text.takeWhile (· != '\n'), (c == '\r' || c == '\n') = (c == '\r') := by
    intro c member
    have other := List.all_eq_true.mp List.all_takeWhile c member
    have distinct : c ≠ '\n' := by simpa using other
    simp [distinct]
  have trimmed : (trimLine (String.ofList (firstLine text))).toList =
      (firstLine text).rdropWhile fun c => c == '\r' || c == '\n' := by
    simp [trimLine, List.rdropWhile]
  rw [trimmed, bare, ← rdropWhile_congr inline, firstLine_eq]
  split
  · rw [List.rdropWhile_concat_pos _ _ _ (by simp)]
  · rw [List.append_nil]

theorem bare_toList_quotedLine (lexeme left : List Char) :
    bare (quotedLine lexeme left).toList = bare (lexeme ++ left.takeWhile (· != '\n')) := by
  rw [quotedLine, String.toList_append, String.toList_ofList, toList_trimLine_firstLine, bare, bare,
    rdropWhile_append_rdropWhile, bare]

/-- An error quotes what begins with its lexeme. That is the line from the lexeme on, as the
characters `ahead` end it, except for an open comment. -/
structure Quoting (kind : ErrorKind) (lexeme : List Char) (quoted : String) (ahead : List Char) :
    Prop where
  flat : '\n' ∉ lexeme
  begins : lexeme <+: quoted.toList
  whole : kind ≠ .unterminatedComment →
    bare quoted.toList = bare (lexeme ++ ahead.takeWhile (· != '\n'))
  opening : kind = .unterminatedComment → lexeme = ['/', '*'] ∧ quoted = "/*"

def Piece.Quotes : Piece → List Char → Prop
  | .error kind lexeme lost quoted, behind => Quoting kind lexeme quoted (lost ++ behind)
  | .blank _, _ | .line _ _, _ | .block _, _ | .token _ _, _ => True

theorem quoting_quotedLine {kind : ErrorKind} (closed : kind ≠ .unterminatedComment)
    {lexeme : List Char} (flat : '\n' ∉ lexeme) (left : List Char) :
    Quoting kind lexeme (quotedLine lexeme left) left where
  flat := flat
  begins := by simp [quotedLine]
  whole _ := bare_toList_quotedLine lexeme left
  opening comment := absurd comment closed

theorem unterminatedKind_ne_comment (run : List Char) :
    unterminatedKind run ≠ .unterminatedComment := by
  unfold unterminatedKind
  split <;> simp

theorem quoting_run {run : List Char} (flat : '\n' ∉ run) {left : List Char}
    (ended : left.takeWhile (· != '\n') = []) :
    Quoting (unterminatedKind run) run (String.ofList run) left where
  flat := flat
  begins := by simp
  whole _ := by simp [ended]
  opening comment := absurd comment (unterminatedKind_ne_comment run)

theorem quotes_numberPiece {run : List Char} (flat : '\n' ∉ run) (left : List Char) :
    (numberPiece run left).Quotes left := by
  unfold numberPiece
  split
  · trivial
  · exact quoting_quotedLine (by simp) flat left

theorem quotes_closedPiece {lexeme : List Char} (flat : '\n' ∉ lexeme) (left : List Char) :
    (closedPiece lexeme left).Quotes left := by
  unfold closedPiece
  split
  · next kind wrong =>
    refine quoting_quotedLine ?_ flat left
    rintro rfl
    unfold Quote.problem? at wrong
    grind
  · trivial

theorem quotes_symbolPiece (run left : List Char) :
    (symbolPiece run left).1.Quotes (symbolPiece run left).2 := by
  unfold symbolPiece
  split
  · trivial
  · split
    · next opening =>
      split
      · trivial
      · rw [opening]
        exact ⟨by simp, by simp, fun other => absurd rfl other, fun _ => ⟨rfl, rfl⟩⟩
    · trivial

theorem quotes_literalPiece {run : List Char} (flat : '\n' ∉ run) (rest : List Char) :
    (literalPiece run rest).1.Quotes (literalPiece run rest).2 := by
  induction rest generalizing run with
  | nil => exact quoting_run flat rfl
  | cons c rest ih =>
    have longer (inline : c ≠ '\n') : '\n' ∉ run ++ [c] := by simp [flat, Ne.symm inline]
    unfold literalPiece
    split
    · next quote =>
      have inline : c ≠ '\n' := by
        rintro rfl
        simp [of_newline] at quote
      split
      · exact quotes_closedPiece (longer inline) rest
      · exact ih (longer inline)
    · split
      · exact quoting_run flat (by simp)
      · next inline => exact ih (longer inline)

theorem quotes_front (c : Char) (rest : List Char) :
    (front c rest).1.Quotes (front c rest).2 := by
  have inline (visible : InputClass.of c ≠ .newline) : c ≠ '\n' := by
    rintro rfl
    exact visible of_newline
  unfold front
  split
  · trivial
  · next sort =>
    refine quotes_numberPiece (fun member => ?_) _
    obtain first | later := List.mem_cons.mp member
    · exact inline (by simp [sort]) first.symm
    · have kept := List.all_eq_true.mp List.all_takeWhile _ later
      simp [State.keeps, of_newline, State.next] at kept
  · exact quotes_symbolPiece _ _
  · exact quotes_symbolPiece _ _
  · next sort => exact quotes_literalPiece (by simpa using (inline (by simp [sort])).symm) rest
  · trivial
  · trivial
  · next sort =>
    exact quoting_quotedLine (by simp) (by simpa using (inline (by simp [sort])).symm) rest
  · next sort =>
    exact quoting_quotedLine (by simp) (by simpa using (inline (by simp [sort])).symm) rest

theorem mem_emitted {file : FileId} {before : List Char} {pieces : List Piece} {item : Item}
    (member : item ∈ emitted file before pieces) (inner : item.isLast = false) :
    ∃ done piece later, pieces = done ++ piece :: later ∧
      piece.item? file (place (before ++ done.flatMap Piece.text)) = some item := by
  induction pieces generalizing before with
  | nil =>
    obtain rfl := List.mem_singleton.mp member
    simp [Item.isLast] at inner
  | cons piece pieces ih =>
    obtain here | later := List.mem_append.mp member
    · exact ⟨[], piece, pieces, rfl, by simpa using here⟩
    · obtain ⟨done, found, rest, split, emits⟩ := ih later
      refine ⟨piece :: done, found, rest, by rw [split, List.cons_append], ?_⟩
      rw [List.flatMap_cons, ← List.append_assoc]
      exact emits

theorem quoting_of_mem_emitted {file : FileId} {text : List Char} {e : Error}
    (member : .error e ∈ emitted file [] (pieces text)) :
    ∃ before ahead, text = before ++ (e.lexeme.toList ++ ahead) ∧ e.span = place before ∧
      e.lexeme ≠ "" ∧ Quoting e.kind e.lexeme.toList e.lineText ahead := by
  obtain ⟨done, piece, later, split, emits⟩ := mem_emitted member rfl
  obtain ⟨c, rest, inside, rfl, -⟩ := pieces_split split
  have quotes := quotes_front c rest
  have fits := fits_front c rest
  have whole := text_front c rest
  generalize (front c rest).1 = piece at emits quotes fits whole
  cases piece with
  | blank d | line body closed | block body | token kind lexeme => cases emits
  | error kind lexeme lost quoted =>
    cases emits
    refine ⟨done.flatMap Piece.text, lost ++ (front c rest).2, ?_, rfl, ?_, ?_⟩
    · simp [← inside, ← whole, Piece.text]
    · simpa [← String.toList_inj] using fits.1
    · rw [String.toList_ofList]
      exact quotes

/-- An error quotes `line`, up to carriage returns at the end. -/
def Error.QuotesLine (e : Error) (line : List Char) : Prop := bare e.lineText.toList = bare line

theorem bare_append_eq_self_iff {lexeme : List Char} (solid : bare lexeme = lexeme)
    (rest : List Char) : lexeme = bare (lexeme ++ rest) ↔ ∀ c ∈ rest, c = '\r' := by
  constructor
  · intro same c member
    have split := List.rdropWhile_append_rtakeWhile (p := (· == '\r')) (l := lexeme ++ rest)
    rw [← bare, ← same, List.append_cancel_left_eq] at split
    rw [← split] at member
    simpa using List.mem_rtakeWhile_imp member
  · intro returns
    have none : rest.rdropWhile (· == '\r') = [] :=
      List.rdropWhile_eq_nil_iff.mpr (by simpa using returns)
    rw [bare, ← rdropWhile_append_rdropWhile, none, List.append_nil, ← bare, solid]

/-- What an error says about the line it is in, from its place on. -/
structure Error.InLine (e : Error) (line : List Char) : Prop where
  lexeme : e.lexeme ≠ "" ∧ e.lexeme.toList <+: line
  begins : e.lexeme.toList <+: e.lineText.toList
  whole : e.kind ≠ .unterminatedComment → e.QuotesLine line
  /-- An open comment quotes its line only if nothing else is in it. -/
  opening : e.kind = .unterminatedComment → e.lexeme = "/*" ∧ e.lineText = "/*" ∧
    (e.QuotesLine line ↔ ∀ c ∈ line.drop 2, c = '\r')

theorem Quoting.inLine {e : Error} {ahead : List Char} (some : e.lexeme ≠ "")
    (quoting : Quoting e.kind e.lexeme.toList e.lineText ahead) :
    e.InLine (e.lexeme.toList ++ ahead.takeWhile (· != '\n')) where
  lexeme := ⟨some, List.prefix_append _ _⟩
  begins := quoting.begins
  whole := quoting.whole
  opening comment := by
    obtain ⟨lexeme, quoted⟩ := quoting.opening comment
    have solid : bare ['/', '*'] = ['/', '*'] := by decide
    refine ⟨String.toList_inj.mp lexeme, quoted, ?_⟩
    rw [Error.QuotesLine, lexeme, quoted]
    exact bare_append_eq_self_iff solid _

/-- For every text and every error of its scan, whatever its kind, the place is in a line of the
text, the lexeme begins there, and what the error quotes begins with the lexeme. It is the rest of
the line unless the error is an open comment; that one quotes no more than its opening. -/
theorem scan_error_lines (file : FileId) (text : String) :
    ∃ scanned, scan file (.ofText text) = .ok scanned ∧
      ∀ e ∈ scanned.errors, ∃ line, lineFrom? text.toList e.span = some line ∧ e.InLine line := by
  refine ⟨_, scan_ofText file text, fun e member => ?_⟩
  obtain ⟨item, emits, picked⟩ := List.mem_filterMap.mp member
  cases item with
  | token t | failure f => cases picked
  | error found =>
    cases picked
    obtain ⟨before, ahead, split, here, some, quoting⟩ := quoting_of_mem_emitted emits
    refine ⟨_, ?_, quoting.inLine some⟩
    rw [split, here, lineFrom?_place, takeWhile_append_of_flat quoting.flat]

/-- A comment that is open at the end of its line does not quote that line. -/
theorem not_quotesLine_open_comment :
    ∃ scanned e, scan {} (.ofText "/* abc") = .ok scanned ∧ e ∈ scanned.errors ∧
      lineFrom? "/* abc".toList e.span = some "/* abc".toList ∧ e.lineText = "/*" ∧
      ¬ e.QuotesLine "/* abc".toList := by
  refine ⟨_, ⟨.unterminatedComment, ⟨1, 1⟩, "/*", "/*"⟩, scan_ofText {} "/* abc", ?_, ?_, rfl, ?_⟩
  · decide +kernel
  · decide
  · unfold Error.QuotesLine
    decide

end CherryLang.Lexical
