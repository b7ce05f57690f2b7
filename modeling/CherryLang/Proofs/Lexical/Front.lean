import CherryLang.Proofs.Lexical.Piece

/-! A step of the scan finds the first piece of what is ahead: it emits what the piece emits, and
the cursor ends up right behind the text of the piece, with the marks it had before. -/
namespace CherryLang.Lexical
open Cursor

section

variable (marks : List Position)

/-- One step of `skipLine`, without the equation that its recursion carries. -/
theorem skipLine_step (r : Cursor) :
    skipLine r = match r.read with
      | (.error e, r') => (.error e, r')
      | (.ok none, r') => (.ok (), r')
      | (.ok (some c), r') => if c = '\n' then (.ok (), r') else skipLine r' := by
  rw [skipLine]
  split <;> simp only [*]

theorem skipLine_standing (here left : List Char) (atEnd : Bool) :
    ∃ ended, skipLine (standing here left marks atEnd) =
      (.ok (), standing (here ++ firstLine left) (furtherLines left) marks ended) := by
  induction left generalizing here with
  | nil =>
    refine ⟨true, ?_⟩
    rw [skipLine_step]
    simp [firstLine, furtherLines]
  | cons c left ih =>
    rw [skipLine_step]
    by_cases newline : c = '\n'
    · refine ⟨atEnd, ?_⟩
      simp [firstLine, furtherLines, newline]
    · obtain ⟨ended, later⟩ := ih (here ++ [c])
      refine ⟨ended, ?_⟩
      simp [firstLine, furtherLines, newline, later]

theorem skipBlock_step (previous : Option Char) (r : Cursor) :
    skipBlock previous r = match r.read with
      | (.error e, r') => (.error e, r')
      | (.ok none, r') => (.ok false, r')
      | (.ok (some c), r') =>
        if c = '/' ∧ previous = some '*' then (.ok true, r') else skipBlock (some c) r' := by
  rw [skipBlock]
  split <;> simp only [*]

theorem cons_tail_of_splitBlock? {c : Char} {left body behind : List Char}
    (found : splitBlock? (c :: left) = some (body, behind)) :
    c :: (body ++ ['*', '/']).tail = body ++ ['*', '/'] := by
  obtain ⟨same, -⟩ := splitBlock?_eq_some found
  cases body with
  | nil => simp_all
  | cons d inner => simp_all

theorem skipBlock_standing (previous : Char) (here left : List Char) (atEnd : Bool) :
    skipBlock (some previous) (standing here left marks atEnd) =
      match splitBlock? (previous :: left) with
      | some (body, behind) =>
        (.ok true, standing (here ++ (body ++ ['*', '/']).tail) behind marks atEnd)
      | none => (.ok false, standing (here ++ left) [] marks true) := by
  induction left generalizing previous here with
  | nil =>
    rw [skipBlock_step]
    simp [splitBlock?]
  | cons c left ih =>
    rw [skipBlock_step]
    by_cases closes : c = '/' ∧ previous = '*'
    · obtain ⟨rfl, rfl⟩ := closes
      simp [splitBlock?]
    · have runsOn : ¬ (previous = '*' ∧ (c :: left).head? = some '/') := by
        rintro ⟨rfl, head⟩
        exact closes ⟨by simpa using head, rfl⟩
      have step : ¬ (c = '/' ∧ some previous = some '*') := by simpa using closes
      simp only [read_standing_cons, if_neg step, ih c, splitBlock?_cons runsOn]
      cases found : splitBlock? (c :: left) with
      | none => simp
      | some parts =>
        simp only [Option.map_some, List.append_assoc, List.cons_append, List.nil_append,
          cons_tail_of_splitBlock? found, List.tail_cons]

theorem skipBlock_none_standing (here left : List Char) (atEnd : Bool) :
    skipBlock none (standing here left marks atEnd) =
      match splitBlock? left with
      | some (body, behind) =>
        (.ok true, standing (here ++ (body ++ ['*', '/'])) behind marks atEnd)
      | none => (.ok false, standing (here ++ left) [] marks true) := by
  cases left with
  | nil =>
    rw [skipBlock_step]
    simp [splitBlock?]
  | cons c left =>
    rw [skipBlock_step]
    simp only [read_standing_cons, reduceCtorEq, and_false, if_false, skipBlock_standing]
    cases found : splitBlock? (c :: left) with
    | none => simp
    | some parts =>
      simp only [List.append_assoc, List.singleton_append, cons_tail_of_splitBlock? found]

end

section

variable (file : FileId) (before : List Char) (marks : List Position)

/-- `result` is the outcome of a step that began behind `before` and found `piece`. -/
def Covers (piece : Piece) (left : List Char) (result : Option Item × Cursor) : Prop :=
  ∃ ended, result = (piece.item? file (spanAt (.behind before)),
    standing (before ++ piece.text) left marks ended)

variable {before marks}

theorem emitToken_covers (kind : Kind) (lexeme left : List Char) (atEnd : Bool) :
    Covers file before marks (.token kind lexeme) left
      (emitToken file kind (String.ofList lexeme) (.behind before)
        (standing (before ++ lexeme) left marks atEnd)) :=
  ⟨atEnd, rfl⟩

theorem emitError_covers (kind : ErrorKind) (lexeme left : List Char) (atEnd : Bool) :
    Covers file before marks (.error kind lexeme [] (quotedLine lexeme left)) left
      (emitError kind (String.ofList lexeme) (.behind before)
        (standing (before ++ lexeme) left marks atEnd)) := by
  refine ⟨atEnd, ?_⟩
  simp only [emitError, peekLine_standing, quotedLine, Piece.item?, Piece.text, List.append_nil]

theorem nextIs_standing (c : Char) (left here : List Char) (atEnd : Bool) :
    nextIs c (standing here left marks atEnd) =
      (.ok (left.head? == some c), standing here left marks false) := by
  cases left with
  | nil => simp [nextIs]
  | cons d left => simp [nextIs]

theorem finishWord_covers (word left : List Char) (atEnd : Bool) :
    Covers file before marks (wordPiece word left) left
      (finishWord file (String.ofList word) (.behind before)
        (standing (before ++ word) left marks atEnd)) := by
  unfold finishWord wordPiece wordKind
  cases Kind.keyword? (String.ofList word) with
  | some kind => exact emitToken_covers file kind word left atEnd
  | none =>
    simp only [nextIs_standing, Option.getD_none]
    by_cases called : left.head? = some '('
    · simpa [called] using emitToken_covers file .methodIdentifier word left false
    · have other : (left.head? == some '(') = false := by simpa using called
      simpa [called, other] using emitToken_covers file .identifier word left false

theorem finishNumber_covers (run left : List Char) (atEnd : Bool) :
    Covers file before marks (numberPiece run left) left
      (finishNumber file (String.ofList run) (.behind before)
        (standing (before ++ run) left marks atEnd)) := by
  unfold finishNumber numberPiece
  rw [String.toList_ofList]
  cases Number.classify? run with
  | some form => exact emitToken_covers file _ run left atEnd
  | none => exact emitError_covers file _ run left atEnd

theorem finishLiteral_covers (lexeme left : List Char) (atEnd : Bool) :
    Covers file before marks (closedPiece lexeme left) left
      (finishLiteral file (String.ofList lexeme) (.behind before)
        (standing (before ++ lexeme) left marks atEnd)) := by
  unfold finishLiteral closedPiece
  rw [String.toList_ofList]
  cases Quote.problem? lexeme with
  | some kind => exact emitError_covers file kind lexeme left atEnd
  | none => exact emitToken_covers file _ lexeme left atEnd

theorem finishSymbol_covers (run left : List Char) (atEnd : Bool) :
    Covers file before marks (symbolPiece run left).1 (symbolPiece run left).2
      (finishSymbol file (String.ofList run) (.behind before)
        (standing (before ++ run) left marks atEnd)) := by
  have slashes : String.ofList run = "//" ↔ run = ['/', '/'] := by
    rw [← String.toList_inj]; simp
  have opening : String.ofList run = "/*" ↔ run = ['/', '*'] := by
    rw [← String.toList_inj]; simp
  unfold finishSymbol symbolPiece
  simp only [slashes, opening]
  split
  · next comment =>
    obtain ⟨ended, skipped⟩ := skipLine_standing marks (before ++ run) left atEnd
    rw [skipped]
    refine ⟨ended, ?_⟩
    simp only [Piece.item?, Piece.text, comment, ← firstLine_eq, List.append_assoc]
  · split
    · next comment =>
      rw [skipBlock_none_standing]
      cases splitBlock? left with
      | none => exact ⟨true, by simp [Piece.item?, Piece.text, comment]⟩
      | some parts => exact ⟨atEnd, by simp [Piece.item?, Piece.text, comment]⟩
    · exact emitToken_covers file _ run left atEnd

theorem scanFrom_step (state : State) (run : String) (start : Position) (r : Cursor) :
    scanFrom file state run start r = match r.mark.read with
      | (.error e, r') => (some (.failure e), r')
      | (.ok none, r') =>
        match state.next .eof with
        | .stop => emitToken file .endOfStream "" start r'.drop
        | .error => emitUnexpected state none run start r'.drop
        | _ => endRun file state run start r'
      | (.ok (some c), r') =>
        if state = .literal ∧ InputClass.of c = .quote then
          if Quote.closes (run.push c).toList then finishLiteral file (run.push c) start r'.drop
          else scanFrom file state (run.push c) start r'.drop
        else if state = .symbol ∧ state.next (.of c) = .symbol ∧ !extendsSymbol run c then
          endRun file state run start r'
        else
          match state.next (.of c) with
          | .start =>
            if state = .start then scanFrom file .start run r'.position r'.drop
            else endRun file state run start r'
          | .stop => emitToken file .endOfStream "" start r'.drop
          | .error => emitUnexpected state (some c) run start r'.drop
          | grown => scanFrom file grown (run.push c) start r'.drop := by
  rw [scanFrom]
  split
  all_goals
    next found =>
    generalize r.mark.read = result at found ⊢
    subst found
    rfl

theorem scanFrom_grows {state next : State} {run here rest : List Char} {c : Char}
    (goes : state.next (.of c) = next) (accumulates : next.isAccumulating)
    (unquoted : ¬ (state = .literal ∧ InputClass.of c = .quote))
    (known : state = .symbol → next = .symbol → extendsSymbol (String.ofList run) c)
    (start : Position) (atEnd : Bool) :
    scanFrom file state (String.ofList run) start (standing here (c :: rest) marks atEnd) =
      scanFrom file next (String.ofList (run ++ [c])) start
        (standing (here ++ [c]) rest marks atEnd) := by
  have long : ¬ (state = .symbol ∧ next = .symbol ∧ !extendsSymbol (String.ofList run) c) := by
    rintro ⟨symbol, stays, short⟩
    simp [known symbol stays] at short
  rw [scanFrom_step]
  simp only [mark_standing, read_standing_cons, drop_standing, push_ofList, goes, if_neg unquoted,
    if_neg long]
  cases next with
  | word | number | literal | symbol => rfl
  | start | error | stop => simp [State.isAccumulating] at accumulates

theorem scanFrom_nil {state : State} (ends : state.next .eof = .start) (run here : List Char)
    (start : Position) (atEnd : Bool) :
    scanFrom file state (String.ofList run) start (standing here [] marks atEnd) =
      finishRun file state (String.ofList run) start (standing here [] marks false) := by
  rw [scanFrom_step]
  simp only [mark_standing, read_standing_nil, ends, endRun, rewind_standing_nil]

theorem scanFrom_leaves {state : State} {c : Char} (goes : state.next (.of c) = .start)
    (begun : state ≠ .start) (unquoted : state ≠ .literal) (run rest here : List Char)
    (start : Position) (atEnd : Bool) :
    scanFrom file state (String.ofList run) start (standing here (c :: rest) marks atEnd) =
      finishRun file state (String.ofList run) start (standing here (c :: rest) marks false) := by
  rw [scanFrom_step]
  simp [goes, begun, unquoted, endRun]

theorem scanFrom_symbol_stops {run : List Char} {c : Char}
    (goes : State.symbol.next (.of c) = .symbol)
    (short : extendsSymbol (String.ofList run) c = false) (rest here : List Char)
    (start : Position) (atEnd : Bool) :
    scanFrom file .symbol (String.ofList run) start (standing here (c :: rest) marks atEnd) =
      finishRun file .symbol (String.ofList run) start
        (standing here (c :: rest) marks false) := by
  rw [scanFrom_step]
  simp [goes, short, endRun]

theorem of_newline : InputClass.of '\n' = .newline := by decide

theorem eq_newline_of_class {c : Char} (sort : InputClass.of c = .newline) : c = '\n' := by
  grind [InputClass.of]

theorem of_ne_eof (c : Char) : InputClass.of c ≠ .eof := by
  grind [InputClass.of]

theorem next_literal {c : Char} (unquoted : InputClass.of c ≠ .quote) (inside : c ≠ '\n') :
    State.literal.next (.of c) = .literal := by
  cases sort : InputClass.of c with
  | quote => exact absurd sort unquoted
  | newline => exact absurd (eq_newline_of_class sort) inside
  | eof => exact absurd sort (of_ne_eof c)
  | letter | digit | dot | symbol | whitespace | other => rfl

theorem next_eq_start {state : State} (plain : state = .word ∨ state = .number ∨ state = .symbol)
    {c : Char} (leaves : state.keeps c = false) : state.next (.of c) = .start := by
  obtain rfl | rfl | rfl := plain <;> cases sort : InputClass.of c <;>
    simp_all [State.keeps, State.next]

theorem scanFrom_keeping {state : State} (plain : state = .word ∨ state = .number)
    (run rest here : List Char) (start : Position) (atEnd : Bool) :
    scanFrom file state (String.ofList run) start (standing here rest marks atEnd) =
      finishRun file state (String.ofList (run ++ rest.takeWhile state.keeps)) start
        (standing (here ++ rest.takeWhile state.keeps) (rest.dropWhile state.keeps) marks
          false) := by
  have other : state ≠ .start ∧ state ≠ .literal ∧ state ≠ .symbol := by
    obtain rfl | rfl := plain <;> simp
  obtain ⟨begun, unquoted, worded⟩ := other
  induction rest generalizing run here with
  | nil =>
    have ends : state.next .eof = .start := by obtain rfl | rfl := plain <;> rfl
    simp only [List.takeWhile_nil, List.dropWhile_nil, List.append_nil]
    exact scanFrom_nil file ends run here start atEnd
  | cons c rest ih =>
    by_cases keeps : state.keeps c = true
    · have goes : state.next (.of c) = state := by simpa [State.keeps] using keeps
      have accumulates : state.isAccumulating := by obtain rfl | rfl := plain <;> rfl
      rw [scanFrom_grows file goes accumulates (fun quoted => unquoted quoted.1)
        (fun symbol => absurd symbol worded), ih, List.takeWhile_cons_of_pos keeps,
        List.dropWhile_cons_of_pos keeps]
      simp only [List.append_assoc, List.singleton_append]
    · rw [List.takeWhile_cons_of_neg keeps, List.dropWhile_cons_of_neg keeps, List.append_nil,
        List.append_nil]
      have goes := next_eq_start (plain.imp_right .inl) (Bool.eq_false_iff.mpr keeps)
      exact scanFrom_leaves file goes begun unquoted run rest here start atEnd

theorem scanFrom_symbol (run rest here : List Char) (start : Position) (atEnd : Bool) :
    scanFrom file .symbol (String.ofList run) start (standing here rest marks atEnd) =
      finishSymbol file (String.ofList (run ++ symbolRun run rest)) start
        (standing (here ++ symbolRun run rest) (rest.drop (symbolRun run rest).length) marks
          false) := by
  induction rest generalizing run here with
  | nil =>
    simp only [symbolRun, List.append_nil, List.drop_nil]
    exact scanFrom_nil file rfl run here start atEnd
  | cons c rest ih =>
    by_cases keeps : State.symbol.keeps c = true
    · have goes : State.symbol.next (.of c) = .symbol := by simpa [State.keeps] using keeps
      by_cases known : extendsSymbol (String.ofList run) c = true
      · rw [scanFrom_grows file goes rfl (by simp) (fun _ _ => known), ih]
        simp only [symbolRun, keeps, known, Bool.and_self, if_true, List.append_assoc,
          List.singleton_append, List.length_cons, List.drop_succ_cons]
      · have short := Bool.eq_false_iff.mpr known
        simp only [symbolRun, keeps, short, Bool.and_false, Bool.false_eq_true, if_false,
          List.append_nil, List.length_nil, List.drop_zero]
        exact scanFrom_symbol_stops file goes short rest here start atEnd
    · have leaves := Bool.eq_false_iff.mpr keeps
      simp only [symbolRun, leaves, Bool.false_and, Bool.false_eq_true, if_false, List.append_nil,
        List.length_nil, List.drop_zero]
      have goes := next_eq_start (by simp) leaves
      exact scanFrom_leaves file goes (by simp) (by simp) run rest here start atEnd

theorem scanFrom_literal (run rest : List Char) (atEnd : Bool) :
    Covers file before marks (literalPiece run rest).1 (literalPiece run rest).2
      (scanFrom file .literal (String.ofList run) (.behind before)
        (standing (before ++ run) rest marks atEnd)) := by
  induction rest generalizing run with
  | nil =>
    refine ⟨true, ?_⟩
    rw [scanFrom_step]
    simp [State.next, literalPiece, emitUnexpected, Piece.item?, Piece.text, unterminatedKind]
  | cons c rest ih =>
    have further := ih (run ++ [c])
    rw [← List.append_assoc] at further
    unfold literalPiece
    split
    · next quote =>
      rw [scanFrom_step]
      simp only [mark_standing, read_standing_cons, drop_standing, push_ofList,
        String.toList_ofList, quote, and_self, if_true]
      rw [List.append_assoc] at further ⊢
      split
      · exact finishLiteral_covers file (run ++ [c]) rest atEnd
      · exact further
    · next unquoted =>
      split
      · next newline =>
        refine ⟨atEnd, ?_⟩
        rw [scanFrom_step]
        simp [newline, of_newline, State.next, emitUnexpected, Piece.item?, Piece.text,
          unterminatedKind]
      · next inside =>
        rw [scanFrom_grows file (next_literal unquoted inside) rfl (fun quoted => unquoted quoted.2)
          (by simp)]
        exact further

theorem scanLexeme_covers {c : Char} (visible : InputClass.of c ≠ .whitespace)
    (flat : InputClass.of c ≠ .newline) (rest : List Char) (atEnd : Bool) :
    Covers file before marks (front c rest).1 (front c rest).2
      (scanLexeme file (standing before (c :: rest) marks atEnd)) := by
  have begins : ∀ state : State, State.start.next (.of c) = state → state.isAccumulating →
      scanLexeme file (standing before (c :: rest) marks atEnd) =
        scanFrom file state (String.ofList [c]) (.behind before)
          (standing (before ++ [c]) rest marks atEnd) := by
    intro state goes accumulates
    exact scanFrom_grows file goes accumulates (by simp) (by simp) (.behind before) atEnd
  have symbols : State.start.next (.of c) = .symbol →
      Covers file before marks (symbolPiece (c :: symbolRun [c] rest)
          (rest.drop (symbolRun [c] rest).length)).1
        (symbolPiece (c :: symbolRun [c] rest) (rest.drop (symbolRun [c] rest).length)).2
        (scanLexeme file (standing before (c :: rest) marks atEnd)) := by
    intro goes
    rw [begins .symbol goes rfl, scanFrom_symbol, List.append_assoc]
    exact finishSymbol_covers file _ _ false
  unfold front
  cases sort : InputClass.of c with
  | letter =>
    rw [begins .word (by rw [sort]; rfl) rfl, scanFrom_keeping file (.inl rfl),
      List.append_assoc]
    exact finishWord_covers file _ _ false
  | digit =>
    rw [begins .number (by rw [sort]; rfl) rfl, scanFrom_keeping file (.inr rfl),
      List.append_assoc]
    exact finishNumber_covers file _ _ false
  | dot | symbol => exact symbols (by rw [sort]; rfl)
  | quote =>
    rw [begins .literal (by rw [sort]; rfl) rfl]
    exact scanFrom_literal file [c] rest atEnd
  | whitespace => exact absurd sort visible
  | newline => exact absurd sort flat
  | eof => exact absurd sort (of_ne_eof c)
  | other =>
    have single : toString c = String.ofList [c] := rfl
    unfold scanLexeme
    rw [scanFrom_step]
    simp only [mark_standing, read_standing_cons, drop_standing, position_standing, sort,
      State.next, emitUnexpected, reduceCtorEq, false_and, if_false, Option.getD_some, single]
    exact emitError_covers file _ [c] rest atEnd

theorem scanLexeme_blank {c : Char}
    (blank : InputClass.of c = .whitespace ∨ InputClass.of c = .newline) (rest : List Char)
    (atEnd : Bool) :
    scanLexeme file (standing before (c :: rest) marks atEnd) =
      scanLexeme file (standing (before ++ [c]) rest marks atEnd) := by
  have goes : State.start.next (.of c) = .start := by
    obtain sort | sort := blank <;> rw [sort] <;> rfl
  unfold scanLexeme
  rw [scanFrom_step]
  simp only [mark_standing, read_standing_cons, drop_standing, position_standing, goes,
    reduceCtorEq, false_and, if_false, if_true]

theorem scanLexeme_end (atEnd : Bool) :
    scanLexeme file (standing before [] marks atEnd) =
      (some (.token ⟨.endOfStream, "", file, spanAt (.behind before)⟩),
        standing before [] marks true) := by
  unfold scanLexeme
  rw [scanFrom_step]
  simp only [mark_standing, read_standing_nil, drop_standing, position_standing, State.next,
    emitToken]

end

end CherryLang.Lexical
