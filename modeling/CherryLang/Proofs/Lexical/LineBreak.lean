import CherryLang.Proofs.Lexical.Lossless

/-! A line break is a fresh start. No lexeme and no error goes beyond the end of its line, and only
a block comment does; so what stands behind a newline is scanned as if nothing stood before it, and
the newline hides it from what stands before. -/
namespace CherryLang

def Span.below (lines : Nat) (span : Span) : Span := { span with line := span.line + lines }

def Token.below (lines : Nat) (t : Token) : Token := { t with span := t.span.below lines }

namespace Lexical

def Error.below (lines : Nat) (e : Error) : Error := { e with span := e.span.below lines }

def Item.below (lines : Nat) : Item → Item
  | .token t => .token (t.below lines)
  | .error e => .error (e.below lines)
  | .failure e => .failure e

/-- What is scanned of two texts if the second begins `lines` lines below the first. -/
def Scanned.atop (above : Scanned) (lines : Nat) (below : Scanned) : Scanned where
  tokens := above.tokens.filter (·.kind != .endOfStream) ++ below.tokens.map (Token.below lines)
  errors := above.errors ++ below.errors.map (Error.below lines)

def Piece.isOpenComment : Piece → Bool
  | .error .unterminatedComment _ _ _ => true
  | _ => false

section

variable {rest : List Char} (breaks : '\n' ∈ rest) (more : List Char)
include breaks

theorem mem_dropWhile_of_break {p : Char → Bool} (stops : p '\n' = false) :
    '\n' ∈ rest.dropWhile p := by
  rw [← List.takeWhile_append_dropWhile (p := p) (l := rest)] at breaks
  rcases List.mem_append.mp breaks with early | late
  · have kept := List.all_eq_true.mp List.all_takeWhile '\n' early
    exact absurd kept (by simp [stops])
  · exact late

theorem takeWhile_append_of_break {p : Char → Bool} (stops : p '\n' = false) :
    (rest ++ more).takeWhile p = rest.takeWhile p := by
  have stays := List.length_pos_of_mem (mem_dropWhile_of_break breaks stops)
  have split := congrArg List.length (List.takeWhile_append_dropWhile (p := p) (l := rest))
  rw [List.length_append] at split
  rw [List.takeWhile_append, if_neg (by omega)]

theorem dropWhile_append_of_break {p : Char → Bool} (stops : p '\n' = false) :
    (rest ++ more).dropWhile p = rest.dropWhile p ++ more := by
  have stays := List.ne_nil_of_mem (mem_dropWhile_of_break breaks stops)
  rw [List.dropWhile_append, if_neg (by simpa using stays)]

theorem lines_append :
    firstLine (rest ++ more) = firstLine rest ∧
      furtherLines (rest ++ more) = furtherLines rest ++ more := by
  induction rest with
  | nil => cases breaks
  | cons c rest ih =>
    by_cases newline : c = '\n'
    · simp [firstLine, furtherLines, newline]
    · have later := List.mem_of_ne_of_mem (Ne.symm newline) breaks
      simp [firstLine, furtherLines, newline, ih later]

theorem quotedLine_append (lexeme : List Char) :
    quotedLine lexeme (rest ++ more) = quotedLine lexeme rest := by
  rw [quotedLine, quotedLine, (lines_append breaks more).1]

theorem symbolRun_append (run : List Char) :
    symbolRun run (rest ++ more) = symbolRun run rest ∧
      '\n' ∈ rest.drop (symbolRun run rest).length := by
  induction rest generalizing run with
  | nil => cases breaks
  | cons c rest ih =>
    by_cases grows : (State.symbol.keeps c && extendsSymbol (String.ofList run) c) = true
    · have later := List.mem_of_ne_of_mem
        (by rintro rfl; simp [State.keeps, of_newline, State.next] at grows) breaks
      have further := ih later (run ++ [c])
      simp only [List.cons_append, symbolRun, if_pos grows, further.1, List.length_cons,
        List.drop_succ_cons, true_and]
      exact further.2
    · simpa only [List.cons_append, symbolRun, if_neg grows, List.length_nil, List.drop_zero,
        true_and] using breaks

theorem wordPiece_append (word : List Char) :
    wordPiece word (rest ++ more) = wordPiece word rest := by
  cases rest with
  | nil => cases breaks
  | cons c rest => rfl

theorem numberPiece_append (run : List Char) :
    numberPiece run (rest ++ more) = numberPiece run rest := by
  rw [numberPiece, numberPiece, quotedLine_append breaks]

theorem closedPiece_append (lexeme : List Char) :
    closedPiece lexeme (rest ++ more) = closedPiece lexeme rest := by
  rw [closedPiece, closedPiece, quotedLine_append breaks]

theorem literalPiece_append (run : List Char) :
    literalPiece run (rest ++ more) =
      ((literalPiece run rest).1, (literalPiece run rest).2 ++ more) := by
  induction rest generalizing run with
  | nil => cases breaks
  | cons c rest ih =>
    rw [List.cons_append]
    unfold literalPiece
    split
    · next quote =>
      have later := List.mem_of_ne_of_mem (by rintro rfl; simp [of_newline] at quote) breaks
      split
      · rw [closedPiece_append later]
      · exact ih later (run ++ [c])
    · split
      · rfl
      · next inside => exact ih (List.mem_of_ne_of_mem (Ne.symm inside) breaks) (run ++ [c])

end

theorem splitBlock?_append {left body behind : List Char}
    (found : splitBlock? left = some (body, behind)) (more : List Char) :
    splitBlock? (left ++ more) = some (body, behind ++ more) := by
  induction left generalizing body with
  | nil => simp [splitBlock?] at found
  | cons c left ih =>
    by_cases closes : c = '*' ∧ left.head? = some '/'
    · obtain ⟨rfl, head⟩ := closes
      obtain ⟨tail, rfl⟩ := List.head?_eq_some_iff.mp head
      simp only [splitBlock?, Option.some.injEq, Prod.mk.injEq] at found
      obtain ⟨rfl, rfl⟩ := found
      rfl
    · rw [splitBlock?_cons closes, Option.map_eq_some_iff] at found
      obtain ⟨⟨inner, behind⟩, later, same⟩ := found
      cases same
      have runsOn : ¬ (c = '*' ∧ (left ++ more).head? = some '/') := by
        rintro ⟨rfl, head⟩
        cases left with
        | nil => simp [splitBlock?] at later
        | cons d left => exact closes ⟨rfl, by simpa using head⟩
      rw [List.cons_append, splitBlock?_cons runsOn, ih later]
      rfl

theorem symbolPiece_append {run left : List Char} (breaks : '\n' ∈ left)
    (closed : (symbolPiece run left).1.isOpenComment = false) (more : List Char) :
    symbolPiece run (left ++ more) =
      ((symbolPiece run left).1, (symbolPiece run left).2 ++ more) := by
  unfold symbolPiece at closed ⊢
  split
  · have contained : (left ++ more).contains '\n' = left.contains '\n' := by simp [breaks]
    rw [takeWhile_append_of_break breaks more (by simp), contained, (lines_append breaks more).2]
  · next comment =>
    rw [if_neg comment] at closed
    split
    · next opening =>
      rw [if_pos opening] at closed
      cases found : splitBlock? left with
      | none => simp [found, Piece.isOpenComment] at closed
      | some parts => rw [splitBlock?_append found]
    · rfl

/-- A newline ahead hides what follows it from the first piece, unless that is an open comment. -/
theorem front_append {c : Char} {rest : List Char} (breaks : '\n' ∈ c :: rest)
    (closed : (front c rest).1.isOpenComment = false) (more : List Char) :
    front c (rest ++ more) = ((front c rest).1, (front c rest).2 ++ more) := by
  by_cases newline : c = '\n'
  · simp [front, newline, of_newline]
  · have later := List.mem_of_ne_of_mem (Ne.symm newline) breaks
    unfold front at closed ⊢
    cases sort : InputClass.of c with
    | letter =>
      have stops : State.word.keeps '\n' = false := by decide
      have ahead := mem_dropWhile_of_break later stops
      simp only [takeWhile_append_of_break later more stops,
        dropWhile_append_of_break later more stops, wordPiece_append ahead]
    | digit =>
      have stops : State.number.keeps '\n' = false := by decide
      have ahead := mem_dropWhile_of_break later stops
      simp only [takeWhile_append_of_break later more stops,
        dropWhile_append_of_break later more stops, numberPiece_append ahead]
    | dot | symbol =>
      obtain ⟨run, ahead⟩ := symbolRun_append later more [c]
      have short : (symbolRun [c] rest).length ≤ rest.length := by
        have whole := congrArg List.length (symbolRun_append_drop [c] rest)
        rw [List.length_append] at whole
        omega
      simp only [sort] at closed
      simp only [run, List.drop_append_of_le_length short, symbolPiece_append ahead closed]
    | quote => exact literalPiece_append later more [c]
    | whitespace | newline => rfl
    | other | eof => simp only [quotedLine_append later]

def EndsLine (text : List Char) : Prop := ∀ c ∈ text.getLast?, c = '\n'

theorem EndsLine.mem {c : Char} {rest : List Char} (ends : EndsLine (c :: rest)) :
    '\n' ∈ c :: rest := by
  have last := List.getLast?_eq_some_getLast (List.cons_ne_nil c rest)
  rw [← ends _ last]
  exact List.getLast_mem _

theorem EndsLine.of_append {front rest : List Char} (ends : EndsLine (front ++ rest)) :
    EndsLine rest := by
  intro c last
  apply ends c
  rw [List.getLast?_append, Option.mem_def.mp last]
  rfl

theorem pieces_append {text : List Char} (ends : EndsLine text)
    (closed : ∀ piece ∈ pieces text, piece.isOpenComment = false) (more : List Char) :
    pieces (text ++ more) = pieces text ++ pieces more := by
  fun_induction pieces text with
  | case1 => rfl
  | case2 c rest ih =>
    have first := front_append ends.mem (closed _ (.head _)) more
    have further : EndsLine (front c rest).2 := by
      rw [← text_front c rest] at ends
      exact ends.of_append
    rw [List.cons_append, pieces, first, ih further fun piece later => closed piece (.tail _ later)]
    rfl

/-- What a scan emits for `pieces` before it comes to the end. -/
def spoken (file : FileId) (before : List Char) : List Piece → List Item
  | [] => []
  | piece :: pieces =>
    (piece.item? file (place before)).toList ++ spoken file (before ++ piece.text) pieces

theorem emitted_append (file : FileId) (before : List Char) (first second : List Piece) :
    emitted file before (first ++ second) =
      spoken file before first ++ emitted file (before ++ first.flatMap Piece.text) second := by
  induction first generalizing before with
  | nil => simp [spoken]
  | cons piece first ih => simp [emitted, spoken, ih]

theorem isLast_of_mem_spoken {file : FileId} {before : List Char} {pieces : List Piece}
    (laid : Laid pieces) : ∀ item ∈ spoken file before pieces, item.isLast = false := by
  induction pieces generalizing before with
  | nil => simp [spoken]
  | cons piece pieces ih =>
    intro item member
    rcases List.mem_append.mp member with here | later
    · have more := laid.1.goesOn file (place before)
      rw [Option.mem_toList.mp here] at more
      simpa [goesOn] using more
    · exact ih laid.2 item later

theorem place_append_line (above before : List Char) :
    place (above ++ ['\n'] ++ before) = (place before).below ((above ++ ['\n']).count '\n') := by
  have column : (above ++ ['\n'] ++ before).reverse.takeWhile (· != '\n') =
      before.reverse.takeWhile (· != '\n') := by
    rw [List.reverse_append, List.reverse_append, List.reverse_singleton, List.singleton_append,
      List.takeWhile_append]
    split
    · next whole =>
      rw [List.takeWhile_cons_of_neg (by simp), List.append_nil]
      exact ((List.takeWhile_prefix _).eq_of_length whole).symm
    · rfl
  simp only [place, Span.below, column, List.count_append, Span.mk.injEq, and_true]
  omega

theorem emitted_below (file : FileId) (above before : List Char) (pieces : List Piece) :
    emitted file (above ++ ['\n'] ++ before) pieces =
      (emitted file before pieces).map (Item.below ((above ++ ['\n']).count '\n')) := by
  induction pieces generalizing before with
  | nil => simp only [emitted, place_append_line, List.map_cons, List.map_nil]; rfl
  | cons piece pieces ih =>
    have further := ih (before ++ piece.text)
    rw [← List.append_assoc] at further
    rw [emitted, emitted, further, List.map_append, place_append_line]
    cases piece <;> rfl

theorem filterMap_token?_below (lines : Nat) (items : List Item) :
    (items.map (Item.below lines)).filterMap Item.token? =
      (items.filterMap Item.token?).map (Token.below lines) := by
  rw [List.filterMap_map, List.map_filterMap]
  congr
  funext item
  cases item <;> rfl

theorem filterMap_error?_below (lines : Nat) (items : List Item) :
    (items.map (Item.below lines)).filterMap Item.error? =
      (items.filterMap Item.error?).map (Error.below lines) := by
  rw [List.filterMap_map, List.map_filterMap]
  congr
  funext item
  cases item <;> rfl

theorem emitted_sorted (file : FileId) (before : List Char) {pieces : List Piece}
    (laid : Laid pieces) :
    ((emitted file before pieces).filterMap Item.token?).filter (·.kind != .endOfStream) =
        (spoken file before pieces).filterMap Item.token? ∧
      (emitted file before pieces).filterMap Item.error? =
        (spoken file before pieces).filterMap Item.error? := by
  have whole := emitted_append file before pieces []
  rw [List.append_nil] at whole
  rw [whole]
  constructor
  · rw [List.filterMap_append, List.filter_append, List.filter_eq_self.mpr]
    · simp [emitted]
    · intro t member
      simpa using kind_ne_endOfStream (isLast_of_mem_spoken laid) member
  · simp [emitted]

theorem isOpenComment_of_errors {file : FileId} {before : List Char} {pieces : List Piece}
    (closed : ∀ e ∈ (spoken file before pieces).filterMap Item.error?,
      e.kind ≠ .unterminatedComment) :
    ∀ piece ∈ pieces, piece.isOpenComment = false := by
  induction pieces generalizing before with
  | nil => simp
  | cons piece pieces ih =>
    rw [spoken, List.filterMap_append] at closed
    intro other member
    rcases List.mem_cons.mp member with rfl | later
    · cases other with
      | error kind lexeme lost quoted =>
        have other := closed ⟨kind, place before, String.ofList lexeme, quoted⟩
          (List.mem_append_left _ (by simp [Piece.item?]))
        cases kind <;> first | rfl | exact absurd rfl other
      | blank c | line body ended | block body | token kind lexeme => rfl
    · exact ih (fun e inside => closed e (List.mem_append_right _ inside)) other later

/-- A text and another one behind a newline are scanned one by one, if no comment of the first is
open at the newline: the tokens and the errors of the second follow those of the first, moved down
by the lines of the first and otherwise unchanged. -/
theorem scan_line_break (file : FileId) (a b : String) :
    ∃ above below : Scanned,
      scan file (.ofText (a ++ "\n")) = .ok above ∧ scan file (.ofText b) = .ok below ∧
        ((∀ e ∈ above.errors, e.kind ≠ .unterminatedComment) →
          scan file (.ofText (a ++ "\n" ++ b)) =
            .ok (above.atop ((a ++ "\n").toList.count '\n') below)) := by
  refine ⟨_, _, scan_ofText file _, scan_ofText file _, fun closed => ?_⟩
  have above : (a ++ "\n").toList = a.toList ++ ['\n'] := by simp
  have whole : (a ++ "\n" ++ b).toList = a.toList ++ ['\n'] ++ b.toList := by simp
  have ends : EndsLine (a.toList ++ ['\n']) := by simp [EndsLine]
  obtain ⟨tokens, errors⟩ := emitted_sorted file [] (laid_pieces (a.toList ++ ['\n']))
  simp only [above] at closed ⊢
  rw [errors] at closed
  have below := emitted_below file a.toList [] (pieces b.toList)
  rw [List.append_nil] at below
  rw [Scanned.atop, tokens, errors, scan_ofText, whole,
    pieces_append ends (isOpenComment_of_errors closed), emitted_append, flatMap_text_pieces,
    List.nil_append, below, List.filterMap_append, List.filterMap_append, filterMap_token?_below,
    filterMap_error?_below]

theorem scan_line_break_cut :
    ∃ above below : Scanned,
      scan {} (.ofText ("@ s = \"a(" ++ "\n")) = .ok above ∧
        above.errors.map (·.kind) = [.unexpectedCharacter '@', .unterminatedString] ∧
        scan {} (.ofText "b(/* \n */ 1.2.3)") = .ok below ∧
        scan {} (.ofText ("@ s = \"a(" ++ "\n" ++ "b(/* \n */ 1.2.3)")) =
          .ok (above.atop 1 below) := by
  obtain ⟨above, below, first, second, stacked⟩ :=
    scan_line_break {} "@ s = \"a(" "b(/* \n */ 1.2.3)"
  have known := Except.ok.inj (first.symm.trans (scan_ofText {} _))
  have kinds : above.errors.map (·.kind) = [.unexpectedCharacter '@', .unterminatedString] := by
    rw [known]
    decide +kernel
  refine ⟨above, below, first, kinds, second, stacked fun e member opened => ?_⟩
  have found := List.mem_map_of_mem (f := (·.kind)) member
  rw [kinds, opened] at found
  simp at found

end Lexical

end CherryLang
