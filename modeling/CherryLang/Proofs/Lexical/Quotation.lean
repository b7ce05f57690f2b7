import CherryLang.Proofs.Lexical.Lossless
import Mathlib.Data.List.Induction

/-! Literals from left to right. What stands in a literal is a row of glyphs, single characters and
backslashes with the character behind them. The first quote that is in no glyph closes the literal,
and the glyphs alone decide what it is. The scan reads otherwise: at every quote it counts the
backslashes back from there, and it looks for escapes only once the literal is closed. -/
namespace CherryLang.Lexical

namespace Quote

inductive Glyph where
  | plain (c : Char)
  | escape (c : Char)

namespace Glyph

def text : Glyph → List Char
  | .plain c => [c]
  | .escape c => ['\\', c]

/-- Whether a glyph may stand between two quotes `q`, which are in one line. -/
def Fits (q : Char) : Glyph → Prop
  | .plain c => c ≠ '\\' ∧ c ≠ q ∧ c ≠ '\n'
  | .escape c => c ≠ '\n'

def undefined? : Glyph → Option Char
  | .plain _ => none
  | .escape c => if c ∈ ['n', 't', 'r', '0', '\\', '\'', '"'] then none else some c

end Glyph

def IsQuote (q : Char) : Prop := q = '"' ∨ q = '\''

def written (glyphs : List Glyph) : List Char := glyphs.flatMap Glyph.text

def fault? (q : Char) (glyphs : List Glyph) : Option ErrorKind :=
  match glyphs.findSome? Glyph.undefined? with
  | some c => some (.invalidEscape c)
  | none => if q = '\'' ∧ glyphs.length ≠ 1 then some .malformedCharacter else none

/-- Whether a backslash is left over when a text is read glyph by glyph. -/
def Dangles : List Char → Prop
  | [] => False
  | ['\\'] => True
  | '\\' :: _ :: rest => Dangles rest
  | _ :: rest => Dangles rest

/-- The glyphs ahead of the first `q` in none of them, and what stands behind that; nothing if the
line or the text ends before. -/
def glyphs? (q : Char) : List Char → Option (List Glyph × List Char)
  | [] => none
  | '\\' :: c :: rest =>
    if c = '\n' then none
    else (glyphs? q rest).map fun (glyphs, behind) => (.escape c :: glyphs, behind)
  | c :: rest =>
    if c = '\n' then none
    else if c = q then some ([], rest)
    else (glyphs? q rest).map fun (glyphs, behind) => (.plain c :: glyphs, behind)

@[simp] theorem written_nil : written [] = [] := rfl

@[simp] theorem written_plain (c : Char) (glyphs : List Glyph) :
    written (.plain c :: glyphs) = c :: written glyphs := rfl

@[simp] theorem written_escape (c : Char) (glyphs : List Glyph) :
    written (.escape c :: glyphs) = '\\' :: c :: written glyphs := rfl

@[simp] theorem written_append (glyphs more : List Glyph) :
    written (glyphs ++ more) = written glyphs ++ written more := List.flatMap_append

theorem IsQuote.plain {q : Char} (quote : IsQuote q) : q ≠ '\\' := by
  obtain rfl | rfl := quote <;> decide

theorem IsQuote.inline {q : Char} (quote : IsQuote q) : q ≠ '\n' := by
  obtain rfl | rfl := quote <;> decide

theorem IsQuote.of {q : Char} (quote : IsQuote q) : InputClass.of q = .quote := by
  obtain rfl | rfl := quote <;> decide

theorem glyphs?_plain {q c : Char} (plain : c ≠ '\\') (rest : List Char) :
    glyphs? q (c :: rest) =
      if c = '\n' then none
      else if c = q then some ([], rest)
      else (glyphs? q rest).map fun (glyphs, behind) => (.plain c :: glyphs, behind) := by
  rw [glyphs?]
  rintro d tail rfl rfl
  exact plain rfl

theorem glyphs?_eq_some {q : Char} {text : List Char} {glyphs : List Glyph} {behind : List Char}
    (found : glyphs? q text = some (glyphs, behind)) :
    text = written glyphs ++ q :: behind ∧ ∀ g ∈ glyphs, g.Fits q := by
  fun_induction glyphs? q text generalizing glyphs with
  | case1 => cases found
  | case2 => cases found
  | case3 c rest inline ih =>
    obtain ⟨⟨more, behind⟩, later, same⟩ := Option.map_eq_some_iff.mp found
    cases same
    obtain ⟨rfl, fits⟩ := ih later
    exact ⟨rfl, by simpa [Glyph.Fits, inline] using fits⟩
  | case4 => cases found
  | case5 =>
    cases found
    exact ⟨rfl, by simp⟩
  | case6 c rest pairless inline other ih =>
    obtain ⟨⟨more, behind⟩, later, same⟩ := Option.map_eq_some_iff.mp found
    cases same
    obtain ⟨rfl, fits⟩ := ih later
    refine ⟨rfl, ?_⟩
    -- A backslash has something behind it here, if only the closing quote.
    have plain : c ≠ '\\' := by
      rintro rfl
      cases h : written more ++ q :: behind with
      | nil => simp at h
      | cons d tail => exact pairless d tail rfl h
    simpa [Glyph.Fits, plain, other, inline] using fits

theorem glyphs?_written {q : Char} (quote : IsQuote q) {glyphs : List Glyph}
    (fits : ∀ g ∈ glyphs, g.Fits q) (behind : List Char) :
    glyphs? q (written glyphs ++ q :: behind) = some (glyphs, behind) := by
  induction glyphs with
  | nil => simp [glyphs?_plain quote.plain, quote.inline]
  | cons g glyphs ih =>
    obtain ⟨first, others⟩ := List.forall_mem_cons.mp fits
    cases g with
    | plain c =>
      obtain ⟨single, other, inline⟩ := first
      simp [glyphs?_plain single, inline, other, ih others]
    | escape c =>
      have inline : c ≠ '\n' := first
      simp [glyphs?, inline, ih others]

/-- Only escapes hold backslashes, and an escaped backslash adds two to the end of a row. -/
theorem even_backslashes {q : Char} {glyphs : List Glyph} (fits : ∀ g ∈ glyphs, g.Fits q) :
    ((written glyphs).reverse.takeWhile (· == '\\')).length % 2 = 0 := by
  induction glyphs using List.reverseRecOn with
  | nil => rfl
  | append_singleton glyphs g ih =>
    obtain ⟨others, last⟩ := List.forall_mem_append.mp fits
    have before := ih others
    have fit : g.Fits q := last g (.head _)
    cases g with
    | plain c => simp [fit.1]
    | escape c =>
      by_cases slash : c = '\\'
      · simpa [slash, Nat.add_assoc] using before
      · simp [slash]

theorem closes_written {q : Char} {glyphs : List Glyph} (fits : ∀ g ∈ glyphs, g.Fits q) :
    closes (q :: (written glyphs ++ [q])) = true := by
  simp [closes, even_backslashes fits]

theorem closes_escape {q c : Char} {glyphs : List Glyph} (fits : ∀ g ∈ glyphs, g.Fits q) :
    closes (q :: (written glyphs ++ ['\\', c])) = false := by
  have even := even_backslashes fits
  have odd : ((written glyphs ++ ['\\']).reverse.takeWhile (· == '\\')).length % 2 = 1 := by
    simp
    omega
  simp [closes]
  omega

theorem closes_other {q c : Char} (other : c ≠ q) (run : List Char) :
    closes (q :: (run ++ [c])) = false := by
  simp [closes, Ne.symm other]

theorem measure_plain {c : Char} (plain : c ≠ '\\') (length : Nat) (rest : List Char) :
    measure length (c :: rest) = measure (length + 1) rest := by
  rw [measure]
  rintro d tail rfl rfl
  exact plain rfl

theorem isEscape_eq (c : Char) :
    isEscape c = decide (c ∈ ['n', 't', 'r', '0', '\\', '\'', '"']) := by
  simp [isEscape]

theorem measure_written {q : Char} {glyphs : List Glyph} (fits : ∀ g ∈ glyphs, g.Fits q)
    (length : Nat) : measure length (written glyphs) =
      match glyphs.findSome? Glyph.undefined? with
      | some c => .error c
      | none => .ok (length + glyphs.length) := by
  induction glyphs generalizing length with
  | nil => simp [measure]
  | cons g glyphs ih =>
    obtain ⟨first, others⟩ := List.forall_mem_cons.mp fits
    have further := ih others (length + 1)
    cases g with
    | plain c =>
      rw [written_plain, measure_plain first.1, further, List.findSome?_cons]
      simp only [Glyph.undefined?, List.length_cons, Nat.add_assoc, Nat.add_comm 1]
    | escape c =>
      rw [written_escape, measure, isEscape_eq, List.findSome?_cons, Glyph.undefined?]
      split
      · next known =>
        rw [if_pos (of_decide_eq_true known), further]
        simp only [List.length_cons, Nat.add_assoc, Nat.add_comm 1]
      · next unknown =>
        rw [if_neg (by simpa using unknown)]

theorem problem?_written {q : Char} {glyphs : List Glyph} (fits : ∀ g ∈ glyphs, g.Fits q) :
    problem? (q :: (written glyphs ++ [q])) = fault? q glyphs := by
  rw [problem?, List.tail_cons, List.dropLast_concat, measure_written fits, fault?]
  cases glyphs.findSome? Glyph.undefined? with
  | some c => rfl
  | none => simp

theorem not_dangles_written {q : Char} {glyphs : List Glyph} (fits : ∀ g ∈ glyphs, g.Fits q) :
    ¬ Dangles (written glyphs) := by
  induction glyphs with
  | nil => simp [Dangles]
  | cons g glyphs ih =>
    obtain ⟨first, others⟩ := List.forall_mem_cons.mp fits
    cases g with
    | plain c =>
      rw [written_plain, Dangles]
      · exact ih others
      · rintro rfl
        exact fun _ => first.1 rfl
      · rintro d tail rfl
        exact fun _ => first.1 rfl
    | escape c => simpa [Dangles] using ih others

end Quote

open Quote

theorem literalPiece_goesOn {run : List Char} {c : Char} (inline : c ≠ '\n')
    (runsOn : Quote.closes (run ++ [c]) = false) (rest : List Char) :
    literalPiece run (c :: rest) = literalPiece (run ++ [c]) rest := by
  rw [literalPiece]
  simp only [runsOn, inline, Bool.false_eq_true, if_false, ite_self]

theorem literalPiece_newline (run rest : List Char) :
    literalPiece run ('\n' :: rest) =
      (.error (unterminatedKind run) run ['\n'] (String.ofList run), rest) := by
  rw [literalPiece]
  simp [of_newline]

theorem literalPiece_plain {q c : Char} (fits : Glyph.Fits q (.plain c)) (glyphs : List Glyph)
    (rest : List Char) :
    literalPiece (q :: written glyphs) (c :: rest) =
      literalPiece (q :: written (glyphs ++ [.plain c])) rest := by
  obtain ⟨-, other, inline⟩ := fits
  rw [literalPiece_goesOn inline (closes_other other _)]
  simp

theorem literalPiece_escape {q c : Char} (quote : IsQuote q) {glyphs : List Glyph}
    (fits : ∀ g ∈ glyphs, g.Fits q) (inline : c ≠ '\n') (rest : List Char) :
    literalPiece (q :: written glyphs) ('\\' :: c :: rest) =
      literalPiece (q :: written (glyphs ++ [.escape c])) rest := by
  have opened : closes (q :: written glyphs ++ ['\\'] ++ [c]) = false := by
    simpa using closes_escape (c := c) fits
  rw [literalPiece_goesOn (by decide) (closes_other quote.plain.symm _),
    literalPiece_goesOn inline opened]
  simp

/-- The literal of which the quote `q` and some glyphs have been read. What is ahead is read glyph
by glyph, so that the run always ends behind a glyph when the next one is taken. -/
theorem literalPiece_written {q : Char} (quote : IsQuote q) {glyphs : List Glyph}
    (fits : ∀ g ∈ glyphs, g.Fits q) (rest : List Char) :
    literalPiece (q :: written glyphs) rest =
      match glyphs? q rest with
      | none =>
        let run := q :: (written glyphs ++ rest.takeWhile (· != '\n'))
        (.error (unterminatedKind run) run (if rest.contains '\n' then ['\n'] else [])
          (String.ofList run), furtherLines rest)
      | some (more, behind) =>
        (closedPiece (q :: (written (glyphs ++ more) ++ [q])) behind, behind) := by
  fun_induction glyphs? q rest generalizing glyphs with
  | case1 => simp [literalPiece, furtherLines]
  | case2 rest =>
    rw [literalPiece_goesOn (by decide) (closes_other quote.plain.symm _), literalPiece_newline]
    simp [furtherLines]
  | case3 c rest inline ih =>
    have longer : ∀ g ∈ glyphs ++ [.escape c], g.Fits q :=
      List.forall_mem_append.mpr ⟨fits, by simpa [Glyph.Fits] using inline⟩
    rw [literalPiece_escape quote fits inline, ih longer]
    cases glyphs? q rest with
    | none => simp [furtherLines, inline, Ne.symm inline]
    | some found => simp
  | case4 rest =>
    rw [literalPiece_newline]
    simp [furtherLines]
  | case5 rest =>
    have closed : closes (q :: written glyphs ++ [q]) = true := closes_written fits
    rw [literalPiece, if_pos quote.of, if_pos closed]
    simp
  | case6 c rest pairless inline other ih =>
    by_cases plain : c = '\\'
    · -- A backslash that nothing follows is the last character of the text.
      obtain rfl : rest = [] := by
        cases rest with
        | nil => rfl
        | cons d tail => exact absurd plain (pairless d tail · rfl)
      rw [literalPiece_goesOn inline (closes_other other _)]
      simp [literalPiece, glyphs?, furtherLines, plain]
    · have fit : Glyph.Fits q (.plain c) := ⟨plain, other, inline⟩
      have longer : ∀ g ∈ glyphs ++ [.plain c], g.Fits q :=
        List.forall_mem_append.mpr ⟨fits, by simpa using fit⟩
      rw [literalPiece_plain fit, ih longer]
      cases glyphs? q rest with
      | none => simp [furtherLines, inline, Ne.symm inline]
      | some found => simp

/-- What the scan finds at a quote `q` in front of `rest`: it takes `piece`, and `behind` is left.
Glyphs that lead to another `q` in the same line are the literal. Otherwise the literal is cut off
at the end of the line, or of the text. -/
structure Quoted (q : Char) (rest : List Char) (piece : Piece) (behind : List Char) : Prop where
  closed : ∀ glyphs left, rest = written glyphs ++ q :: left → (∀ g ∈ glyphs, g.Fits q) →
    let lexeme := q :: (written glyphs ++ [q])
    behind = left ∧ ¬ Dangles lexeme.tail.dropLast ∧
      match fault? q glyphs with
      | some kind => ∃ quoted, piece = .error kind lexeme [] quoted
      | none => piece = .token (.literal (if q = '\'' then .character else .string)) lexeme
  cut : (∀ glyphs left, rest = written glyphs ++ q :: left → ¬ ∀ g ∈ glyphs, g.Fits q) →
    let kind := if q = '\'' then ErrorKind.unterminatedCharacter else .unterminatedString
    ∃ lost quoted, piece = .error kind (q :: rest.takeWhile (· != '\n')) lost quoted

theorem quoted_literalPiece {q : Char} (quote : IsQuote q) (rest : List Char) :
    Quoted q rest (literalPiece [q] rest).1 (literalPiece [q] rest).2 := by
  have read := @literalPiece_written q quote [] (by simp) rest
  rw [written_nil] at read
  constructor
  · rintro glyphs left rfl fits
    rw [glyphs?_written quote fits] at read
    rw [read]
    refine ⟨rfl, ?_, ?_⟩
    · simpa using not_dangles_written fits
    · simp only [List.nil_append, closedPiece, problem?_written fits]
      cases fault? q glyphs with
      | some kind => exact ⟨_, rfl⟩
      | none => simp [literalKind]
  · intro unclosed
    cases found : glyphs? q rest with
    | some parts =>
      obtain ⟨split, fits⟩ := glyphs?_eq_some found
      exact absurd fits (unclosed _ _ split)
    | none =>
      rw [found] at read
      simp only [List.nil_append, unterminatedKind, List.head?_cons, beq_iff_eq,
        Option.some.injEq] at read
      rw [read]
      exact ⟨_, _, rfl⟩

theorem pieces_split {text : List Char} {done later : List Piece} {piece : Piece}
    (split : pieces text = done ++ piece :: later) :
    ∃ c rest, done.flatMap Piece.text ++ c :: rest = text ∧ piece = (front c rest).1 ∧
      later = pieces (front c rest).2 := by
  fun_induction pieces text generalizing done with
  | case1 => simp at split
  | case2 c rest ih =>
    cases done with
    | nil =>
      obtain ⟨rfl, rfl⟩ := List.cons.inj split
      exact ⟨c, rest, rfl, rfl, rfl⟩
    | cons first done =>
      obtain ⟨rfl, further⟩ := List.cons.inj split
      obtain ⟨d, tail, inside, here, behind⟩ := ih further
      refine ⟨d, tail, ?_, here, behind⟩
      rw [List.flatMap_cons, List.append_assoc, inside, text_front]

/-- Wherever a lexeme begins with a quote, the glyphs behind it say what comes out: the first quote
in none of them closes the literal, an escape that is not defined spoils it, and so does more or
less than one glyph between single quotes; without such a quote in the line the literal is
unterminated. No literal that closes has a backslash left over at its end. -/
theorem scan_quotation (file : FileId) (text : String) :
    ∃ pieces : List Piece,
      pieces.flatMap Piece.text = text.toList ∧
        Scan.items { cursor := .ofText text, file := file } = emitted file [] pieces ∧
        ∀ done piece later q rest, pieces = done ++ piece :: later →
          (piece :: later).flatMap Piece.text = q :: rest → q = '"' ∨ q = '\'' →
          Quoted q rest piece (later.flatMap Piece.text) := by
  refine ⟨pieces text.toList, flatMap_text_pieces _, ?_, ?_⟩
  · rw [Cursor.ofText_eq_standing]
    exact items_scanAt file [] text.toList false
  · intro done piece later q rest split begins quote
    obtain ⟨c, tail, -, rfl, rfl⟩ := pieces_split split
    rw [List.flatMap_cons, flatMap_text_pieces, text_front] at begins
    obtain ⟨rfl, rfl⟩ := List.cons.inj begins
    have literal : front c tail = literalPiece [c] tail := by
      simp only [front, IsQuote.of quote]
    rw [flatMap_text_pieces, literal]
    exact quoted_literalPiece quote tail

end CherryLang.Lexical
