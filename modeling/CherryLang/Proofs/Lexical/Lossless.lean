import CherryLang.Proofs.Lexical.Stream

namespace CherryLang

/-- Strictly earlier in a source: by line, then by column. -/
def Span.Before (a b : Span) : Prop := a.line < b.line ∨ a.line = b.line ∧ a.column < b.column

theorem Span.Before.trans {a b c : Span} (first : a.Before b) (second : b.Before c) :
    a.Before c := by
  unfold Span.Before at *
  omega

namespace Lexical

theorem place_before_append_singleton (before : List Char) (c : Char) :
    (place before).Before (place (before ++ [c])) := by
  by_cases newline : c = '\n'
  · exact .inl (by simp [place, newline])
  · exact .inr (by simp [place, newline])

theorem place_before_append (before : List Char) {more : List Char} (nonempty : more ≠ []) :
    (place before).Before (place (before ++ more)) := by
  induction more generalizing before with
  | nil => exact absurd rfl nonempty
  | cons c more ih =>
    have step := place_before_append_singleton before c
    cases more with
    | nil => exact step
    | cons d more =>
      have later := ih (before ++ [c]) (by simp)
      rw [List.append_assoc] at later
      exact Span.Before.trans step later

def Laid : List Piece → Prop
  | [] => True
  | piece :: pieces => piece.Fits (pieces.flatMap Piece.text) ∧ Laid pieces

theorem flatMap_text_pieces (text : List Char) : (pieces text).flatMap Piece.text = text := by
  fun_induction pieces text with
  | case1 => rfl
  | case2 c rest ih => rw [List.flatMap_cons, ih, text_front]

theorem laid_pieces (text : List Char) : Laid (pieces text) := by
  fun_induction pieces text with
  | case1 => trivial
  | case2 c rest ih =>
    refine ⟨?_, ih⟩
    rw [flatMap_text_pieces]
    exact fits_front c rest

def Item.span? : Item → Option Span
  | .token t => some t.span
  | .error e => some e.span
  | .failure _ => none

theorem Piece.span?_item? {file : FileId} {span : Span} {piece : Piece} {item : Item}
    (emits : piece.item? file span = some item) : item.span? = some span := by
  cases piece <;> cases emits <;> rfl

theorem place_of_mem_emitted {file : FileId} {before : List Char} {pieces : List Piece}
    {item : Item} (member : item ∈ emitted file before pieces) :
    ∃ more, item.span? = some (place (before ++ more)) := by
  induction pieces generalizing before with
  | nil =>
    obtain rfl := List.mem_singleton.mp member
    exact ⟨[], by simp [Item.span?]⟩
  | cons piece pieces ih =>
    obtain here | later := List.mem_append.mp member
    · exact ⟨[], by simpa using Piece.span?_item? (Option.mem_toList.mp here)⟩
    · obtain ⟨more, there⟩ := ih later
      exact ⟨piece.text ++ more, by rw [← List.append_assoc, there]⟩

theorem pairwise_before_emitted (file : FileId) (before : List Char) {pieces : List Piece}
    (laid : Laid pieces) :
    ((emitted file before pieces).filterMap Item.span?).Pairwise Span.Before := by
  induction pieces generalizing before with
  | nil => simp [emitted, Item.span?]
  | cons piece pieces ih =>
    have further := ih (before ++ piece.text) laid.2
    unfold emitted
    cases emits : piece.item? file (place before) with
    | none => exact further
    | some item =>
      simp only [Option.toList_some, List.singleton_append,
        List.filterMap_cons_some (Piece.span?_item? emits), List.pairwise_cons]
      refine ⟨?_, further⟩
      intro span member
      obtain ⟨later, inside, here⟩ := List.mem_filterMap.mp member
      obtain ⟨more, there⟩ := place_of_mem_emitted inside
      rw [here, Option.some.injEq] at there
      rw [there, List.append_assoc]
      exact place_before_append before (by simp [laid.1.text_ne_nil])

/-- A text is the concatenation of pieces that are blanks, comments, lexemes of tokens and text
discarded with an error. The scan emits one item for every piece of the last two sorts, in order and
at the place of the piece, and the end of the stream; it succeeds with the tokens and the errors
among them, and places strictly increase from item to item. -/
theorem scan_lossless (file : FileId) (text : String) :
    ∃ pieces : List Piece,
      pieces.flatMap Piece.text = text.toList ∧ Laid pieces ∧
        Scan.items { cursor := .ofText text, file := file } = emitted file [] pieces ∧
        scan file (.ofText text) = .ok ⟨(emitted file [] pieces).filterMap Item.token?,
          (emitted file [] pieces).filterMap Item.error?⟩ ∧
        ((emitted file [] pieces).filterMap Item.span?).Pairwise Span.Before := by
  refine ⟨pieces text.toList, flatMap_text_pieces _, laid_pieces _, ?_, scan_ofText file text,
    pairwise_before_emitted file [] (laid_pieces _)⟩
  rw [Cursor.ofText_eq_standing]
  exact items_scanAt file [] text.toList false

end Lexical

end CherryLang
