import CherryLang.Lexical.Scan
import CherryLang.Proofs.Lexical.Front

namespace CherryLang.Lexical
open Cursor

/-- The place behind the text `before`. -/
def place (before : List Char) : Span where
  line := 1 + before.count '\n'
  column := 1 + (before.reverse.takeWhile (· != '\n')).length

theorem spanAt_behind (before : List Char) : spanAt (.behind before) = place before := by
  rw [Position.behind_eq_measured]
  rfl

namespace Item

@[simp] def token? : Item → Option Token
  | .token t => some t
  | .error _ | .failure _ => none

@[simp] def error? : Item → Option Error
  | .error e => some e
  | .token _ | .failure _ => none

def isFailure : Item → Bool
  | .failure _ => true
  | .token _ | .error _ => false

end Item

def Scan.items (s : Scan) : List Item :=
  match _result : s.next? with
  | (none, _) => []
  | (some item, s') => item :: s'.items
termination_by s.measure
decreasing_by exact Scan.measure_next?_lt _result

theorem Scan.items_step (s : Scan) :
    s.items = match s.next? with
      | (none, _) => []
      | (some item, s') => item :: s'.items := by
  rw [Scan.items]
  split <;> simp only [*]

theorem collect_eq (tokens : Array Token) (errors : Array Error) (s : Scan)
    (readable : ∀ item ∈ s.items, item.isFailure = false) :
    collect tokens errors s = .ok ⟨tokens.toList ++ s.items.filterMap Item.token?,
      errors.toList ++ s.items.filterMap Item.error?⟩ := by
  fun_induction collect tokens errors s with
  | case1 tokens errors s s' ended =>
    simp [Scan.items_step s, ended]
  | case2 tokens errors s t s' found ih =>
    rw [Scan.items_step s, found] at readable ⊢
    simp [ih fun item later => readable item (.tail _ later), List.filterMap_cons]
  | case3 tokens errors s e s' found ih =>
    rw [Scan.items_step s, found] at readable ⊢
    simp [ih fun item later => readable item (.tail _ later), List.filterMap_cons]
  | case4 tokens errors s e s' found =>
    rw [Scan.items_step s, found] at readable
    simpa [Item.isFailure] using readable (.failure e) (.head _)

theorem Scan.next?_step (s : Scan) :
    s.next? = if s.done then (none, s)
      else match scanLexeme s.file s.cursor with
        | (none, r) => next? { s with cursor := r }
        | (some item, r) =>
          if item.isLast then (some item, s.finish r) else (some item, { s with cursor := r }) := by
  rw [Scan.next?]
  split
  · rfl
  · split <;> simp only [*]

def scanAt (file : FileId) (before rest : List Char) (atEnd : Bool) : Scan where
  cursor := standing before rest [] atEnd
  file := file

/-- What a scan emits for `pieces`, the first of which begins behind `before`. -/
def emitted (file : FileId) (before : List Char) : List Piece → List Item
  | [] => [.token ⟨.endOfStream, "", file, place before⟩]
  | piece :: pieces =>
    (piece.item? file (place before)).toList ++ emitted file (before ++ piece.text) pieces

theorem items_eq_of_next? {s s' : Scan} (same : s.next? = s'.next?) : s.items = s'.items := by
  rw [Scan.items_step, same, ← Scan.items_step]

theorem Scan.items_of_done {s : Scan} (finished : s.done = true) : s.items = [] := by
  rw [Scan.items_step, Scan.next?_step, if_pos finished]

theorem Scan.items_of_isLast {s : Scan} {item : Item} {r : Cursor} (running : s.done = false)
    (found : scanLexeme s.file s.cursor = (some item, r)) (last : item.isLast = true) :
    s.items = [item] := by
  rw [Scan.items_step, Scan.next?_step]
  simp only [running, found, last, Bool.false_eq_true, if_false, if_true]
  rw [Scan.items_of_done (s := s.finish r) rfl]

theorem Scan.items_of_goesOn {s : Scan} {item : Option Item} {r : Cursor}
    (running : s.done = false) (found : scanLexeme s.file s.cursor = (item, r))
    (more : goesOn item) : s.items = item.toList ++ { s with cursor := r }.items := by
  cases item with
  | none =>
    apply items_eq_of_next?
    rw [Scan.next?_step]
    simp only [running, found, Bool.false_eq_true, if_false]
  | some item =>
    have inner : item.isLast = false := by simpa [goesOn] using more
    rw [Scan.items_step, Scan.next?_step]
    simp only [running, found, inner, Bool.false_eq_true, if_false, Option.toList_some,
      List.singleton_append]

theorem items_scanAt_nil (file : FileId) (before : List Char) (atEnd : Bool) :
    (scanAt file before [] atEnd).items = emitted file before [] := by
  rw [Scan.items_of_isLast rfl (scanLexeme_end file atEnd) rfl, emitted, spanAt_behind]

theorem items_scanAt_step {file : FileId} {before rest before' rest' : List Char}
    {atEnd ended : Bool} {item : Option Item}
    (found : scanLexeme file (standing before rest [] atEnd) =
      (item, standing before' rest' [] ended)) (more : goesOn item) :
    (scanAt file before rest atEnd).items =
      item.toList ++ (scanAt file before' rest' ended).items :=
  Scan.items_of_goesOn (s := scanAt file before rest atEnd) rfl found more

theorem Piece.Fits.goesOn {piece : Piece} {behind : List Char} (fits : piece.Fits behind)
    (file : FileId) (span : Span) : goesOn (piece.item? file span) := by
  cases piece with
  | token kind lexeme => simpa [Lexical.goesOn, item?, Item.isLast] using fits.1
  | blank c | line body closed | block body | error kind lexeme lost quoted => rfl

theorem items_scanAt_cons (file : FileId) (before : List Char) (c : Char) (rest : List Char)
    (atEnd : Bool) :
    ∃ ended, (scanAt file before (c :: rest) atEnd).items =
      ((front c rest).1.item? file (place before)).toList ++
        (scanAt file (before ++ (front c rest).1.text) (front c rest).2 ended).items := by
  by_cases blank : InputClass.of c = .whitespace ∨ InputClass.of c = .newline
  · have skipped : front c rest = (.blank c, rest) := by
      obtain sort | sort := blank <;> simp [front, sort]
    refine ⟨atEnd, ?_⟩
    simp only [skipped, Piece.item?, Piece.text, Option.toList_none, List.nil_append]
    apply items_eq_of_next?
    rw [Scan.next?_step, Scan.next?_step]
    simp only [scanAt, scanLexeme_blank file blank]
    rfl
  · obtain ⟨visible, flat⟩ := not_or.mp blank
    obtain ⟨ended, found⟩ := scanLexeme_covers file visible flat rest atEnd
    rw [← spanAt_behind]
    exact ⟨ended, items_scanAt_step found ((fits_front c rest).goesOn file _)⟩

theorem items_scanAt (file : FileId) (before rest : List Char) (atEnd : Bool) :
    (scanAt file before rest atEnd).items = emitted file before (pieces rest) := by
  fun_induction pieces rest generalizing before atEnd with
  | case1 => exact items_scanAt_nil file before atEnd
  | case2 c rest ih =>
    obtain ⟨ended, split⟩ := items_scanAt_cons file before c rest atEnd
    rw [split, ih]
    rfl

theorem not_isFailure_emitted (file : FileId) (before : List Char) (pieces : List Piece) :
    ∀ item ∈ emitted file before pieces, item.isFailure = false := by
  induction pieces generalizing before with
  | nil => simp [emitted, Item.isFailure]
  | cons piece pieces ih =>
    intro item member
    obtain here | later := List.mem_append.mp member
    · cases piece <;> simp_all [Piece.item?, Item.isFailure]
    · exact ih _ item later

theorem kind_ne_endOfStream {inner : List Item} (ordinary : ∀ item ∈ inner, item.isLast = false)
    {t : Token} (member : t ∈ inner.filterMap Item.token?) : t.kind ≠ .endOfStream := by
  obtain ⟨item, inside, emitted⟩ := List.mem_filterMap.mp member
  have last := ordinary item inside
  cases item with
  | token u =>
    cases emitted
    simpa [Item.isLast] using last
  | error e | failure e => cases emitted

theorem scan_ofText (file : FileId) (text : String) :
    scan file (.ofText text) =
      .ok ⟨(emitted file [] (pieces text.toList)).filterMap Item.token?,
        (emitted file [] (pieces text.toList)).filterMap Item.error?⟩ := by
  have items := items_scanAt file [] text.toList false
  have readable := not_isFailure_emitted file [] (pieces text.toList)
  rw [← items] at readable ⊢
  rw [ofText_eq_standing]
  exact collect_eq #[] #[] (scanAt file [] text.toList false) readable

end CherryLang.Lexical
