import CherryLang.Proofs.Lexical.Lossless

namespace CherryLang

namespace Cursor

variable {r r₁ r₂ : Cursor}

theorem Follows.drop (follows : Follows r.mark r₁) : Follows r r₁.drop :=
  ⟨follows.bytes, congrArg List.tail follows.marks, follows.closed, follows.lost⟩

theorem follows_rewind {moved : Bool} (result : r.rewind = (.ok moved, r₁)) :
    Follows r.drop r₁ := by
  unfold rewind at result
  split at result
  · next none =>
    cases result
    exact ⟨rfl, by simp [drop, none], rfl, Nat.le_refl _⟩
  · split at result
    · next back =>
      cases result
      unfold reposition at back
      split at back
      · cases back
      · cases back
        exact ⟨rfl, rfl, rfl, Nat.le_refl _⟩
    · cases result

theorem Follows.rewind {moved : Bool} (follows : Follows r.mark r₁)
    (result : r₁.rewind = (.ok moved, r₂)) : Follows r r₂ :=
  follows.drop.trans (follows_rewind result)

theorem follows_of_read {result : Except ReadError (Option Char)} (read : r.read = (result, r₁)) :
    Follows r r₁ := by
  have step := follows_read r
  rwa [read] at step

theorem follows_peekLine {line : String} (result : r.peekLine = (.ok line, r₁)) :
    Follows r r₁ := by
  have ahead := follows_readLine "" r.mark
  unfold peekLine at result
  cases seen : readLine "" r.mark with
  | mk outcome r₂ =>
    simp only [seen] at result ahead
    split at result
    · cases result
    · next back =>
      cases result
      have returned := ahead.rewind back
      exact ⟨returned.bytes, returned.marks, returned.closed, returned.lost⟩

end Cursor

namespace Lexical
open Cursor

/-- A step that reads without failure leaves the marks that it found. -/
def Balanced (r : Cursor) : Option Item × Cursor → Prop
  | (some (.failure _), _) => True
  | (some (.token _), r') | (some (.error _), r') | (none, r') => Follows r r'

section

variable {file : FileId} {start : Position} {r r₁ : Cursor}

theorem Balanced.after {result : Option Item × Cursor} (before : Follows r r₁)
    (balanced : Balanced r₁ result) : Balanced r result := by
  obtain ⟨item, r₂⟩ := result
  rcases item with _ | (t | e | e)
  · exact before.trans balanced
  · exact before.trans balanced
  · exact before.trans balanced
  · trivial

theorem balanced_emitToken (kind : Kind) (lexeme : String) :
    Balanced r (emitToken file kind lexeme start r) := Follows.refl r

theorem balanced_emitError (kind : ErrorKind) (lexeme : String) :
    Balanced r (emitError kind lexeme start r) := by
  unfold emitError
  split
  · trivial
  · next seen => exact follows_peekLine seen

theorem follows_nextIs {c : Char} {found : Bool} (result : nextIs c r = (.ok found, r₁)) :
    Follows r r₁ := by
  unfold nextIs at result
  split at result
  · cases result
  · next seen =>
    split at result
    · cases result
    · next back =>
      cases result
      exact (follows_of_read seen).rewind back

theorem follows_skipLine (r : Cursor) : Follows r (skipLine r).2 := by
  fun_induction skipLine r with
  | case1 r e r' result => exact follows_of_read result
  | case2 r r' result => exact follows_of_read result
  | case3 r r' result => exact follows_of_read result
  | case4 r c r' result _ ih => exact (follows_of_read result).trans ih

theorem follows_skipBlock (previous : Option Char) (r : Cursor) :
    Follows r (skipBlock previous r).2 := by
  fun_induction skipBlock previous r with
  | case1 previous r e r' result => exact follows_of_read result
  | case2 previous r r' result => exact follows_of_read result
  | case3 previous r c r' result => exact follows_of_read result
  | case4 previous r c r' result _ ih => exact (follows_of_read result).trans ih

theorem balanced_finishWord (word : String) : Balanced r (finishWord file word start r) := by
  unfold finishWord
  split
  · exact balanced_emitToken _ _
  · split
    · trivial
    · next seen => exact (balanced_emitToken _ _).after (follows_nextIs seen)
    · next seen => exact (balanced_emitToken _ _).after (follows_nextIs seen)

theorem balanced_finishNumber (run : String) : Balanced r (finishNumber file run start r) := by
  unfold finishNumber
  split
  · exact balanced_emitToken _ _
  · exact balanced_emitError _ _

theorem balanced_finishSymbol (run : String) : Balanced r (finishSymbol file run start r) := by
  have line := follows_skipLine r
  have block := follows_skipBlock none r
  unfold finishSymbol
  split
  · split
    · trivial
    · next seen => rwa [seen] at line
  · split
    · split
      · trivial
      · next seen => rwa [seen] at block
      · next seen => rwa [seen] at block
    · exact balanced_emitToken _ _

theorem balanced_finishRun (state : State) (run : String) :
    Balanced r (finishRun file state run start r) := by
  unfold finishRun
  split
  · exact balanced_finishWord _
  · exact balanced_finishNumber _
  · exact balanced_finishSymbol _
  all_goals exact balanced_emitToken _ _

theorem balanced_endRun (state : State) (run : String) (ahead : Follows r.mark r₁) :
    Balanced r (endRun file state run start r₁) := by
  unfold endRun
  split
  · trivial
  · next back => exact (balanced_finishRun _ _).after (ahead.rewind back)

theorem balanced_finishLiteral (run : String) : Balanced r (finishLiteral file run start r) := by
  unfold finishLiteral
  split
  · exact balanced_emitError _ _
  · exact balanced_emitToken _ _

theorem balanced_emitUnexpected (state : State) (c : Option Char) (run : String) :
    Balanced r (emitUnexpected state c run start r) := by
  unfold emitUnexpected
  split
  · exact Follows.refl r
  · exact balanced_emitError _ _

theorem balanced_scanFrom (state : State) (run : String) :
    Balanced r (scanFrom file state run start r) := by
  fun_induction scanFrom file state run start r with
  | case1 => trivial
  | case2 state run start r r₁ read =>
    exact (balanced_emitToken _ _).after (follows_of_read read).drop
  | case3 state run start r r₁ read =>
    exact (balanced_emitUnexpected _ _ _).after (follows_of_read read).drop
  | case4 state run start r r₁ read => exact balanced_endRun _ _ (follows_of_read read)
  | case5 state run start r c r₁ read =>
    exact (balanced_finishLiteral _).after (follows_of_read read).drop
  | case6 state run start r c r₁ read _ _ ih => exact ih.after (follows_of_read read).drop
  | case7 state run start r c r₁ read => exact balanced_endRun _ _ (follows_of_read read)
  | case8 run start r c r₁ read _ _ _ ih => exact ih.after (follows_of_read read).drop
  | case9 state run start r c r₁ read => exact balanced_endRun _ _ (follows_of_read read)
  | case10 state run start r c r₁ read =>
    exact (balanced_emitToken _ _).after (follows_of_read read).drop
  | case11 state run start r c r₁ read =>
    exact (balanced_emitUnexpected _ _ _).after (follows_of_read read).drop
  | case12 state run start r c r₁ read _ _ _ _ _ ih =>
    exact ih.after (follows_of_read read).drop

theorem balanced_scanLexeme (file : FileId) (r : Cursor) : Balanced r (scanLexeme file r) :=
  balanced_scanFrom _ _

theorem Balanced.follows {item : Option Item} (balanced : Balanced r (item, r₁))
    (read : ∀ e, item ≠ some (.failure e)) : Follows r r₁ := by
  rcases item with _ | (t | e | e)
  · exact balanced
  · exact balanced
  · exact balanced
  · exact absurd rfl (read e)

end

theorem ne_failure_of_goesOn {item : Option Item} (more : goesOn item) (e : ReadError) :
    item ≠ some (.failure e) := by
  rintro rfl
  simp [goesOn, Item.isLast] at more

/-- `r` is a cursor between two lexemes of the scan that begins at `r₀`, and `items` have been
emitted on the way to it. -/
inductive Reaches (file : FileId) (r₀ : Cursor) : List Item → Cursor → Prop
  | start : Reaches file r₀ [] r₀
  | step {items : List Item} {item : Option Item} {r r' : Cursor} (before : Reaches file r₀ items r)
      (call : scanLexeme file r = (item, r')) (more : goesOn item) :
      Reaches file r₀ (items ++ item.toList) r'

theorem Reaches.trans {file : FileId} {r₀ r r' : Cursor} {items items' : List Item}
    (first : Reaches file r₀ items r) (second : Reaches file r items' r') :
    Reaches file r₀ (items ++ items') r' := by
  induction second with
  | start => rwa [List.append_nil]
  | step before call more ih =>
    rw [← List.append_assoc]
    exact .step ih call more

/-- A call that begins behind `before`, with `rest` ahead, reads the pieces `taken`, emits what they
emit or the end of the stream, and ends right behind them with the marks that were there. -/
structure Reads (file : FileId) (before rest : List Char) (marks : List Position)
    (taken : List Piece) (left : List Char) (item : Option Item) (r : Cursor) : Prop where
  split : pieces rest = taken ++ pieces left
  cursor : ∃ ended, r = standing (before ++ taken.flatMap Piece.text) left marks ended
  emits : emitted file before (pieces rest) = item.toList ++
    if goesOn item then emitted file (before ++ taken.flatMap Piece.text) (pieces left) else []
  readable : ∀ e, item ≠ some (.failure e)

theorem exists_reads_scanLexeme (file : FileId) (before rest : List Char) (marks : List Position)
    (atEnd : Bool) :
    ∃ taken left, Reads file before rest marks taken left
      (scanLexeme file (standing before rest marks atEnd)).1
      (scanLexeme file (standing before rest marks atEnd)).2 := by
  fun_induction pieces rest generalizing before with
  | case1 =>
    rw [scanLexeme_end]
    refine ⟨[], [], rfl, ⟨true, by simp⟩, ?_, by simp⟩
    simp [pieces, emitted, spanAt_behind, goesOn, Item.isLast]
  | case2 c rest ih =>
    by_cases blank : InputClass.of c = .whitespace ∨ InputClass.of c = .newline
    · have skipped : front c rest = (.blank c, rest) := by
        obtain sort | sort := blank <;> simp [front, sort]
      rw [scanLexeme_blank file blank]
      rw [skipped] at ih
      obtain ⟨taken, left, reads⟩ := ih (before ++ [c])
      have longer : before ++ (Piece.blank c :: taken).flatMap Piece.text =
          before ++ [c] ++ taken.flatMap Piece.text := by simp [Piece.text]
      refine ⟨.blank c :: taken, left, ?_, ?_, ?_, reads.readable⟩
      · rw [pieces, skipped, reads.split, List.cons_append]
      · rw [longer]
        exact reads.cursor
      · rw [pieces, skipped, longer, ← reads.emits]
        rfl
    · obtain ⟨visible, flat⟩ := not_or.mp blank
      obtain ⟨ended, found⟩ := scanLexeme_covers file visible flat rest atEnd
      have more := (fits_front c rest).goesOn file (spanAt (.behind before))
      rw [found]
      refine ⟨[(front c rest).1], (front c rest).2, by rw [pieces]; rfl, ⟨ended, by simp⟩, ?_,
        ne_failure_of_goesOn more⟩
      rw [if_pos more, pieces, emitted, spanAt_behind, List.flatMap_singleton]

theorem Reaches.exists_pieces {file : FileId} {text : String} {items : List Item} {r : Cursor}
    (reached : Reaches file (.ofText text) items r) :
    ∃ read left ended, pieces text.toList = read ++ pieces left ∧
      r = standing (read.flatMap Piece.text) left [] ended ∧
      emitted file [] (pieces text.toList) =
        items ++ emitted file (read.flatMap Piece.text) (pieces left) := by
  induction reached with
  | start => exact ⟨[], text.toList, false, rfl, ofText_eq_standing text, rfl⟩
  | step before call more ih =>
    obtain ⟨read, left, ended, split, rfl, emits⟩ := ih
    obtain ⟨taken, left', reads⟩ := exists_reads_scanLexeme file (read.flatMap Piece.text) left []
      ended
    rw [call] at reads
    obtain ⟨ended', rfl⟩ := reads.cursor
    refine ⟨read ++ taken, left', ended', ?_, ?_, ?_⟩
    · rw [split, reads.split, List.append_assoc]
    · rw [List.flatMap_append]
    · rw [emits, reads.emits, if_pos more, List.flatMap_append, List.append_assoc]

/-- The scan is over: its cursor is closed and has no marks. -/
structure Scan.Over (s : Scan) : Prop where
  done : s.done = true
  closed : s.cursor.closed = true
  marks : s.cursor.marks = []

theorem Scan.next?_reaches {s s' : Scan} {item : Item} (call : s.next? = (some item, s')) :
    if item.isLast then s'.Over
    else s'.done = false ∧ s'.file = s.file ∧ Reaches s.file s.cursor [item] s'.cursor := by
  fun_induction next? s with
  | case1 => cases call
  | case2 s running r lexeme ih =>
    have skipped : Reaches s.file s.cursor [] r := .step .start lexeme rfl
    have later := ih call
    split at later
    · next last =>
      rw [if_pos last]
      exact later
    · next inner =>
      rw [if_neg inner]
      exact ⟨later.1, later.2.1, skipped.trans later.2.2⟩
  | case3 s running item r lexeme last =>
    cases call
    rw [if_pos last]
    exact ⟨rfl, rfl, rfl⟩
  | case4 s running item r lexeme more =>
    cases call
    rw [if_neg more]
    refine ⟨Bool.eq_false_iff.mpr running, rfl, ?_⟩
    exact @Reaches.step s.file s.cursor [] (some item) _ _ .start lexeme
      (by simpa [goesOn] using more)

theorem Scan.next?_ne_none {s s' : Scan} (running : s.done = false) : s.next? ≠ (none, s') := by
  intro call
  fun_induction next? s with
  | case1 s done => simp [running] at done
  | case2 s _ r lexeme ih => exact ih running call
  | case3 => cases call
  | case4 => cases call

def Scan.after (s : Scan) : Nat → Scan
  | 0 => s
  | n + 1 => s.next?.2.after n

theorem Scan.Over.after {s : Scan} (ended : s.Over) (n : Nat) : (s.after n).Over := by
  induction n with
  | zero => exact ended
  | succ n ih => rwa [Scan.after, Scan.next?_step, if_pos ended.done]

theorem Scan.after_reaches {s : Scan} (running : s.done = false) (n : Nat) :
    (s.after n).Over ∨
      (s.after n).done = false ∧ ∃ items, Reaches s.file s.cursor items (s.after n).cursor := by
  induction n generalizing s with
  | zero => exact .inr ⟨running, [], .start⟩
  | succ n ih =>
    obtain ⟨found, s', call⟩ : ∃ found s', s.next? = (found, s') := ⟨_, _, rfl⟩
    cases found with
    | none => exact absurd call (Scan.next?_ne_none running)
    | some item =>
      have step := Scan.next?_reaches call
      rw [after, call]
      split at step
      · exact .inl (step.after n)
      · obtain ⟨running', same, reached⟩ := step
        refine (ih running').imp_right ?_
        rintro ⟨later, items, further⟩
        rw [same] at further
        exact ⟨later, _, reached.trans further⟩

/-- The marks of a scan are balanced. A call of `scanLexeme` that does not fail to read leaves the
marks that it found, from any cursor over any bytes. In a text no call fails, and each ends right
behind the pieces that it has read. So between two lexemes there is no mark, and the cursor stands
behind the pieces of what has been emitted. A scan that has emitted the end of the stream or a
failure is closed and has no marks; till then it stands between two lexemes. -/
theorem scan_marks (file : FileId) :
    (∀ (r r' : Cursor) (item : Option Item), scanLexeme file r = (item, r') →
        (∀ e, item ≠ some (.failure e)) → r'.marks = r.marks) ∧
      (∀ (before rest : List Char) (marks : List Position) (atEnd : Bool), ∃ taken left,
        Reads file before rest marks taken left
          (scanLexeme file (standing before rest marks atEnd)).1
          (scanLexeme file (standing before rest marks atEnd)).2) ∧
      (∀ text : String, ∃ pieces : List Piece,
        pieces.flatMap Piece.text = text.toList ∧ Laid pieces ∧
          ∀ items r, Reaches file (.ofText text) items r → ∃ read left, pieces = read ++ left ∧
            r.marks = [] ∧ r.position = .measured (read.flatMap Piece.text) ∧
            (∃ ended, r = standing (read.flatMap Piece.text) (left.flatMap Piece.text) [] ended) ∧
            emitted file [] pieces = items ++ emitted file (read.flatMap Piece.text) left) ∧
      (∀ (s s' : Scan) (item : Item), s.next? = (some item, s') → item.isLast = true → s'.Over) ∧
      ∀ (r : Cursor) (n : Nat), let s := Scan.after { cursor := r, file := file } n
        s.Over ∨ s.done = false ∧ ∃ items, Reaches file r items s.cursor := by
  refine ⟨?_, exists_reads_scanLexeme file, fun text => ?_, ?_, ?_⟩
  · intro r r' item call read
    have balanced := balanced_scanLexeme file r
    rw [call] at balanced
    exact (balanced.follows read).marks
  · refine ⟨pieces text.toList, flatMap_text_pieces _, laid_pieces _, ?_⟩
    intro items r reached
    obtain ⟨read, left, ended, split, rfl, emits⟩ := reached.exists_pieces
    refine ⟨read, pieces left, split, rfl, Position.behind_eq_measured _, ⟨ended, ?_⟩, emits⟩
    rw [flatMap_text_pieces]
  · intro s s' item call last
    have step := Scan.next?_reaches call
    rwa [if_pos last] at step
  · intro r n
    exact Scan.after_reaches rfl n

end Lexical

end CherryLang
