import CherryLang.Lexical.Lexeme
import CherryLang.Source.Progress

namespace CherryLang.Lexical

/-- Whether nothing follows an item: the end of the stream, or a read error. -/
def Item.isLast : Item → Bool
  | .token t => t.kind == .endOfStream
  | .error _ => false
  | .failure _ => true

/-- Whether the scan goes on behind this step; no item is a skipped comment. -/
def goesOn : Option Item → Bool
  | none => true
  | some item => !item.isLast

theorem remaining_emitError_le {kind : ErrorKind} {lexeme : String} {start : Position}
    {r r' : Cursor} {item : Option Item} (result : emitError kind lexeme start r = (item, r'))
    (more : goesOn item) : r'.remaining ≤ r.remaining := by
  unfold emitError at result
  split at result
  · cases result
    simp [goesOn, Item.isLast] at more
  · next seen =>
    cases result
    exact Cursor.remaining_peekLine_le seen

theorem remaining_nextIs_le {c : Char} {r r' : Cursor} {found : Bool}
    (result : nextIs c r = (.ok found, r')) : r'.remaining ≤ r.remaining := by
  unfold nextIs at result
  split at result
  · cases result
  · next seen =>
    have follows := Cursor.follows_read r.mark
    rw [seen] at follows
    split at result
    · cases result
    · next back =>
      cases result
      exact Cursor.remaining_rewind_le follows back

theorem remaining_skipLine_le (r : Cursor) : (skipLine r).2.remaining ≤ r.remaining := by
  fun_induction skipLine r with
  | case1 r e r' result => simpa [result] using Cursor.remaining_read_le r
  | case2 r r' result => simpa [result] using Cursor.remaining_read_le r
  | case3 r r' result => simpa [result] using Cursor.remaining_read_le r
  | case4 r c r' result _ ih =>
    exact Nat.le_trans ih (Nat.le_of_lt (Cursor.remaining_lt_of_read result))

theorem remaining_skipBlock_le (previous : Option Char) (r : Cursor) :
    (skipBlock previous r).2.remaining ≤ r.remaining := by
  fun_induction skipBlock previous r with
  | case1 previous r e r' result => simpa [result] using Cursor.remaining_read_le r
  | case2 previous r r' result => simpa [result] using Cursor.remaining_read_le r
  | case3 previous r c r' result => simpa [result] using Cursor.remaining_read_le r
  | case4 previous r c r' result _ ih =>
    exact Nat.le_trans ih (Nat.le_of_lt (Cursor.remaining_lt_of_read result))

theorem remaining_finishWord_le {file : FileId} {word : String} {start : Position} {r r' : Cursor}
    {item : Option Item} (result : finishWord file word start r = (item, r'))
    (more : goesOn item) : r'.remaining ≤ r.remaining := by
  unfold finishWord emitToken at result
  split at result
  · cases result
    exact Nat.le_refl _
  · split at result
    · cases result
      simp [goesOn, Item.isLast] at more
    · next seen =>
      cases result
      exact remaining_nextIs_le seen
    · next seen =>
      cases result
      exact remaining_nextIs_le seen

theorem remaining_finishNumber_le {file : FileId} {run : String} {start : Position}
    {r r' : Cursor} {item : Option Item} (result : finishNumber file run start r = (item, r'))
    (more : goesOn item) : r'.remaining ≤ r.remaining := by
  unfold finishNumber at result
  split at result
  · cases result
    exact Nat.le_refl _
  · exact remaining_emitError_le result more

theorem remaining_finishSymbol_le {file : FileId} {run : String} {start : Position}
    {r r' : Cursor} {item : Option Item} (result : finishSymbol file run start r = (item, r')) :
    r'.remaining ≤ r.remaining := by
  unfold finishSymbol emitToken at result
  split at result
  · have bound := remaining_skipLine_le r
    split at result <;> next seen =>
      cases result
      rwa [seen] at bound
  · split at result
    · have bound := remaining_skipBlock_le none r
      split at result <;> next seen =>
        cases result
        rwa [seen] at bound
    · cases result
      exact Nat.le_refl _

theorem remaining_finishRun_le {file : FileId} {state : State} {run : String} {start : Position}
    {r r' : Cursor} {item : Option Item} (result : finishRun file state run start r = (item, r'))
    (more : goesOn item) : r'.remaining ≤ r.remaining := by
  unfold finishRun emitToken at result
  split at result
  · exact remaining_finishWord_le result more
  · exact remaining_finishNumber_le result more
  · exact remaining_finishSymbol_le result
  all_goals
    cases result
    exact Nat.le_refl _

theorem remaining_endRun_le {file : FileId} {state : State} {run : String} {start : Position}
    {r r₁ r' : Cursor} {seen : Except ReadError (Option Char)} {item : Option Item}
    (read : r.mark.read = (seen, r₁)) (result : endRun file state run start r₁ = (item, r'))
    (more : goesOn item) : r'.remaining ≤ r.remaining := by
  have follows := Cursor.follows_read r.mark
  rw [read] at follows
  unfold endRun at result
  split at result
  · cases result
    simp [goesOn, Item.isLast] at more
  · next back =>
    exact Nat.le_trans (remaining_finishRun_le result more)
      (Cursor.remaining_rewind_le follows back)

theorem remaining_finishLiteral_le {file : FileId} {run : String} {start : Position}
    {r r' : Cursor} {item : Option Item} (result : finishLiteral file run start r = (item, r'))
    (more : goesOn item) : r'.remaining ≤ r.remaining := by
  unfold finishLiteral emitToken at result
  split at result
  · exact remaining_emitError_le result more
  · cases result
    exact Nat.le_refl _

theorem remaining_emitUnexpected_le {state : State} {c : Option Char} {run : String}
    {start : Position} {r r' : Cursor} {item : Option Item}
    (result : emitUnexpected state c run start r = (item, r')) (more : goesOn item) :
    r'.remaining ≤ r.remaining := by
  unfold emitUnexpected at result
  split at result
  · cases result
    exact Nat.le_refl _
  · exact remaining_emitError_le result more

theorem not_goesOn_endOfStream {file : FileId} {start : Position} {r r' : Cursor}
    {item : Option Item} (result : emitToken file .endOfStream "" start r = (item, r')) :
    goesOn item = false := by
  cases result
  rfl

theorem remaining_scanFrom {file : FileId} {state : State} {run : String} {start : Position}
    {r r' : Cursor} {item : Option Item} (result : scanFrom file state run start r = (item, r'))
    (more : goesOn item) :
    r'.remaining ≤ r.remaining ∧ (state = .start → r'.remaining < r.remaining) := by
  fun_induction scanFrom file state run start r with
  | case1 =>
    cases result
    simp [goesOn, Item.isLast] at more
  | case2 => simp [not_goesOn_endOfStream result] at more
  | case3 state run start r r₁ read fails =>
    have step := Cursor.remaining_read_le r.mark
    rw [read] at step
    have tail := remaining_emitUnexpected_le result more
    refine ⟨Nat.le_trans tail step, fun atStart => ?_⟩
    simp [atStart, State.next] at fails
  | case4 state run start r r₁ read notStop _ =>
    refine ⟨remaining_endRun_le read result more, fun atStart => ?_⟩
    simp [atStart, State.next] at notStop
  | case5 state run start r c r₁ read =>
    have step := Cursor.remaining_drop_lt_of_read_mark read
    have tail := remaining_finishLiteral_le result more
    omega
  | case6 state run start r c r₁ read _ _ ih =>
    have step := Cursor.remaining_drop_lt_of_read_mark read
    have tail := (ih result).1
    omega
  | case7 state run start r c r₁ read _ grows =>
    refine ⟨remaining_endRun_le read result more, fun atStart => ?_⟩
    simp [atStart] at grows
  | case8 run start r c r₁ read _ _ _ ih =>
    have step := Cursor.remaining_drop_lt_of_read_mark read
    have tail := (ih result).1
    omega
  | case9 state run start r c r₁ read _ _ _ notStart =>
    exact ⟨remaining_endRun_le read result more, fun atStart => absurd atStart notStart⟩
  | case10 => simp [not_goesOn_endOfStream result] at more
  | case11 state run start r c r₁ read =>
    have step := Cursor.remaining_drop_lt_of_read_mark read
    have tail := remaining_emitUnexpected_le result more
    omega
  | case12 state run start r c r₁ read _ _ _ _ _ ih =>
    have step := Cursor.remaining_drop_lt_of_read_mark read
    have tail := (ih result).1
    omega

theorem remaining_scanLexeme_lt {file : FileId} {r r' : Cursor} {item : Option Item}
    (result : scanLexeme file r = (item, r')) (more : goesOn item) :
    r'.remaining < r.remaining :=
  (remaining_scanFrom result more).2 rfl

end CherryLang.Lexical
