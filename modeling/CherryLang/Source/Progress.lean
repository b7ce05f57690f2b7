import CherryLang.Source.Cursor

namespace CherryLang.Cursor

/-- `r'` reads the same source as `r` with the same marks, and has recovered no lost byte. -/
structure Follows (r r' : Cursor) : Prop where
  bytes : r'.bytes = r.bytes
  marks : r'.marks = r.marks
  closed : r'.closed = r.closed
  lost : r.lost ≤ r'.lost

theorem Follows.refl (r : Cursor) : Follows r r := ⟨rfl, rfl, rfl, Nat.le_refl _⟩

theorem Follows.trans {r r' r'' : Cursor} (first : Follows r r') (second : Follows r' r'') :
    Follows r r'' :=
  ⟨second.bytes.trans first.bytes, second.marks.trans first.marks,
    second.closed.trans first.closed, Nat.le_trans first.lost second.lost⟩

theorem follows_read (r : Cursor) : Follows r r.read.2 := by
  unfold read
  split
  · exact .refl r
  · split
    · exact ⟨rfl, rfl, rfl, Nat.le_refl _⟩
    · exact ⟨rfl, rfl, rfl, Nat.le_refl _⟩
    · exact ⟨rfl, rfl, rfl, Nat.le_add_right _ _⟩

theorem remaining_read_le (r : Cursor) : r.read.2.remaining ≤ r.remaining := by
  unfold read
  split
  · exact Nat.le_refl _
  · split <;> simp only [remaining, handle, Position.offset_advance] <;> omega

theorem follows_readLine (line : String) (r : Cursor) : Follows r (readLine line r).2 := by
  fun_induction readLine line r with
  | case1 line r e r' result => simpa [result] using follows_read r
  | case2 line r r' result => simpa [result] using follows_read r
  | case3 line r r' result => simpa [result] using follows_read r
  | case4 line r c r' result _ ih =>
    have step : Follows r r' := by simpa [result] using follows_read r
    exact step.trans ih

theorem remaining_rewind_le {r r' r'' : Cursor} {moved : Bool} (follows : Follows r.mark r')
    (result : r'.rewind = (.ok moved, r'')) : r''.remaining ≤ r.remaining := by
  have saved : r'.marks = r.position :: r.marks := follows.marks
  have lost := follows.lost
  have bytes := follows.bytes
  simp only [rewind, saved, reposition] at result
  split at result
  · next moved =>
    split at moved
    · cases moved
    · cases moved
      cases result
      simp only [mark] at lost bytes
      simp only [remaining, handle, drop, bytes]
      omega
  · cases result

theorem remaining_peekLine_le {r r' : Cursor} {line : String}
    (result : r.peekLine = (.ok line, r')) : r'.remaining ≤ r.remaining := by
  unfold peekLine at result
  have follows := follows_readLine "" r.mark
  cases seen : readLine "" r.mark with
  | mk outcome r₁ =>
    simp only [seen] at result follows
    split at result
    · cases result
    · next back =>
      cases result
      have bound := remaining_rewind_le follows back
      exact bound

end CherryLang.Cursor
