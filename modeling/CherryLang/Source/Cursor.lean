import CherryLang.Source.Error
import CherryLang.Source.Position
import CherryLang.Source.Utf8

/-! A cursor over the bytes of one source. It decodes one character at a time and keeps line and
column beside the byte offset, so that a saved place is restored exactly. Saved places form a stack:
`mark` pushes, `commit` pops, `rewind` pops and goes back.

A failing read leaves the place where it was, but the bytes it looked at are gone: every later read
starts that much further on. `lost` counts them, and no operation gives them back. -/
namespace CherryLang

structure Cursor where
  bytes : ByteArray
  position : Position := .origin
  lost : Nat := 0
  /-- Saved places, the latest first. -/
  marks : List Position := []
  /-- Whether a read has met the end of the input since the last repositioning. -/
  atEnd : Bool := false
  closed : Bool := false

namespace Cursor

def ofBytes (bytes : ByteArray) : Cursor where
  bytes := bytes

def ofText (text : String) : Cursor := ofBytes text.toUTF8

/-- The byte at which the next read starts. -/
def handle (r : Cursor) : Nat := r.position.offset + r.lost

def remaining (r : Cursor) : Nat := r.bytes.size - r.handle

def depth (r : Cursor) : Nat := r.marks.length

/-- Advance by one character; `none` is the end of the input. -/
def read (r : Cursor) : Except ReadError (Option Char) × Cursor :=
  if r.closed then (.error .closed, r)
  else match Utf8.decode r.bytes r.handle with
    | .ended => (.ok none, { r with atEnd := true })
    | .char c => (.ok (some c), { r with position := r.position.advance c })
    | .invalid looked =>
      (.error (.invalidUtf8 r.position.offset), { r with lost := r.lost + looked })

def mark (r : Cursor) : Cursor := { r with marks := r.position :: r.marks }

def drop (r : Cursor) : Cursor := { r with marks := r.marks.tail }

def commit (r : Cursor) : Bool × Cursor := (!r.marks.isEmpty, r.drop)

def reposition (r : Cursor) (target : Position) : Except ReadError Unit × Cursor :=
  if r.closed then (.error .closed, r)
  else (.ok (), { r with position := target, atEnd := false })

/-- Return to the latest mark; without one nothing happens and the answer is `false`. -/
def rewind (r : Cursor) : Except ReadError Bool × Cursor :=
  match r.marks with
  | [] => (.ok false, r)
  | saved :: _ =>
    match r.drop.reposition saved with
    | (.ok _, r) => (.ok true, r)
    | (.error e, r) => (.error e, r)

def close (r : Cursor) : Cursor := { r with closed := true, marks := [] }

@[simp] theorem remaining_mark (r : Cursor) : r.mark.remaining = r.remaining := rfl

@[simp] theorem remaining_drop (r : Cursor) : r.drop.remaining = r.remaining := rfl

theorem remaining_lt_of_read {r r' : Cursor} {c : Char} (result : r.read = (.ok (some c), r')) :
    r'.remaining < r.remaining := by
  unfold read at result
  split at result
  · cases result
  · split at result
    · cases result
    · next c' decoded =>
      cases result
      have inside := Utf8.lt_size_of_decode_char decoded
      have wide := c.utf8Size_pos
      simp only [remaining, handle, Position.offset_advance] at inside ⊢
      omega
    · cases result

theorem remaining_drop_lt_of_read_mark {r r' : Cursor} {c : Char}
    (result : r.mark.read = (.ok (some c), r')) : r'.drop.remaining < r.remaining := by
  simpa using remaining_lt_of_read result

/-- Characters up to the next newline, that newline included, behind those in `line`. -/
def readLine (line : String) (r : Cursor) : Except ReadError String × Cursor :=
  match _result : r.read with
  | (.error e, r') => (.error e, r')
  | (.ok none, r') => (.ok line, r')
  | (.ok (some c), r') => if c = '\n' then (.ok (line.push c), r') else readLine (line.push c) r'
termination_by r.remaining
decreasing_by exact remaining_lt_of_read _result

/-- The rest of the current line, its newline included, without moving. -/
def peekLine (r : Cursor) : Except ReadError String × Cursor :=
  let (line, r') := readLine "" r.mark
  match r'.rewind with
  | (.error e, r'') => (.error e, r'')
  | (.ok _, r'') => (line, { r'' with atEnd := r.atEnd })

def readMany (skipped : Nat) : Nat → Cursor → Except ReadError Nat × Cursor
  | 0, r => (.ok skipped, r)
  | n + 1, r =>
    match r.read with
    | (.error e, r') => (.error e, r')
    | (.ok none, r') => (.ok skipped, r')
    | (.ok (some _), r') => readMany (skipped + 1) n r'

/-- Advance by `n` characters without keeping them. The place before is marked, so that `rewind`
undoes it. -/
def skip (r : Cursor) (n : Nat) : Except ReadError Nat × Cursor := readMany 0 n r.mark

/-- Read on to byte offset `target`. The answer is `false` if the input ends first or the offset
falls inside a character. -/
def readTo (target : Nat) (r : Cursor) : Except ReadError Bool × Cursor :=
  if r.position.offset < target then
    match _result : r.read with
    | (.error e, r') => (.error e, r')
    | (.ok none, r') => (.ok false, r')
    | (.ok (some _), r') => readTo target r'
  else (.ok (r.position.offset == target), r)
termination_by r.remaining
decreasing_by exact remaining_lt_of_read _result

def seekTo (r : Cursor) (target : Nat) (backward : Bool) : Except ReadError Bool × Cursor :=
  if backward then
    match r.reposition .origin with
    | (.error e, r') => (.error e, r')
    | (.ok _, r') => r'.readTo target
  else r.readTo target

/-- Move by `delta` bytes. A failing move returns to the place where it began. -/
def seek (r : Cursor) (delta : Int) : Except ReadError Unit × Cursor :=
  let outOfBounds := ReadError.seekOutOfBounds r.position.offset delta
  let target := r.position.offset + delta
  if target < 0 then (.error outOfBounds, r)
  else
    let back (failure : ReadError) (r' : Cursor) : Except ReadError Unit × Cursor :=
      match r'.reposition r.position with
      | (.error e, r'') => (.error e, r'')
      | (.ok _, r'') => (.error failure, { r'' with atEnd := r.atEnd })
    match r.seekTo target.toNat (delta < 0) with
    | (.ok true, r') => (.ok (), r')
    | (.ok false, r') => back outOfBounds r'
    | (.error e, r') => back e r'

end Cursor

end CherryLang
