import CherryLang.Proofs.Source.Standing

namespace CherryLang

namespace Cursor

inductive Request where
  | read | peekLine | mark | commit | rewind | close
  | skip (n : Nat)
  | seek (delta : Int)

inductive Reply where
  | unit (c : Option Char)
  | line (text : String)
  | count (n : Nat)
  | flag (b : Bool)
  | done
  deriving DecidableEq

def perform (r : Cursor) : Request → Except ReadError Reply × Cursor
  | .read => (r.read.1.map .unit, r.read.2)
  | .peekLine => (r.peekLine.1.map .line, r.peekLine.2)
  | .mark => (.ok .done, r.mark)
  | .commit => (.ok (.flag r.commit.1), r.commit.2)
  | .rewind => (r.rewind.1.map .flag, r.rewind.2)
  | .close => (.ok .done, r.close)
  | .skip n => ((r.skip n).1.map .count, (r.skip n).2)
  | .seek delta => ((r.seek delta).1.map fun _ => .done, (r.seek delta).2)

/-- What can be seen of a cursor behind a request. -/
structure View where
  reply : Except ReadError Reply
  position : Position
  atEnd : Bool
  depth : Nat
  closed : Bool

def view (r : Cursor) (reply : Except ReadError Reply) : View :=
  ⟨reply, r.position, r.atEnd, r.depth, r.closed⟩

def run (r : Cursor) : List Request → List View
  | [] => []
  | request :: more =>
    (r.perform request).2.view (r.perform request).1 :: (r.perform request).2.run more

end Cursor

open Cursor (Request Reply View)

/-- A cursor over a list of characters. -/
structure PlainCursor where
  index : Nat := 0
  saved : List Nat := []
  ended : Bool := false
  closed : Bool := false

namespace PlainCursor

section

variable (text : List Char)

def position (p : PlainCursor) : Position := .measured (text.take p.index)

/-- How many characters stand before the one that begins at this byte, or before the end. -/
def boundary? (offset : Int) : Option Nat :=
  (List.range (text.length + 1)).find? fun i =>
    (Position.measured (text.take i)).offset == offset

def perform (p : PlainCursor) : Request → Except ReadError Reply × PlainCursor
  | .read =>
    if p.closed then (.error .closed, p)
    else match text[p.index]? with
      | some c => (.ok (.unit (some c)), { p with index := p.index + 1 })
      | none => (.ok (.unit none), { p with ended := true })
  | .peekLine =>
    if p.closed then (.error .closed, p)
    else (.ok (.line (String.ofList (firstLine (text.drop p.index)))), p)
  | .mark => (.ok .done, { p with saved := p.index :: p.saved })
  | .commit => (.ok (.flag (!p.saved.isEmpty)), { p with saved := p.saved.tail })
  | .rewind =>
    match p.saved with
    | [] => (.ok (.flag false), p)
    | i :: saved =>
      if p.closed then (.error .closed, { p with saved := saved })
      else (.ok (.flag true), { p with index := i, saved := saved, ended := false })
  | .close => (.ok .done, { p with saved := [], closed := true })
  | .skip n =>
    let marked := { p with saved := p.index :: p.saved }
    let rest := text.length - p.index
    if p.closed then (if n = 0 then .ok (.count 0) else .error .closed, marked)
    else
      (.ok (.count (min n rest)),
        { marked with index := p.index + min n rest, ended := p.ended || decide (rest < n) })
  | .seek delta =>
    let start := (p.position text).offset
    let outOfBounds := .error (.seekOutOfBounds start delta)
    if p.closed then
      (if delta = 0 then .ok .done
        else if start + delta < 0 then outOfBounds
        else .error .closed, p)
    else match boundary? text (start + delta) with
      | some i => (.ok .done, { p with index := i, ended := p.ended && decide (0 ≤ delta) })
      | none => (outOfBounds, p)

def view (p : PlainCursor) (reply : Except ReadError Reply) : View :=
  ⟨reply, p.position text, p.ended, p.saved.length, p.closed⟩

def run (p : PlainCursor) : List Request → List View
  | [] => []
  | request :: more =>
    (p.perform text request).2.view text (p.perform text request).1 ::
      (p.perform text request).2.run more

def cursor (p : PlainCursor) : Cursor :=
  { Cursor.standing (text.take p.index) (text.drop p.index)
      (p.saved.map fun i => .behind (text.take i)) p.ended with
    closed := p.closed }

/-- No index leads beyond the text, and the end has been met only there. -/
structure Inside (p : PlainCursor) : Prop where
  index : p.index ≤ text.length
  saved : ∀ i ∈ p.saved, i ≤ text.length
  ended : p.ended = true → p.index = text.length

end

end PlainCursor

namespace Cursor

section

variable (before rest : List Char) (marks : List Position) (atEnd : Bool)

theorem readMany_standing (skipped n : Nat) :
    readMany skipped n (standing before rest marks atEnd) =
      (.ok (skipped + min n rest.length),
        standing (before ++ rest.take n) (rest.drop n) marks
          (atEnd || decide (rest.length < n))) := by
  induction n generalizing before rest skipped with
  | zero => simp [readMany]
  | succ n ih =>
    cases rest with
    | nil => simp [readMany]
    | cons c rest =>
      simp only [readMany, read_standing_cons, ih, List.length_cons, List.take_succ_cons,
        List.drop_succ_cons, List.append_assoc, List.singleton_append, Nat.add_lt_add_iff_right,
        Prod.mk.injEq, Except.ok.injEq, and_true]
      omega

theorem readTo_step (target : Nat) (r : Cursor) :
    readTo target r =
      if r.position.offset < target then
        match r.read with
        | (.error e, r') => (.error e, r')
        | (.ok none, r') => (.ok false, r')
        | (.ok (some _), r') => readTo target r'
      else (.ok (r.position.offset == target), r) := by
  rw [readTo]
  split
  · split <;> simp only [*]
  · rfl

/-- A search for the byte `target` of `text` that began with the end flag `atEnd` stops at a
character that begins there. If none does, it stops anywhere. -/
inductive Searches (text : List Char) (target : Nat) (marks : List Position) (atEnd : Bool) :
    Except ReadError Bool × Cursor → Prop where
  | hit {here left} (inside : text = here ++ left) (there : here.utf8Encode.size = target) :
      Searches text target marks atEnd (.ok true, standing here left marks atEnd)
  | miss {here left ended} (inside : text = here ++ left)
      (nowhere : ∀ other, other <+: text → other.utf8Encode.size ≠ target) :
      Searches text target marks atEnd (.ok false, standing here left marks ended)

theorem size_append (front more : List Char) :
    (front ++ more).utf8Encode.size = front.utf8Encode.size + more.utf8Encode.size := by
  simp [List.utf8Encode_append]

theorem size_cons (c : Char) (more : List Char) :
    (c :: more).utf8Encode.size = c.utf8Size + more.utf8Encode.size := by
  simp [List.utf8Encode]

theorem eq_of_prefix_of_size {front text : List Char} (inside : front <+: text)
    (size : text.utf8Encode.size ≤ front.utf8Encode.size) : front = text := by
  obtain ⟨more, rfl⟩ := inside
  cases more with
  | nil => simp
  | cons c more =>
    have wide := c.utf8Size_pos
    rw [size_append, size_cons] at size
    omega

theorem prefix_of_size_le {front other text : List Char} (inside : front <+: text)
    (also : other <+: text) (size : front.utf8Encode.size ≤ other.utf8Encode.size) :
    front <+: other := by
  obtain shorter | longer := List.prefix_or_prefix_of_prefix inside also
  · exact shorter
  · obtain rfl := eq_of_prefix_of_size longer size
    exact List.prefix_refl _

theorem size_le_of_prefix {front text : List Char} (inside : front <+: text) :
    front.utf8Encode.size ≤ text.utf8Encode.size := by
  obtain ⟨more, rfl⟩ := inside
  rw [size_append]
  omega

/-- No beginning of a text ends inside a character. -/
theorem size_ne_of_prefix {c : Char} {target : Nat} (below : before.utf8Encode.size < target)
    (above : target < (before ++ [c]).utf8Encode.size) {other : List Char}
    (inside : other <+: before ++ c :: rest) : other.utf8Encode.size ≠ target := by
  intro size
  have here : before <+: before ++ c :: rest := List.prefix_append ..
  obtain ⟨more, rfl⟩ := prefix_of_size_le here inside (by omega)
  cases more with
  | nil =>
    rw [List.append_nil] at size
    omega
  | cons d more =>
    obtain ⟨rfl, -⟩ := by simpa using inside
    have bound := size_le_of_prefix (List.prefix_append (before ++ [d]) more)
    simp only [List.append_assoc, List.singleton_append] at bound above
    omega

theorem readTo_searches (target : Nat) (reachable : before.utf8Encode.size ≤ target) :
    Searches (before ++ rest) target marks atEnd
      (readTo target (standing before rest marks atEnd)) := by
  induction rest generalizing before with
  | nil =>
    rw [readTo_step, position_standing, Position.offset_behind]
    split
    · next short =>
      rw [read_standing_nil]
      refine .miss rfl fun other inside size => ?_
      have bound := size_le_of_prefix inside
      simp only [List.append_nil] at bound
      omega
    · have there : before.utf8Encode.size = target := by omega
      simp only [there, beq_self_eq_true]
      exact .hit rfl there
  | cons c rest ih =>
    rw [readTo_step, position_standing, Position.offset_behind]
    split
    · next short =>
      rw [read_standing_cons]
      by_cases within : (before ++ [c]).utf8Encode.size ≤ target
      · simpa using ih (before ++ [c]) within
      · have beyond : ((before ++ [c]).utf8Encode.size == target) = false := by
          rw [beq_eq_false_iff_ne]
          omega
        simp only
        rw [readTo_step, position_standing, Position.offset_behind,
          if_neg (by omega), beyond]
        exact .miss (by simp) fun other inside =>
          size_ne_of_prefix before rest short (by omega) inside
    · have there : before.utf8Encode.size = target := by omega
      simp only [there, beq_self_eq_true]
      exact .hit rfl there

theorem seekTo_searches (target : Nat) (backward : Bool)
    (reachable : backward = false → before.utf8Encode.size ≤ target) :
    Searches (before ++ rest) target marks (atEnd && !backward)
      ((standing before rest marks atEnd).seekTo target backward) := by
  cases backward with
  | false => simpa [seekTo] using readTo_searches before rest marks atEnd target (reachable rfl)
  | true =>
    have restart : (standing before rest marks atEnd).reposition .origin =
        (.ok (), standing [] (before ++ rest) marks false) := rfl
    simpa [seekTo, restart] using
      readTo_searches [] (before ++ rest) marks false target (Nat.zero_le _)

theorem reposition_standing {here left : List Char} (ended : Bool)
    (same : before ++ rest = here ++ left) :
    (standing here left marks ended).reposition (.behind before) =
      (.ok (), standing before rest marks false) := by
  simp [reposition, standing, same]

/-- A seek ends right behind the characters whose size is asked for, or it changes nothing. -/
theorem seek_standing (delta : Int) :
    (∃ here left, before ++ rest = here ++ left ∧
      (here.utf8Encode.size : Int) = before.utf8Encode.size + delta ∧
      (standing before rest marks atEnd).seek delta =
        (.ok (), standing here left marks (atEnd && decide (0 ≤ delta)))) ∨
    (∀ other, other <+: before ++ rest →
      (other.utf8Encode.size : Int) ≠ before.utf8Encode.size + delta) ∧
      (standing before rest marks atEnd).seek delta =
        (.error (.seekOutOfBounds before.utf8Encode.size delta),
          standing before rest marks atEnd) := by
  unfold seek
  simp only [position_standing, Position.offset_behind]
  split
  · next negative =>
    exact .inr ⟨fun other _ => by omega, rfl⟩
  · next natural =>
    have search := seekTo_searches before rest marks atEnd
      (before.utf8Encode.size + delta).toNat (decide (delta < 0)) (by simp; omega)
    generalize (standing before rest marks atEnd).seekTo _ _ = result at search
    cases search with
    | @hit here left inside there =>
      refine .inl ⟨here, left, inside, by omega, ?_⟩
      have forward : (!decide (delta < 0)) = decide (0 ≤ delta) := by simp [← decide_not]
      simp only [forward]
    | @miss here left ended inside nowhere =>
      refine .inr ⟨fun other beginning => ?_, ?_⟩
      · have differs := nowhere other beginning
        omega
      · simp only [reposition_standing before rest marks ended inside]
        rfl

end

section

variable {r : Cursor} (closed : r.closed = true)
include closed

theorem read_closed : r.read = (.error .closed, r) := by
  simp [read, closed]

theorem rewind_closed : r.rewind =
    (if r.marks.isEmpty then .ok false else .error .closed, r.drop) := by
  obtain ⟨bytes, position, lost, marks, atEnd, isClosed⟩ := r
  cases marks with
  | nil => rfl
  | cons saved marks =>
    obtain rfl : isClosed = true := closed
    rfl

theorem peekLine_closed : r.peekLine = (.error .closed, r) := by
  have failed : readLine "" r.mark = (.error .closed, r.mark) := by
    rw [readLine_step, read_closed (r := r.mark) closed]
  have back : r.mark.rewind = (.error .closed, r) := rewind_closed (r := r.mark) closed
  simp only [peekLine, failed, back]

theorem skip_closed (n : Nat) :
    r.skip n = (if n = 0 then .ok 0 else .error .closed, r.mark) := by
  unfold skip
  cases n with
  | zero => rfl
  | succ n => simp [readMany, read_closed (r := r.mark) closed]

theorem seek_closed (delta : Int) :
    r.seek delta =
      (if delta = 0 then .ok ()
        else if r.position.offset + delta < 0 then
          .error (.seekOutOfBounds r.position.offset delta)
        else .error .closed, r) := by
  have stuck (target : Position) : r.reposition target = (.error .closed, r) := by
    simp [reposition, closed]
  unfold seek
  by_cases still : delta = 0
  · simp [still, seekTo, readTo_step]
  · by_cases negative : r.position.offset + delta < 0
    · simp [still, negative]
    · by_cases backward : delta < 0
      · simp [still, negative, backward, seekTo, stuck]
      · have ahead : r.position.offset < (r.position.offset + delta).toNat := by omega
        simp [still, negative, backward, seekTo, readTo_step, ahead, read_closed closed, stuck]

end

end Cursor

namespace PlainCursor

section

variable {text : List Char} {p : PlainCursor}

theorem offset_take_lt {i j : Nat} (before : i < j) (inside : j ≤ text.length) :
    (Position.measured (text.take i)).offset < (Position.measured (text.take j)).offset := by
  have beginning : text.take i <+: text.take j := List.take_prefix_take_left (Nat.le_of_lt before)
  rw [Position.offset_measured, Position.offset_measured, ← Nat.not_le]
  intro size
  have lengths := congrArg List.length (Cursor.eq_of_prefix_of_size beginning size)
  simp only [List.length_take] at lengths
  omega

theorem boundary?_eq_some_iff {offset : Int} {i : Nat} :
    boundary? text offset = some i ↔
      i ≤ text.length ∧ (Position.measured (text.take i)).offset = offset := by
  simp only [boundary?, List.find?_range_eq_some, beq_iff_eq, List.mem_range, Bool.not_eq_true',
    beq_eq_false_iff_ne]
  constructor
  · rintro ⟨there, inside, -⟩
    exact ⟨by omega, there⟩
  · rintro ⟨inside, there⟩
    refine ⟨there, by omega, fun j before => ?_⟩
    have smaller := offset_take_lt before inside
    omega

/-- Asked for `request`, the cursor over the bytes does what `p` does. -/
def Mirrored (text : List Char) (p : PlainCursor) (request : Request) : Prop :=
  (p.cursor text).perform request =
    ((p.perform text request).1, (p.perform text request).2.cursor text)

theorem cursor_open (opened : p.closed = false) :
    p.cursor text = Cursor.standing (text.take p.index) (text.drop p.index)
      (p.saved.map fun i => .behind (text.take i)) p.ended := by
  rw [cursor, opened]
  rfl

theorem closed_cursor (closed : p.closed = true) : (p.cursor text).closed = true := closed

theorem mirrored_read : Mirrored text p .read := by
  unfold Mirrored
  cases closed : p.closed with
  | true =>
    simp only [Cursor.perform, perform, closed, if_true, Cursor.read_closed (closed_cursor closed),
      Except.map]
  | false =>
    rw [cursor_open closed]
    cases found : text[p.index]? with
    | none =>
      have ended : text.drop p.index = [] := by simpa using found
      simp only [Cursor.perform, perform, closed, found, ended, Cursor.read_standing_nil,
        Except.map, Bool.false_eq_true, if_false]
      rw [cursor_open rfl]
      simp only [ended]
    | some c =>
      obtain ⟨within, rfl⟩ := List.getElem?_eq_some_iff.mp found
      simp only [Cursor.perform, perform, closed, found, List.drop_eq_getElem_cons within,
        Cursor.read_standing_cons, Except.map, Bool.false_eq_true, if_false]
      rw [cursor_open rfl]
      simp only [List.take_append_getElem within]

theorem mirrored_peekLine : Mirrored text p .peekLine := by
  unfold Mirrored
  cases closed : p.closed with
  | true =>
    simp only [Cursor.perform, perform, closed, if_true,
      Cursor.peekLine_closed (closed_cursor closed), Except.map]
  | false =>
    simp only [cursor_open closed, Cursor.perform, perform, closed, Cursor.peekLine_standing,
      Except.map, Bool.false_eq_true, if_false]

theorem mirrored_commit : Mirrored text p .commit := by
  simp [Mirrored, Cursor.perform, perform, Cursor.commit, Cursor.drop, cursor, Cursor.standing]

theorem mirrored_rewind : Mirrored text p .rewind := by
  unfold Mirrored
  cases saved : p.saved with
  | nil =>
    have unmarked : (p.cursor text).marks = [] := by simp [cursor, Cursor.standing, saved]
    simp only [Cursor.perform, perform, saved, Cursor.rewind, unmarked, Except.map]
  | cons i saved' =>
    have marked : (p.cursor text).marks =
        .behind (text.take i) :: saved'.map fun i => .behind (text.take i) := by
      simp [cursor, Cursor.standing, saved]
    cases closed : p.closed with
    | true =>
      simp only [Cursor.perform, perform, saved, closed, if_true,
        Cursor.rewind_closed (closed_cursor closed), marked, Except.map]
      simp [Cursor.drop, cursor, Cursor.standing, saved, closed]
    | false =>
      simp only [Cursor.perform, perform, saved, closed, Cursor.rewind, marked, Except.map]
      simp [Cursor.drop, Cursor.reposition, cursor, Cursor.standing, saved, closed]

theorem mirrored_skip (n : Nat) : Mirrored text p (.skip n) := by
  unfold Mirrored
  cases closed : p.closed with
  | true =>
    have marked : (p.cursor text).mark = cursor text { p with saved := p.index :: p.saved } := rfl
    simp only [Cursor.perform, perform, closed, if_true, marked,
      Cursor.skip_closed (closed_cursor closed)]
    split <;> rfl
  | false =>
    have moved : text.take (p.index + min n (text.length - p.index)) =
        text.take p.index ++ (text.drop p.index).take n := by
      rw [List.take_add, List.append_cancel_left_eq, List.take_eq_take_iff, List.length_drop]
      omega
    have left : text.drop (p.index + min n (text.length - p.index)) =
        (text.drop p.index).drop n := by
      rw [List.drop_drop, List.drop_eq_drop_iff]
      omega
    simp only [cursor_open closed, Cursor.perform, perform, closed, Cursor.skip,
      Cursor.mark_standing, Cursor.readMany_standing, Except.map, List.length_drop, Nat.zero_add,
      Bool.false_eq_true, if_false]
    rw [cursor_open rfl]
    simp only [moved, left, List.map_cons]

theorem offset_position : (p.position text).offset = (text.take p.index).utf8Encode.size := rfl

theorem mirrored_seek (delta : Int) : Mirrored text p (.seek delta) := by
  unfold Mirrored
  cases closed : p.closed with
  | true =>
    have there : (p.cursor text).position.offset = (p.position text).offset := by
      rw [position, ← Position.behind_eq_measured]
      rfl
    simp only [Cursor.perform, perform, closed, if_true,
      Cursor.seek_closed (closed_cursor closed), there]
    split
    · rfl
    · split <;> rfl
  | false =>
    simp only [cursor_open closed, Cursor.perform, perform, closed, Bool.false_eq_true, if_false,
      offset_position]
    obtain ⟨here, left, same, size, result⟩ | ⟨nowhere, result⟩ :=
      Cursor.seek_standing (text.take p.index) (text.drop p.index)
        (p.saved.map fun i => .behind (text.take i)) p.ended delta
    · rw [List.take_append_drop] at same
      have found : boundary? text ((text.take p.index).utf8Encode.size + delta) =
          some here.length := by
        rw [boundary?_eq_some_iff]
        exact ⟨by simp [same], by simpa [same, Position.offset_measured] using size⟩
      simp only [result, found, Except.map]
      rw [cursor_open rfl]
      simp [same]
    · have missing : boundary? text ((text.take p.index).utf8Encode.size + delta) = none := by
        rw [Option.eq_none_iff_forall_ne_some]
        intro i found
        obtain ⟨-, there⟩ := boundary?_eq_some_iff.mp found
        refine nowhere (text.take i) ?_ there
        rw [List.take_append_drop]
        exact List.take_prefix i text
      simp only [result, missing, Except.map, cursor_open closed]

theorem mirrored (request : Request) : Mirrored text p request := by
  cases request with
  | read => exact mirrored_read
  | peekLine => exact mirrored_peekLine
  | mark => rfl
  | commit => exact mirrored_commit
  | rewind => exact mirrored_rewind
  | close => rfl
  | skip n => exact mirrored_skip n
  | seek delta => exact mirrored_seek delta

theorem view_cursor (reply : Except ReadError Reply) :
    (p.cursor text).view reply = p.view text reply := by
  simp [Cursor.view, view, cursor, Cursor.standing, Cursor.depth, position,
    Position.behind_eq_measured]

theorem run_cursor (text : List Char) (p : PlainCursor) (requests : List Request) :
    (p.cursor text).run requests = p.run text requests := by
  induction requests generalizing p with
  | nil => rfl
  | cons request more ih =>
    have step : (p.cursor text).perform request = _ := mirrored request
    rw [Cursor.run, run, step, view_cursor, ih]

theorem boundary?_of_end {delta : Int} {i : Nat} (atEnd : p.index = text.length)
    (forward : 0 ≤ delta) (found : boundary? text ((p.position text).offset + delta) = some i) :
    i = text.length := by
  obtain ⟨inside, there⟩ := boundary?_eq_some_iff.mp found
  refine Nat.le_antisymm inside (Nat.le_of_not_lt fun short => ?_)
  have smaller := offset_take_lt (by omega : i < p.index) (Nat.le_of_eq atEnd)
  rw [position] at there
  omega

theorem inside_perform (inside : p.Inside text) (request : Request) :
    (p.perform text request).2.Inside text := by
  obtain ⟨index, saved, ended⟩ := inside
  have pushed : ∀ i ∈ p.index :: p.saved, i ≤ text.length := by simpa using ⟨index, saved⟩
  cases request with
  | read =>
    simp only [perform]
    split
    · exact ⟨index, saved, ended⟩
    · split
      · next c found =>
        obtain ⟨within, -⟩ := List.getElem?_eq_some_iff.mp found
        refine ⟨within, saved, fun met => ?_⟩
        have atEnd := ended met
        omega
      · next found =>
        have beyond := List.getElem?_eq_none_iff.mp found
        exact ⟨index, saved, fun _ => Nat.le_antisymm index beyond⟩
  | peekLine =>
    simp only [perform]
    split <;> exact ⟨index, saved, ended⟩
  | mark => exact ⟨index, pushed, ended⟩
  | commit => exact ⟨index, fun i member => saved i (List.mem_of_mem_tail member), ended⟩
  | rewind =>
    simp only [perform]
    split
    · exact ⟨index, saved, ended⟩
    · next i others marked =>
      rw [marked] at saved
      obtain ⟨first, later⟩ := List.forall_mem_cons.mp saved
      split
      · exact ⟨index, later, ended⟩
      · exact ⟨first, later, by simp⟩
  | close => exact ⟨index, fun i member => absurd member List.not_mem_nil, ended⟩
  | skip n =>
    simp only [perform]
    split
    · exact ⟨index, pushed, ended⟩
    · have moved : p.index + min n (text.length - p.index) ≤ text.length := by omega
      refine ⟨moved, pushed, fun met => ?_⟩
      simp only [Bool.or_eq_true, decide_eq_true_eq] at met ⊢
      obtain before | short := met
      · have atEnd := ended before
        omega
      · omega
  | seek delta =>
    simp only [perform]
    split
    · exact ⟨index, saved, ended⟩
    · split
      · next i found =>
        refine ⟨(boundary?_eq_some_iff.mp found).1, saved, fun met => ?_⟩
        simp only [Bool.and_eq_true, decide_eq_true_eq] at met
        exact boundary?_of_end (ended met.1) met.2 found
      · exact ⟨index, saved, ended⟩

theorem position_of_mem_run (inside : p.Inside text) {requests : List Request} {view : View}
    (member : view ∈ p.run text requests) (atEnd : view.atEnd = true) :
    view.position = .measured text := by
  induction requests generalizing p with
  | nil => cases member
  | cons request more ih =>
    have further := inside_perform inside request
    obtain rfl | later := List.mem_cons.mp member
    · have index : _ = text.length := further.ended atEnd
      simp [PlainCursor.view, position, index]
    · exact ih further later

end

end PlainCursor

/-- Whatever is asked of a cursor over the bytes of a text, in whatever order: every answer, and
what can be seen of the cursor behind it, is that of a plain cursor over the characters. The end
of the input has been met only where the whole text lies behind, and the plain cursor seeks to the
one index whose characters before it have the size in bytes that is asked for. -/
theorem Cursor.run_ofText (text : String) (requests : List Request) :
    (Cursor.ofText text).run requests = PlainCursor.run text.toList {} requests ∧
      (∀ view ∈ (Cursor.ofText text).run requests, view.atEnd = true →
        view.position = .measured text.toList) ∧
      ∀ (offset : Int) (i : Nat), PlainCursor.boundary? text.toList offset = some i ↔
        i ≤ text.toList.length ∧ (Position.measured (text.toList.take i)).offset = offset := by
  have start : Cursor.ofText text = PlainCursor.cursor text.toList {} := by
    rw [ofText_eq_standing]
    rfl
  have inside : PlainCursor.Inside text.toList {} := ⟨Nat.zero_le _, by simp, by simp⟩
  have same := PlainCursor.run_cursor text.toList {} requests
  rw [start, same]
  exact ⟨rfl, fun view member => PlainCursor.position_of_mem_run inside member,
    fun _ _ => PlainCursor.boundary?_eq_some_iff⟩

end CherryLang
