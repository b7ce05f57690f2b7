import CherryLang.Proofs.Source.Refinement
import CherryLang.Source.Progress

namespace CherryLang

namespace Utf8

theorem width?_pos {first : UInt8} {width : Nat} (wide : width? first = some width) :
    0 < width := by
  unfold width? at wide
  grind

theorem pos_of_decode_invalid {bytes : ByteArray} {start looked : Nat}
    (bad : decode bytes start = .invalid looked) : 0 < looked := by
  unfold decode at bad
  split at bad
  · cases bad
  · next first found =>
    obtain ⟨inside, -⟩ := getElem?_eq_some_iff.mp found
    split at bad
    · cases bad
      exact Nat.one_pos
    · next width wide =>
      have positive := width?_pos wide
      split at bad
      · cases bad
      · cases bad
        omega

end Utf8

namespace Cursor

def reads (r : Cursor) : Nat → List (Except ReadError (Option Char))
  | 0 => []
  | n + 1 => r.read.1 :: r.read.2.reads n

def readOn (r : Cursor) : Nat → Cursor
  | 0 => r
  | n + 1 => r.read.2.readOn n

inductive Detour where
  | peek
  | seek (delta : Int)
  /-- A mark, so many reads, and back. -/
  | back (n : Nat)

def detour (r : Cursor) : Detour → Cursor
  | .peek => r.peekLine.2
  | .seek delta => (r.seek delta).2
  | .back n => (r.mark.readOn n).rewind.2

/-- A seek that succeeds is no detour. -/
def Detour.LeadsBack (r : Cursor) : Detour → Prop
  | .peek | .back _ => True
  | .seek delta => (r.seek delta).1.isOk = false

/-- Whether no read on the way fails. -/
def Detour.Clean (r : Cursor) : Detour → Prop
  | .peek => r.peekLine.1.isOk = true
  | .seek delta => (r.seek delta).1 = .error (.seekOutOfBounds r.position.offset delta)
  | .back n => ∀ answer ∈ r.reads n, answer.isOk = true

/-- The cursor `r'` is `r` again, but for lost bytes and the end flag, and `clean` tells whether no
byte is lost. -/
structure Returns (r r' : Cursor) (clean : Prop) : Prop where
  place : { r' with atEnd := r.atEnd } = { r with lost := r'.lost }
  lost : r.lost ≤ r'.lost
  exact : r'.lost = r.lost ↔ clean

/-- The two differ in nothing that a read looks at. -/
structure SameAhead (r r' : Cursor) : Prop where
  bytes : r'.bytes = r.bytes
  position : r'.position = r.position
  lost : r'.lost = r.lost
  closed : r'.closed = r.closed

/-- What an operation costs that began at `r` and moves by reads only: no byte if it succeeds, and
some if it fails, which only bad bytes make it do. -/
def Costs {α : Type} (r : Cursor) : Except ReadError α × Cursor → Prop
  | (.ok _, r') => Follows r r' ∧ r'.lost = r.lost
  | (.error e, r') => Follows r r' ∧ r.lost < r'.lost ∧ ∃ offset, e = .invalidUtf8 offset

section

variable {r : Cursor}

theorem Costs.of_ok {α : Type} {result : Except ReadError α × Cursor} {a : α} {r' : Cursor}
    (costs : Costs r result) (same : result = (.ok a, r')) : Follows r r' ∧ r'.lost = r.lost := by
  rw [same] at costs
  exact costs

theorem Costs.of_error {α : Type} {result : Except ReadError α × Cursor} {e : ReadError}
    {r' : Cursor} (costs : Costs r result) (same : result = (.error e, r')) :
    Follows r r' ∧ r.lost < r'.lost ∧ ∃ offset, e = .invalidUtf8 offset := by
  rw [same] at costs
  exact costs

theorem Costs.behind {α : Type} {r₁ : Cursor} {result : Except ReadError α × Cursor}
    (step : Follows r r₁ ∧ r₁.lost = r.lost) (costs : Costs r₁ result) : Costs r result := by
  obtain ⟨answer, r'⟩ := result
  cases answer with
  | ok a => exact ⟨step.1.trans costs.1, costs.2.trans step.2⟩
  | error e => exact ⟨step.1.trans costs.1, step.2 ▸ costs.2.1, costs.2.2⟩

theorem costs_read (opened : r.closed = false) : Costs r r.read := by
  have running : ¬ r.closed = true := by simp [opened]
  have follows := follows_read r
  unfold read at follows ⊢
  rw [if_neg running] at follows ⊢
  cases met : Utf8.decode r.bytes r.handle with
  | ended | char c =>
    rw [met] at follows
    exact ⟨follows, rfl⟩
  | invalid looked =>
    have positive := Utf8.pos_of_decode_invalid met
    rw [met] at follows
    exact ⟨follows, Nat.lt_add_of_pos_right positive, _, rfl⟩

theorem costs_readLine (line : String) (opened : r.closed = false) :
    Costs r (readLine line r) := by
  fun_induction readLine line r with
  | case1 line r e r' result => exact (costs_read opened).of_error result
  | case2 line r r' result => exact (costs_read opened).of_ok result
  | case3 line r r' result => exact (costs_read opened).of_ok result
  | case4 line r c r' result _ ih =>
    have step := (costs_read opened).of_ok result
    exact (ih (step.1.closed.trans opened)).behind step

theorem costs_readTo (target : Nat) (opened : r.closed = false) :
    Costs r (readTo target r) := by
  fun_induction readTo target r with
  | case1 r _ e r' result => exact (costs_read opened).of_error result
  | case2 r _ r' result => exact (costs_read opened).of_ok result
  | case3 r _ c r' result ih =>
    have step := (costs_read opened).of_ok result
    exact (ih (step.1.closed.trans opened)).behind step
  | case4 r => exact ⟨.refl r, rfl⟩

theorem reposition_open (opened : r.closed = false) (target : Position) :
    r.reposition target = (.ok (), { r with position := target, atEnd := false }) := by
  simp [reposition, opened]

theorem costs_seekTo (target : Nat) (backward : Bool) (opened : r.closed = false) :
    Costs r (r.seekTo target backward) := by
  unfold seekTo
  cases backward with
  | false => exact costs_readTo target opened
  | true =>
    rw [reposition_open opened]
    have restart : Follows r { r with position := .origin, atEnd := false } :=
      ⟨rfl, rfl, rfl, Nat.le_refl _⟩
    exact (costs_readTo target (r := { r with position := .origin, atEnd := false })
      opened).behind ⟨restart, rfl⟩

theorem reposition_of_follows {r' : Cursor} (follows : Follows r r') (opened : r.closed = false) :
    r'.reposition r.position = (.ok (), { r with lost := r'.lost, atEnd := false }) := by
  rw [reposition_open (follows.closed.trans opened), follows.bytes, follows.marks, follows.closed]

theorem rewind_of_follows {r' : Cursor} (follows : Follows r.mark r') (opened : r.closed = false) :
    r'.rewind = (.ok true, { r with lost := r'.lost, atEnd := false }) := by
  have marks : r'.marks = r.position :: r.marks := follows.marks
  have dropped : Follows r r'.drop :=
    ⟨follows.bytes, by simp [drop, marks], follows.closed, follows.lost⟩
  have back := reposition_of_follows dropped opened
  simp only [rewind, marks, back]
  rfl

theorem returns_peek (opened : r.closed = false) :
    Returns r r.peekLine.2 (Detour.peek.Clean r) := by
  have costs := costs_readLine "" (r := r.mark) opened
  unfold Detour.Clean peekLine
  generalize readLine "" r.mark = result at costs ⊢
  obtain ⟨line, r'⟩ := result
  cases line with
  | ok line =>
    have free : r'.lost = r.lost := costs.2
    constructor <;> simp [rewind_of_follows costs.1 opened, free, Except.isOk, Except.toBool]
  | error e =>
    have lost : r.lost < r'.lost := costs.2.1
    constructor
    · simp [rewind_of_follows costs.1 opened]
    · simpa [rewind_of_follows costs.1 opened] using Nat.le_of_lt lost
    · simpa [rewind_of_follows costs.1 opened, Except.isOk, Except.toBool] using Nat.ne_of_gt lost

theorem returns_seek {delta : Int} (opened : r.closed = false)
    (failed : (Detour.seek delta).LeadsBack r) :
    Returns r (r.seek delta).2 ((Detour.seek delta).Clean r) := by
  unfold Detour.LeadsBack seek at failed
  unfold Detour.Clean seek
  simp only at failed ⊢
  split
  · constructor <;> simp
  · next natural =>
    rw [if_neg natural] at failed
    have costs := costs_seekTo (r.position.offset + delta).toNat (decide (delta < 0)) opened
    generalize r.seekTo _ _ = result at costs failed ⊢
    obtain ⟨found, r'⟩ := result
    cases found with
    | ok found =>
      cases found with
      | true => simp [Except.isOk, Except.toBool] at failed
      | false =>
        have free : r'.lost = r.lost := costs.2
        constructor <;> simp [reposition_of_follows costs.1 opened, free]
    | error e =>
      obtain ⟨follows, lost, offset, rfl⟩ := costs
      constructor
      · simp [reposition_of_follows follows opened]
      · simpa [reposition_of_follows follows opened] using Nat.le_of_lt lost
      · simpa [reposition_of_follows follows opened] using Nat.ne_of_gt lost

/-- The reads behind a cursor cost nothing if and only if all of them succeed. -/
theorem costs_readOn (n : Nat) (opened : r.closed = false) :
    Follows r (r.readOn n) ∧
      ((r.readOn n).lost = r.lost ↔ ∀ answer ∈ r.reads n, answer.isOk = true) := by
  induction n generalizing r with
  | zero => exact ⟨.refl r, by simp [readOn, reads]⟩
  | succ n ih =>
    have costs := costs_read opened
    obtain ⟨answer, r', step⟩ : ∃ answer r', r.read = (answer, r') := ⟨_, _, rfl⟩
    simp only [readOn, reads, step, List.forall_mem_cons]
    cases answer with
    | ok c =>
      obtain ⟨follows, free⟩ := costs.of_ok step
      obtain ⟨further, exact⟩ := ih (follows.closed.trans opened)
      exact ⟨follows.trans further, by simpa [free, Except.isOk, Except.toBool] using exact⟩
    | error e =>
      obtain ⟨follows, lost, -⟩ := costs.of_error step
      obtain ⟨further, -⟩ := ih (follows.closed.trans opened)
      have bound := further.lost
      refine ⟨follows.trans further, ?_⟩
      have differs : (r'.readOn n).lost ≠ r.lost := by omega
      simp [differs, Except.isOk, Except.toBool]

theorem SameAhead.read {r' : Cursor} (same : SameAhead r r') :
    r'.read.1 = r.read.1 ∧ SameAhead r.read.2 r'.read.2 := by
  obtain ⟨bytes, position, lost, closed⟩ := same
  have handle : r'.handle = r.handle := by rw [Cursor.handle, Cursor.handle, position, lost]
  unfold Cursor.read
  rw [closed, bytes, handle, position, lost]
  split
  · exact ⟨rfl, bytes, position, lost, closed⟩
  · split <;> exact ⟨rfl, by constructor <;> simp [*]⟩

theorem SameAhead.reads {r' : Cursor} (same : SameAhead r r') (n : Nat) :
    r'.reads n = r.reads n := by
  induction n generalizing r r' with
  | zero => rfl
  | succ n ih =>
    obtain ⟨answer, further⟩ := same.read
    rw [Cursor.reads, Cursor.reads, answer, ih further]

theorem returns_back (n : Nat) (opened : r.closed = false) :
    Returns r (r.mark.readOn n).rewind.2 ((Detour.back n).Clean r) := by
  obtain ⟨follows, exact⟩ := costs_readOn n (r := r.mark) opened
  have same : SameAhead r r.mark := ⟨rfl, rfl, rfl, rfl⟩
  rw [same.reads n] at exact
  rw [rewind_of_follows follows opened]
  exact ⟨rfl, follows.lost, exact⟩

theorem returns_of_leadsBack (opened : r.closed = false) (d : Detour) (back : d.LeadsBack r) :
    Returns r (r.detour d) (d.Clean r) := by
  cases d with
  | peek => exact returns_peek opened
  | seek delta => exact returns_seek opened back
  | back n => exact returns_back n opened

theorem Returns.reads {r' : Cursor} {clean : Prop} (returns : Returns r r' clean) (n : Nat) :
    r'.reads n = { r with lost := r'.lost }.reads n := by
  have place := Cursor.mk.inj returns.place
  have same : SameAhead { r with lost := r'.lost } r' :=
    ⟨place.1, place.2.1, rfl, place.2.2.2.2.2⟩
  exact same.reads n

/-- Every detour of an open cursor ends at the place where it began, with the marks it had, and the
reads behind it answer as they would have without it if no read on the way fails. If one does, the
cursor is back as well, but bytes are lost. -/
theorem returns_detour (opened : r.closed = false) (d : Detour) (back : d.LeadsBack r) :
    Returns r (r.detour d) (d.Clean r) ∧
      (d.Clean r → ∀ n, (r.detour d).reads n = r.reads n) := by
  have returns := returns_of_leadsBack opened d back
  constructor
  · exact returns
  · intro clean n
    rw [returns.reads, returns.exact.mpr clean]

def cutBytes : ByteArray := ⟨#[0x61, 0x62, 0xFF]⟩

theorem leadsBack_cutBytes : (Detour.seek 5).LeadsBack (ofBytes cutBytes) := by
  unfold Detour.LeadsBack
  decide +kernel

theorem returns_detour_cutBytes :
    ((Detour.back 2).Clean (ofBytes cutBytes) ∧
        ∀ n, ((ofBytes cutBytes).detour (.back 2)).reads n = (ofBytes cutBytes).reads n) ∧
      Returns (ofBytes cutBytes) ((ofBytes cutBytes).detour (.seek 5))
        ((Detour.seek 5).Clean (ofBytes cutBytes)) := by
  have answers : (ofBytes cutBytes).reads 2 = [.ok (some 'a'), .ok (some 'b')] := rfl
  have clean : (Detour.back 2).Clean (ofBytes cutBytes) := by
    simp [Detour.Clean, answers, Except.isOk, Except.toBool]
  constructor
  · exact ⟨clean, (returns_detour rfl (.back 2) trivial).2 clean⟩
  · exact (returns_detour rfl (.seek 5) leadsBack_cutBytes).1

/-- Every kind of detour may change what is read behind it: here the first character is skipped. -/
theorem reads_detour_cutBytes :
    (ofBytes cutBytes).reads 1 = [.ok (some 'a')] ∧
      ((ofBytes cutBytes).detour .peek).reads 1 = [.ok (some 'b')] ∧
      (Detour.seek 5).LeadsBack (ofBytes cutBytes) ∧
      ((ofBytes cutBytes).detour (.seek 5)).reads 1 = [.ok (some 'b')] ∧
      ((ofBytes cutBytes).detour (.back 3)).reads 1 = [.ok (some 'b')] := by
  have behind (d : Detour) (back : d.LeadsBack (ofBytes cutBytes))
      (lost : ((ofBytes cutBytes).detour d).lost = 1) :
      ((ofBytes cutBytes).detour d).reads 1 = [.ok (some 'b')] := by
    rw [(returns_of_leadsBack rfl d back).reads, lost]
    rfl
  refine ⟨rfl, ?_, leadsBack_cutBytes, ?_, ?_⟩
  · exact behind .peek trivial (by decide +kernel)
  · exact behind (.seek 5) leadsBack_cutBytes (by decide +kernel)
  · exact behind (.back 3) trivial rfl

end

end Cursor

end CherryLang
