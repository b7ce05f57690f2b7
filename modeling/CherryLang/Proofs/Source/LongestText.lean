import CherryLang.Proofs.Source.Standing
import CherryLang.Source.Progress

/-! The longest text that a sequence of bytes begins with. A cursor that has met no bad bytes stands
behind a beginning of this text and reads its characters one after the other. Behind the last of
them it meets the end of the input if the bytes are those of the text, and else bytes that hold no
character: no other place of the input makes a read fail. -/
namespace CherryLang

structure LongestText (bytes : ByteArray) (text : List Char) : Prop where
  begins : ∃ tail, bytes = text.utf8Encode ++ tail
  longest : ∀ (other : List Char) (tail : ByteArray), bytes = other.utf8Encode ++ tail →
    other.utf8Encode.size ≤ text.utf8Encode.size

namespace Utf8

theorem decode_append_right {bytes : ByteArray} {start : Nat} {c : Char}
    (found : decode bytes start = .char c) (tail : ByteArray) :
    decode (bytes ++ tail) start = .char c := by
  have inside := lt_size_of_decode_char found
  have first : (bytes ++ tail)[start]? = bytes[start]? := by
    rw [getElem?_pos bytes start inside, getElem?_pos _ _ (by rw [ByteArray.size_append]; omega),
      ByteArray.getElem_append_left inside]
  unfold decode at found ⊢
  rw [first]
  generalize bytes[start]? = byte at found ⊢
  cases byte with
  | none => simp at found
  | some byte =>
    cases wide : width? byte with
    | none => simp [wide] at found
    | some width =>
      cases seen : bytes.utf8DecodeChar? start with
      | none => simp [wide, seen] at found
      | some d =>
        simp only [wide, seen] at found
        simp only [wide, ByteArray.utf8DecodeChar?_append_eq_some seen tail, found]

theorem exists_of_decode_char {front tail : ByteArray} {c : Char}
    (found : decode (front ++ tail) front.size = .char c) :
    ∃ more, tail = [c].utf8Encode ++ more := by
  have seen : (front ++ tail).utf8DecodeChar? front.size = some c := by
    unfold decode at found
    split at found
    · cases found
    · split at found
      · cases found
      · split at found
        · next seen =>
          cases found
          exact seen
        · cases found
  rw [ByteArray.utf8DecodeChar?_eq_utf8DecodeChar?_extract,
    ByteArray.extract_append_eq_right rfl ByteArray.size_append] at seen
  obtain ⟨more, same⟩ := ByteArray.exists_of_utf8DecodeChar?_eq_some seen
  exact ⟨more, by simpa [List.utf8Encode] using same⟩

theorem size_le_of_decode_ended {bytes : ByteArray} {start : Nat}
    (met : decode bytes start = .ended) : bytes.size ≤ start := by
  unfold decode at met
  split at met
  · next beyond => simpa using beyond
  · split at met
    · cases met
    · split at met <;> cases met

end Utf8

namespace LongestText

theorem exists_above {bytes : ByteArray} (room : Nat) (text : List Char) (tail : ByteArray)
    (begins : bytes = text.utf8Encode ++ tail) (bound : tail.size ≤ room) :
    ∃ longest, LongestText bytes longest := by
  induction room generalizing text tail with
  | zero =>
    refine ⟨text, ⟨tail, begins⟩, fun other more also => ?_⟩
    have sizes := congrArg ByteArray.size (begins.symm.trans also)
    simp only [ByteArray.size_append] at sizes
    omega
  | succ room ih =>
    by_cases longer : ∃ (other : List Char) (more : ByteArray),
        bytes = other.utf8Encode ++ more ∧ text.utf8Encode.size < other.utf8Encode.size
    · obtain ⟨other, more, also, size⟩ := longer
      have sizes := congrArg ByteArray.size (begins.symm.trans also)
      simp only [ByteArray.size_append] at sizes
      exact ih other more also (by omega)
    · exact ⟨text, ⟨tail, begins⟩, fun other more also =>
        Nat.le_of_not_lt fun size => longer ⟨other, more, also, size⟩⟩

theorem exists_longest (bytes : ByteArray) : ∃ text, LongestText bytes text :=
  exists_above bytes.size [] bytes (by simp) (Nat.le_refl _)

variable {bytes : ByteArray} {text : List Char} (longest : LongestText bytes text)
include longest

theorem eq_utf8Encode_iff : bytes = text.utf8Encode ↔ bytes.IsValidUTF8 := by
  constructor
  · intro same
    exact ⟨text, same⟩
  · rintro ⟨whole, same⟩
    obtain ⟨tail, begins⟩ := longest.begins
    have bound := longest.longest whole ByteArray.empty (by simpa using same)
    have sizes := congrArg ByteArray.size (begins.symm.trans same)
    simp only [ByteArray.size_append] at sizes
    have nothing : tail = ByteArray.empty := ByteArray.size_eq_zero_iff.mp (by omega)
    rw [begins, nothing, ByteArray.append_empty]

theorem decode_inside {before rest : List Char} {c : Char} (inside : text = before ++ c :: rest) :
    Utf8.decode bytes before.utf8Encode.size = .char c := by
  obtain ⟨tail, begins⟩ := longest.begins
  rw [begins, inside, List.utf8Encode_append]
  exact Utf8.decode_append_right (Utf8.decode_append _ c rest) tail

theorem decode_behind :
    Utf8.decode bytes text.utf8Encode.size = .ended ∧ bytes = text.utf8Encode ∨
      ∃ looked, Utf8.decode bytes text.utf8Encode.size = .invalid looked ∧
        bytes ≠ text.utf8Encode := by
  obtain ⟨tail, begins⟩ := longest.begins
  by_cases whole : bytes = text.utf8Encode
  · left
    refine ⟨?_, whole⟩
    rw [whole]
    exact Utf8.decode_size text.utf8Encode
  · right
    cases met : Utf8.decode bytes text.utf8Encode.size with
    | ended =>
      have size := Utf8.size_le_of_decode_ended met
      have sizes := congrArg ByteArray.size begins
      rw [ByteArray.size_append] at sizes
      have nothing : tail = ByteArray.empty := ByteArray.size_eq_zero_iff.mp (by omega)
      rw [nothing, ByteArray.append_empty] at begins
      exact absurd begins whole
    | char c =>
      rw [begins] at met
      obtain ⟨more, rfl⟩ := Utf8.exists_of_decode_char met
      have bound := longest.longest (text ++ [c]) more (by
        rw [begins, List.utf8Encode_append, ByteArray.append_assoc])
      have wide := c.utf8Size_pos
      simp [List.utf8Encode] at bound
      omega
    | invalid looked => exact ⟨looked, rfl, whole⟩

end LongestText

namespace Cursor

/-- An open cursor that has lost no byte and stands behind a beginning of `text`, as its marks
do. -/
structure Within (bytes : ByteArray) (text : List Char) (r : Cursor) : Prop where
  bytes : r.bytes = bytes
  opened : r.closed = false
  lost : r.lost = 0
  places : ∀ p ∈ r.position :: r.marks, ∃ before, before <+: text ∧ p = .behind before

/-- The one way to fail: the bytes go on behind `text`, and the place there is blamed. -/
structure Blames (bytes : ByteArray) (text : List Char) (e : ReadError) : Prop where
  goesOn : bytes ≠ text.utf8Encode
  blamed : e = .invalidUtf8 text.utf8Encode.size

/-- An operation ends within the text, or it fails behind it. -/
def Keeps {α : Type} (bytes : ByteArray) (text : List Char) : Except ReadError α × Cursor → Prop
  | (.ok _, r) => Within bytes text r
  | (.error e, _) => Blames bytes text e

section

variable {bytes : ByteArray} {text : List Char} {r : Cursor}

theorem within_ofBytes (bytes : ByteArray) (text : List Char) :
    Within bytes text (ofBytes bytes) := by
  constructor
  · rfl
  · rfl
  · rfl
  · intro p member
    obtain rfl : p = .origin := by simpa [ofBytes] using member
    exact ⟨[], List.nil_prefix, rfl⟩

theorem Within.moved (within : Within bytes text r) {p : Position} {marks : List Position}
    (places : ∀ q ∈ p :: marks, ∃ before, before <+: text ∧ q = .behind before) (atEnd : Bool) :
    Within bytes text { r with position := p, marks := marks, atEnd := atEnd } :=
  ⟨within.bytes, within.opened, within.lost, places⟩

theorem Within.mark (within : Within bytes text r) : Within bytes text r.mark := by
  refine within.moved (p := r.position) (fun q member => within.places q ?_) r.atEnd
  simpa using member

theorem Within.drop (within : Within bytes text r) : Within bytes text r.drop := by
  refine within.moved (p := r.position) (fun q member => within.places q ?_) r.atEnd
  rcases List.mem_cons.mp member with here | marked
  · exact List.mem_cons.mpr (.inl here)
  · exact List.mem_cons.mpr (.inr (List.mem_of_mem_tail marked))

theorem Within.position (within : Within bytes text r) :
    ∃ before rest, text = before ++ rest ∧ r.position = .behind before := by
  obtain ⟨before, ⟨rest, inside⟩, place⟩ := within.places r.position List.mem_cons_self
  exact ⟨before, rest, inside.symm, place⟩

theorem Within.decode (within : Within bytes text r) {before : List Char}
    (place : r.position = .behind before) :
    Utf8.decode r.bytes r.handle = Utf8.decode bytes before.utf8Encode.size := by
  have here : r.handle = before.utf8Encode.size := by
    simp [handle, place, within.lost, Position.offset_behind]
  rw [within.bytes, here]

theorem Keeps.within {α : Type} {result : Except ReadError α × Cursor} {a : α}
    (keeps : Keeps bytes text result) (same : result = (.ok a, r)) : Within bytes text r := by
  rw [same] at keeps
  exact keeps

theorem Keeps.blames {α : Type} {result : Except ReadError α × Cursor} {e : ReadError}
    (keeps : Keeps bytes text result) (same : result = (.error e, r)) : Blames bytes text e := by
  rw [same] at keeps
  exact keeps

theorem rewind_open (opened : r.closed = false) : ∃ moved r', r.rewind = (.ok moved, r') := by
  unfold rewind
  split
  · exact ⟨false, r, rfl⟩
  · simp [reposition, drop, opened]

theorem keeps_rewind (within : Within bytes text r) : Keeps bytes text r.rewind := by
  have running : ¬ r.closed = true := by simp [within.opened]
  unfold rewind
  split
  · exact within
  · next saved marks marked =>
    have places := within.places
    rw [marked] at places
    simp only [reposition, drop, marked, if_neg running]
    exact within.moved (p := saved) (fun q member => places q (.tail _ member)) false

variable (longest : LongestText bytes text)
include longest

theorem keeps_read (within : Within bytes text r) : Keeps bytes text r.read := by
  have running : ¬ r.closed = true := by simp [within.opened]
  obtain ⟨before, rest, inside, place⟩ := within.position
  have decoded := within.decode place
  unfold read
  rw [if_neg running]
  cases rest with
  | nil =>
    obtain rfl : text = before := by simpa using inside
    rcases longest.decode_behind with ⟨ended, _⟩ | ⟨looked, bad, more⟩
    · rw [decoded, ended]
      exact within.moved within.places true
    · rw [decoded, bad]
      exact ⟨more, by rw [place, Position.offset_behind]⟩
  | cons c rest =>
    rw [decoded, longest.decode_inside inside]
    refine within.moved (p := r.position.advance c) (fun q member => ?_) r.atEnd
    rcases List.mem_cons.mp member with here | marked
    · refine ⟨before ++ [c], ⟨rest, by simp [inside]⟩, ?_⟩
      rw [here, place, Position.behind_append_singleton]
    · exact within.places q (.tail _ marked)

theorem eq_utf8Encode_of_read {r' : Cursor} (within : Within bytes text r)
    (met : r.read = (.ok none, r')) : bytes = text.utf8Encode := by
  have running : ¬ r.closed = true := by simp [within.opened]
  obtain ⟨before, rest, inside, place⟩ := within.position
  unfold read at met
  rw [if_neg running, within.decode place] at met
  cases rest with
  | nil =>
    obtain rfl : text = before := by simpa using inside
    rcases longest.decode_behind with ⟨_, whole⟩ | ⟨looked, bad, _⟩
    · exact whole
    · simp [bad] at met
  | cons c rest => simp [longest.decode_inside inside] at met

theorem keeps_readLine (line : String) (within : Within bytes text r) :
    Keeps bytes text (readLine line r) := by
  fun_induction readLine line r with
  | case1 line r e r' result => exact (keeps_read longest within).blames result
  | case2 line r r' result => exact (keeps_read longest within).within result
  | case3 line r r' result => exact (keeps_read longest within).within result
  | case4 line r c r' result _ ih => exact ih ((keeps_read longest within).within result)

theorem keeps_peekLine (within : Within bytes text r) : Keeps bytes text r.peekLine := by
  have line := keeps_readLine longest "" within.mark
  have follows := follows_readLine "" r.mark
  unfold peekLine
  generalize readLine "" r.mark = result at line follows ⊢
  obtain ⟨seen, r'⟩ := result
  -- Where the line could not be read bytes are lost, but the cursor is open: going back succeeds.
  obtain ⟨moved, r'', back⟩ := rewind_open (follows.closed.trans within.opened)
  simp only [back]
  cases seen with
  | error e => exact line
  | ok seen =>
    have returned := (keeps_rewind line).within back
    exact returned.moved returned.places r.atEnd

end

end Cursor

end CherryLang
