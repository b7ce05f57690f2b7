/-! One character of a byte sequence. A first byte announces the width of its character; what a
reader has looked at when the bytes do not hold one is part of the answer. -/
namespace CherryLang.Utf8

def width? (first : UInt8) : Option Nat :=
  if first ≤ 0x7F then some 1
  else if 0xC2 ≤ first && first ≤ 0xDF then some 2
  else if 0xE0 ≤ first && first ≤ 0xEF then some 3
  else if 0xF0 ≤ first && first ≤ 0xF4 then some 4
  else none

inductive Decoded where
  | ended
  | char (c : Char)
  /-- The next `looked` bytes hold no character. -/
  | invalid (looked : Nat)
  deriving DecidableEq

/-- The character at byte `start`. Of an invalid one the first byte has been looked at, or the whole
announced width, as far as there are bytes. -/
def decode (bytes : ByteArray) (start : Nat) : Decoded :=
  match bytes[start]? with
  | none => .ended
  | some first =>
    match width? first with
    | none => .invalid 1
    | some width =>
      match bytes.utf8DecodeChar? start with
      | some c => .char c
      | none => .invalid (min width (bytes.size - start))

theorem lt_size_of_decode_char {bytes : ByteArray} {start : Nat} {c : Char}
    (read : decode bytes start = .char c) : start < bytes.size := by
  unfold decode at read
  split at read
  · cases read
  · next first found => exact (getElem?_eq_some_iff.mp found).1

end CherryLang.Utf8
