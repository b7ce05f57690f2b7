import CherryLang.Source.Cursor

/-! A cursor inside a text, seen as the characters before it and the characters ahead of it. Every
operation on the bytes is an operation on these two lists. -/
namespace CherryLang

namespace Utf8

theorem width?_ofNat_isSome {n : Nat} (ranged : n ≤ 0x7F ∨ 0xC2 ≤ n ∧ n ≤ 0xF4) :
    (width? (UInt8.ofNat n)).isSome := by
  unfold width?
  simp only [UInt8.le_iff_toNat_le, Bool.and_eq_true, decide_eq_true_eq, UInt8.reduceToNat,
    UInt8.toNat_ofNat']
  split
  · rfl
  · split
    · rfl
    · split
      · rfl
      · split
        · rfl
        · omega

theorem width?_isSome_of_encoded {c : Char} {first : UInt8} {more : List UInt8}
    (encoded : String.utf8EncodeChar c = first :: more) : (width? first).isSome := by
  have scalar : c.val.toNat < 0x110000 := by
    have valid := c.valid
    simp only [UInt32.isValidChar, Nat.isValidChar] at valid
    omega
  unfold String.utf8EncodeChar at encoded
  simp only at encoded
  -- Each width has its own range of first bytes, since no character is encoded in too many.
  split at encoded
  · cases encoded
    exact width?_ofNat_isSome (by omega)
  · split at encoded
    · cases encoded
      exact width?_ofNat_isSome (by omega)
    · split at encoded
      · cases encoded
        exact width?_ofNat_isSome (by omega)
      · cases encoded
        exact width?_ofNat_isSome (by omega)

theorem decode_append (before : ByteArray) (c : Char) (rest : List Char) :
    decode (before ++ (c :: rest).utf8Encode) before.size = .char c := by
  obtain ⟨first, more, encoded⟩ : ∃ first more, String.utf8EncodeChar c = first :: more :=
    List.exists_cons_of_ne_nil String.utf8EncodeChar_ne_nil
  have bytes : (c :: rest).utf8Encode =
      (first :: (more ++ rest.flatMap String.utf8EncodeChar)).toByteArray := by
    simp [List.utf8Encode, encoded]
  have front : (before ++ (c :: rest).utf8Encode)[before.size]? = some first := by
    rw [bytes, getElem?_pos _ _ (by simp), ByteArray.getElem_append_right (Nat.le_refl _)]
    simp
  have found : (before ++ (c :: rest).utf8Encode).utf8DecodeChar? before.size = some c := by
    rw [ByteArray.utf8DecodeChar?_eq_utf8DecodeChar?_extract,
      ByteArray.extract_append_eq_right rfl ByteArray.size_append]
    exact List.utf8DecodeChar?_utf8Encode_cons
  obtain ⟨width, wide⟩ := Option.isSome_iff_exists.mp (width?_isSome_of_encoded encoded)
  simp only [decode, front, wide, found]

theorem decode_size (bytes : ByteArray) : decode bytes bytes.size = .ended := by
  have beyond : bytes[bytes.size]? = none := getElem?_neg bytes bytes.size (Nat.lt_irrefl _)
  simp only [decode, beyond]

end Utf8

namespace Position

/-- The place behind the characters `before`. -/
def behind (before : List Char) : Position := before.foldl advance origin

@[simp] theorem behind_append_singleton (before : List Char) (c : Char) :
    behind (before ++ [c]) = (behind before).advance c := by
  simp [behind]

theorem offset_foldl_advance (p : Position) (before : List Char) :
    (before.foldl advance p).offset = p.offset + before.utf8Encode.size := by
  induction before generalizing p with
  | nil => rfl
  | cons c before ih =>
    have size : (c :: before).utf8Encode.size = c.utf8Size + before.utf8Encode.size := by
      simp [List.utf8Encode]
    rw [List.foldl_cons, ih, offset_advance, size, Nat.add_assoc]

theorem offset_behind (before : List Char) :
    (behind before).offset = before.utf8Encode.size := by
  simp [behind, offset_foldl_advance, origin]

/-- The place behind the characters `before`, measured without a walk: their bytes, their newlines,
and the characters since the last of these. -/
def measured (before : List Char) : Position where
  offset := (String.ofList before).utf8ByteSize
  line := 1 + before.count '\n'
  column := 1 + (before.reverse.takeWhile (· != '\n')).length

theorem offset_measured (before : List Char) :
    (measured before).offset = before.utf8Encode.size := rfl

theorem behind_eq_measured (before : List Char) : behind before = measured before := by
  -- The last character decides about the column, so the induction takes the text from its end.
  obtain ⟨text, rfl⟩ : ∃ text, before = text.reverse := ⟨before.reverse, by simp⟩
  induction text with
  | nil => rfl
  | cons c text ih =>
    have bytes : (measured (c :: text).reverse).offset =
        (measured text.reverse).offset + c.utf8Size := by
      simp [offset_measured, List.utf8Encode]
    rw [List.reverse_cons, behind_append_singleton, ih, ← List.reverse_cons]
    by_cases newline : c = '\n'
    · simp only [advance, if_pos newline, ← bytes]
      simp [measured, newline]
      omega
    · simp only [advance, if_neg newline, ← bytes]
      simp [measured, newline]
      omega

end Position

def firstLine : List Char → List Char
  | [] => []
  | c :: rest => if c = '\n' then [c] else c :: firstLine rest

def furtherLines : List Char → List Char
  | [] => []
  | c :: rest => if c = '\n' then rest else furtherLines rest

theorem firstLine_append_furtherLines (text : List Char) :
    firstLine text ++ furtherLines text = text := by
  induction text with
  | nil => rfl
  | cons c rest ih =>
    unfold firstLine furtherLines
    split
    · rfl
    · rw [List.cons_append, ih]

theorem push_ofList (run : List Char) (c : Char) :
    (String.ofList run).push c = String.ofList (run ++ [c]) :=
  String.toList_inj.mp (by simp)

namespace Cursor

/-- An open cursor that has read `before` and has `rest` ahead. -/
def standing (before rest : List Char) (marks : List Position) (atEnd : Bool) : Cursor where
  bytes := (String.ofList (before ++ rest)).toUTF8
  position := .behind before
  marks := marks
  atEnd := atEnd

theorem ofText_eq_standing (text : String) : ofText text = standing [] text.toList [] false := by
  simp [ofText, ofBytes, standing, Position.behind]

section

variable (before rest : List Char) (marks : List Position) (atEnd : Bool)

theorem handle_standing :
    (standing before rest marks atEnd).handle = before.utf8Encode.size := by
  simp [handle, standing, Position.offset_behind]

@[simp] theorem read_standing_nil :
    (standing before [] marks atEnd).read = (.ok none, standing before [] marks true) := by
  have ended : Utf8.decode (standing before [] marks atEnd).bytes before.utf8Encode.size =
      .ended := by
    simpa [standing, String.toUTF8] using Utf8.decode_size before.utf8Encode
  simp only [read, handle_standing, ended]
  rfl

@[simp] theorem read_standing_cons (c : Char) :
    (standing before (c :: rest) marks atEnd).read =
      (.ok (some c), standing (before ++ [c]) rest marks atEnd) := by
  have found : Utf8.decode (standing before (c :: rest) marks atEnd).bytes before.utf8Encode.size =
      .char c := by
    have bytes : (standing before (c :: rest) marks atEnd).bytes =
        before.utf8Encode ++ (c :: rest).utf8Encode := by
      simp only [standing, String.toUTF8, String.toByteArray_ofList, List.utf8Encode_append]
    rw [bytes, Utf8.decode_append]
  simp only [read, handle_standing, found]
  simp [standing]

@[simp] theorem mark_standing :
    (standing before rest marks atEnd).mark =
      standing before rest (.behind before :: marks) atEnd := rfl

@[simp] theorem drop_standing (p : Position) :
    (standing before rest (p :: marks) atEnd).drop = standing before rest marks atEnd := rfl

@[simp] theorem position_standing :
    (standing before rest marks atEnd).position = .behind before := rfl

theorem rewind_standing (taken : List Char) :
    (standing (before ++ taken) rest (.behind before :: marks) atEnd).rewind =
      (.ok true, standing before (taken ++ rest) marks false) := by
  simp [rewind, standing, drop, reposition]

@[simp] theorem rewind_standing_nil :
    (standing before rest (.behind before :: marks) atEnd).rewind =
      (.ok true, standing before rest marks false) := by
  simpa using rewind_standing before rest marks atEnd []

@[simp] theorem rewind_standing_singleton (c : Char) :
    (standing (before ++ [c]) rest (.behind before :: marks) atEnd).rewind =
      (.ok true, standing before (c :: rest) marks false) :=
  rewind_standing before rest marks atEnd [c]

theorem readLine_step (line : String) (r : Cursor) :
    readLine line r = match r.read with
      | (.error e, r') => (.error e, r')
      | (.ok none, r') => (.ok line, r')
      | (.ok (some c), r') =>
        if c = '\n' then (.ok (line.push c), r') else readLine (line.push c) r' := by
  rw [readLine]
  split <;> simp only [*]

theorem readLine_standing (line : List Char) :
    ∃ ended, readLine (String.ofList line) (standing before rest marks atEnd) =
      (.ok (String.ofList (line ++ firstLine rest)),
        standing (before ++ firstLine rest) (furtherLines rest) marks ended) := by
  induction rest generalizing before line with
  | nil =>
    refine ⟨true, ?_⟩
    rw [readLine_step]
    simp [firstLine, furtherLines]
  | cons c rest ih =>
    rw [readLine_step]
    by_cases newline : c = '\n'
    · refine ⟨atEnd, ?_⟩
      simp only [read_standing_cons, firstLine, furtherLines, newline, if_true, push_ofList]
    · obtain ⟨ended, later⟩ := ih (before ++ [c]) (line ++ [c])
      refine ⟨ended, ?_⟩
      simp only [read_standing_cons, firstLine, furtherLines, if_neg newline, push_ofList, later,
        List.append_assoc, List.singleton_append]

@[simp] theorem peekLine_standing :
    (standing before rest marks atEnd).peekLine =
      (.ok (String.ofList (firstLine rest)), standing before rest marks atEnd) := by
  obtain ⟨ended, line⟩ := readLine_standing before rest (.behind before :: marks) atEnd []
  have back := rewind_standing before (furtherLines rest) marks ended (firstLine rest)
  rw [firstLine_append_furtherLines] at back
  simp [peekLine, line, back]
  rfl

end

end Cursor

end CherryLang
