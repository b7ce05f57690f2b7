import CherryLang.Proofs.Lexical.Stream
import CherryLang.Proofs.Source.LongestText

namespace CherryLang.Lexical
open Cursor

/-- A step ends within the text, or it fails behind it. The end of the stream comes only where the
bytes end with the text. -/
def Stays (bytes : ByteArray) (text : List Char) : Option Item × Cursor → Prop
  | (some (.failure e), _) => Blames bytes text e
  | (some (.token t), r) =>
    Within bytes text r ∧ (t.kind = .endOfStream → bytes = text.utf8Encode)
  | (some (.error _), r) | (none, r) => Within bytes text r

section

variable {bytes : ByteArray} {text : List Char} {file : FileId} {start : Position} {r : Cursor}

theorem stays_emitToken {kind : Kind} {lexeme : String} (within : Within bytes text r)
    (inner : kind ≠ .endOfStream) : Stays bytes text (emitToken file kind lexeme start r) :=
  ⟨within, fun last => absurd last inner⟩

theorem keyword?_ne_endOfStream {word : String} {kind : Kind}
    (found : Kind.keyword? word = some kind) : kind ≠ .endOfStream := by
  simpa [wordKind, found] using wordKind_ne_endOfStream word.toList none

theorem next_ne_stop {state : State} (running : state ≠ .stop) (c : Char) :
    state.next (.of c) ≠ .stop := by
  have inside := of_ne_eof c
  cases state <;> cases sort : InputClass.of c <;> simp_all [State.next]

variable (longest : LongestText bytes text)
include longest

theorem stays_emitError {kind : ErrorKind} {lexeme : String} (within : Within bytes text r) :
    Stays bytes text (emitError kind lexeme start r) := by
  have peeked := keeps_peekLine longest within
  unfold emitError
  split
  · next seen => exact peeked.blames seen
  · next seen => exact peeked.within seen

theorem keeps_nextIs {c : Char} (within : Within bytes text r) :
    Keeps bytes text (nextIs c r) := by
  have step := keeps_read longest within.mark
  unfold nextIs
  split
  · next seen => exact step.blames seen
  · next seen =>
    have back := keeps_rewind (step.within seen)
    split
    · next returned => exact back.blames returned
    · next returned => exact back.within returned

theorem keeps_skipLine (within : Within bytes text r) : Keeps bytes text (skipLine r) := by
  fun_induction skipLine r with
  | case1 r e r' result => exact (keeps_read longest within).blames result
  | case2 r r' result => exact (keeps_read longest within).within result
  | case3 r r' result => exact (keeps_read longest within).within result
  | case4 r c r' result _ ih => exact ih ((keeps_read longest within).within result)

theorem keeps_skipBlock (previous : Option Char) (within : Within bytes text r) :
    Keeps bytes text (skipBlock previous r) := by
  fun_induction skipBlock previous r with
  | case1 previous r e r' result => exact (keeps_read longest within).blames result
  | case2 previous r r' result => exact (keeps_read longest within).within result
  | case3 previous r c r' result => exact (keeps_read longest within).within result
  | case4 previous r c r' result _ ih => exact ih ((keeps_read longest within).within result)

theorem stays_finishWord {word : String} (within : Within bytes text r) :
    Stays bytes text (finishWord file word start r) := by
  have ahead := keeps_nextIs (c := '(') longest within
  unfold finishWord
  split
  · next kind found => exact stays_emitToken within (keyword?_ne_endOfStream found)
  · split
    · next seen => exact ahead.blames seen
    · next seen => exact stays_emitToken (ahead.within seen) (by simp)
    · next seen => exact stays_emitToken (ahead.within seen) (by simp)

theorem stays_finishNumber {run : String} (within : Within bytes text r) :
    Stays bytes text (finishNumber file run start r) := by
  unfold finishNumber
  split
  · exact stays_emitToken within (by simp)
  · exact stays_emitError longest within

theorem stays_finishSymbol {run : String} (within : Within bytes text r) :
    Stays bytes text (finishSymbol file run start r) := by
  have line := keeps_skipLine longest within
  have block := keeps_skipBlock longest none within
  unfold finishSymbol
  split
  · split
    · next seen => exact line.blames seen
    · next seen => exact line.within seen
  · split
    · split
      · next seen => exact block.blames seen
      · next seen => exact block.within seen
      · next seen => exact block.within seen
    · apply stays_emitToken within
      simpa [symbolKind] using symbolKind_ne_endOfStream run.toList

theorem stays_finishRun {state : State} {run : String} (within : Within bytes text r) :
    Stays bytes text (finishRun file state run start r) := by
  unfold finishRun
  split
  · exact stays_finishWord longest within
  · exact stays_finishNumber longest within
  · exact stays_finishSymbol longest within
  all_goals exact stays_emitToken within (by simp)

theorem stays_endRun {state : State} {run : String} (within : Within bytes text r) :
    Stays bytes text (endRun file state run start r) := by
  have back := keeps_rewind within
  unfold endRun
  split
  · next returned => exact back.blames returned
  · next returned => exact stays_finishRun longest (back.within returned)

theorem stays_finishLiteral {run : String} (within : Within bytes text r) :
    Stays bytes text (finishLiteral file run start r) := by
  unfold finishLiteral
  split
  · exact stays_emitError longest within
  · exact stays_emitToken within (by simp)

theorem stays_emitUnexpected {state : State} {c : Option Char} {run : String}
    (within : Within bytes text r) : Stays bytes text (emitUnexpected state c run start r) := by
  unfold emitUnexpected
  split
  · exact within
  · exact stays_emitError longest within

theorem stays_scanFrom {state : State} {run : String} (within : Within bytes text r)
    (running : state ≠ .stop) : Stays bytes text (scanFrom file state run start r) := by
  have step {r} (within : Within bytes text r) := keeps_read longest within.mark
  fun_induction scanFrom file state run start r with
  | case1 state run start r e r₁ read => exact (step within).blames read
  | case2 state run start r r₁ read _ =>
    exact ⟨((step within).within read).drop,
      fun _ => eq_utf8Encode_of_read longest within.mark read⟩
  | case3 state run start r r₁ read _ =>
    exact stays_emitUnexpected longest ((step within).within read).drop
  | case4 state run start r r₁ read _ _ => exact stays_endRun longest ((step within).within read)
  | case5 state run start r c r₁ read _ _ =>
    exact stays_finishLiteral longest ((step within).within read).drop
  | case6 state run start r c r₁ read _ _ ih => exact ih ((step within).within read).drop running
  | case7 state run start r c r₁ read _ _ => exact stays_endRun longest ((step within).within read)
  | case8 run start r c r₁ read _ _ _ ih => exact ih ((step within).within read).drop running
  | case9 state run start r c r₁ read _ _ _ _ =>
    exact stays_endRun longest ((step within).within read)
  | case10 state run start r c r₁ read _ _ stops => exact absurd stops (next_ne_stop running c)
  | case11 state run start r c r₁ read _ _ _ =>
    exact stays_emitUnexpected longest ((step within).within read).drop
  | case12 state run start r c r₁ read _ _ _ goesOn _ ih =>
    exact ih ((step within).within read).drop goesOn

end

section

variable {bytes : ByteArray} {text : List Char} {r : Cursor}

/-- The item that ends a scan: the end of the stream if the bytes end with the text, and else the
failure behind it. -/
def Concludes (bytes : ByteArray) (text : List Char) : Item → Prop
  | .token t => t.kind = .endOfStream ∧ bytes = text.utf8Encode
  | .error _ => False
  | .failure e => Blames bytes text e

theorem Stays.concludes {item : Item} (stays : Stays bytes text (some item, r))
    (last : item.isLast = true) : Concludes bytes text item := by
  cases item with
  | token t =>
    have ended : t.kind = .endOfStream := by simpa [Item.isLast] using last
    exact ⟨ended, stays.2 ended⟩
  | error e => simp [Item.isLast] at last
  | failure e => exact stays

theorem Stays.within {item : Option Item} (stays : Stays bytes text (item, r))
    (more : goesOn item) : Within bytes text r := by
  cases item with
  | none => exact stays
  | some item =>
    cases item with
    | token t => exact stays.1
    | error e => exact stays
    | failure e => simp [goesOn, Item.isLast] at more

theorem length_lt_of_remaining_lt {r' : Cursor} {before before' : List Char}
    (within : Within bytes text r) (place : r.position = .behind before) (inside : before <+: text)
    (within' : Within bytes text r') (place' : r'.position = .behind before')
    (inside' : before' <+: text) (less : r'.remaining < r.remaining) :
    before.length < before'.length := by
  simp only [remaining, handle, within.bytes, within'.bytes, within.lost, within'.lost, place,
    place', Position.offset_behind] at less
  apply Nat.lt_of_not_le
  intro short
  obtain ⟨more, rfl⟩ := List.prefix_of_prefix_length_le inside' inside short
  rw [List.utf8Encode_append, ByteArray.size_append] at less
  omega

theorem exists_items_eq (longest : LongestText bytes text) (s : Scan) (running : s.done = false)
    (within : Within bytes text s.cursor) {before : List Char} (inside : before <+: text)
    (place : s.cursor.position = .behind before) :
    ∃ inner last, s.items = inner ++ [last] ∧ (∀ item ∈ inner, item.isLast = false) ∧
      Concludes bytes text last ∧ inner.length + before.length ≤ text.length := by
  induction left : s.cursor.remaining using Nat.strongRecOn generalizing s before with
  | ind n ih =>
    obtain ⟨item, r, found⟩ : ∃ item r, scanLexeme s.file s.cursor = (item, r) := ⟨_, _, rfl⟩
    have stays : Stays bytes text (scanLexeme s.file s.cursor) :=
      stays_scanFrom longest within (by simp)
    rw [found] at stays
    by_cases more : goesOn item = true
    · have less := remaining_scanLexeme_lt found more
      have within' := stays.within more
      obtain ⟨before', rest', split, place'⟩ := within'.position
      have inside' : before' <+: text := ⟨rest', split.symm⟩
      have longer := length_lt_of_remaining_lt within place inside within' place' inside' less
      obtain ⟨inner, last, items, ordinary, concludes, count⟩ :=
        ih r.remaining (left ▸ less) { s with cursor := r } running within' inside' place' rfl
      refine ⟨item.toList ++ inner, last, ?_, ?_, concludes, ?_⟩
      · rw [Scan.items_of_goesOn running found more, items, List.append_assoc]
      · intro other member
        rcases List.mem_append.mp member with here | later
        · obtain rfl := Option.mem_toList.mp here
          simpa [goesOn] using more
        · exact ordinary other later
      · have single : item.toList.length ≤ 1 := by cases item <;> simp
        rw [List.length_append]
        omega
    · cases item with
      | none => exact absurd rfl more
      | some item =>
        have last : item.isLast = true := by simpa [goesOn] using more
        refine ⟨[], item, Scan.items_of_isLast running found last, by simp,
          stays.concludes last, ?_⟩
        simpa using inside.length_le

end

section

/-- The answers of `n` calls for the next item, one after the other. -/
def Scan.calls (s : Scan) : Nat → List (Option Item)
  | 0 => []
  | n + 1 => s.next?.1 :: s.next?.2.calls n

theorem Scan.next?_of_done {s : Scan} (finished : s.done = true) : s.next? = (none, s) := by
  rw [Scan.next?_step, if_pos finished]

theorem Scan.done_of_next? {s s' : Scan} (finished : s.next? = (none, s')) : s'.done = true := by
  fun_induction next? s with
  | case1 s done =>
    cases finished
    exact done
  | case2 s running r lexeme ih => exact ih finished
  | case3 s running item r lexeme last => cases finished
  | case4 s running item r lexeme more => cases finished

theorem Scan.calls_of_done {s : Scan} (finished : s.done = true) (n : Nat) :
    s.calls n = List.replicate n none := by
  induction n with
  | zero => rfl
  | succ n ih => rw [Scan.calls, Scan.next?_of_done finished, ih, List.replicate_succ]

theorem Scan.calls_eq (s : Scan) (n : Nat) :
    s.calls n = (s.items.map some ++ List.replicate n none).take n := by
  induction n generalizing s with
  | zero => rfl
  | succ n ih =>
    rw [Scan.calls, Scan.items_step]
    obtain ⟨found, s', next⟩ : ∃ found s', s.next? = (found, s') := ⟨_, _, rfl⟩
    rw [next]
    cases found with
    | none => simp [Scan.calls_of_done (Scan.done_of_next? next), List.replicate_succ]
    | some item =>
      simp only [ih, List.map_cons, List.cons_append, List.take_succ_cons, List.take_append,
        List.take_replicate]
      congr 3
      omega

theorem collect_eq_error {s : Scan} {inner : List Item} {e : ReadError}
    (items : s.items = inner ++ [.failure e]) (readable : ∀ item ∈ inner, item.isFailure = false)
    (tokens : Array Token) (errors : Array Error) : collect tokens errors s = .error e := by
  fun_induction collect tokens errors s generalizing inner with
  | case1 tokens errors s s' finished =>
    rw [Scan.items_step, finished] at items
    simp at items
  | case2 tokens errors s t s' found ih | case3 tokens errors s t s' found ih =>
    rw [Scan.items_step, found] at items
    cases inner with
    | nil => simp at items
    | cons first inner =>
      exact ih (List.cons.inj items).2 fun item later => readable item (.tail _ later)
  | case4 tokens errors s e' s' found =>
    rw [Scan.items_step, found] at items
    cases inner with
    | nil => simpa using (List.cons.inj items).1
    | cons first inner =>
      obtain rfl := (List.cons.inj items).1
      simpa [Item.isFailure] using readable (.failure e') (.head _)

theorem Item.not_isFailure {item : Item} (inner : item.isLast = false) :
    item.isFailure = false := by
  cases item with
  | token t => rfl
  | error e => rfl
  | failure e => simp [Item.isLast] at inner

theorem scan_eq_of_items {file : FileId} {r : Cursor} {inner : List Item} {t : Token}
    (items : Scan.items { cursor := r, file := file } = inner ++ [.token t])
    (readable : ∀ item ∈ inner, item.isFailure = false) :
    scan file r = .ok ⟨inner.filterMap Item.token? ++ [t], inner.filterMap Item.error?⟩ := by
  have all : ∀ item ∈ inner ++ [Item.token t], item.isFailure = false := by
    intro item member
    rcases List.mem_append.mp member with early | late
    · exact readable item early
    · rw [List.mem_singleton.mp late]
      rfl
  rw [← items] at all
  rw [scan, collect_eq #[] #[] _ all, items]
  simp

theorem exists_items_ofBytes (file : FileId) (bytes : ByteArray) :
    ∃ text inner last, LongestText bytes text ∧
      Scan.items { cursor := .ofBytes bytes, file := file } = inner ++ [last] ∧
      (∀ item ∈ inner, item.isLast = false) ∧ Concludes bytes text last ∧
      inner.length ≤ text.length := by
  obtain ⟨text, longest⟩ := LongestText.exists_longest bytes
  obtain ⟨inner, last, items, ordinary, concludes, count⟩ :=
    exists_items_eq longest { cursor := .ofBytes bytes, file := file } rfl
      (within_ofBytes bytes text) (List.nil_prefix (l := text)) rfl
  exact ⟨text, inner, last, longest, items, ordinary, concludes, by simpa using count⟩

theorem isValidUTF8_of_scan {file : FileId} {bytes : ByteArray} {scanned : Scanned}
    (ended : scan file (.ofBytes bytes) = .ok scanned) : bytes.IsValidUTF8 := by
  obtain ⟨text, inner, last, longest, items, ordinary, concludes, _⟩ :=
    exists_items_ofBytes file bytes
  cases last with
  | token t => exact longest.eq_utf8Encode_iff.mp concludes.2
  | error e => exact concludes.elim
  | failure e =>
    rw [scan, collect_eq_error items fun item member => Item.not_isFailure (ordinary item member)]
      at ended
    cases ended

/-- A scan of any bytes ends. With `text` the longest text that they begin with, the calls for the
next item answer with at most one item for each character of it, tokens and lexical errors; then
with one that ends the scan; and with nothing from then on. The last item is the end of the stream
if the bytes hold a text, and the scan succeeds with tokens of which only the last is an end.
Otherwise it is the failure to read behind `text`, with which the scan fails. -/
theorem scan_ofBytes (file : FileId) (bytes : ByteArray) :
    ∃ (text : List Char) (inner : List Item) (last : Item),
      LongestText bytes text ∧
        (∀ n, Scan.calls { cursor := .ofBytes bytes, file := file } n =
          ((inner ++ [last]).map some ++ List.replicate n none).take n) ∧
        (∀ item ∈ inner, item.isLast = false) ∧ inner.length ≤ text.length ∧
        (bytes.IsValidUTF8 ∧ (∃ t, last = .token t ∧ t.kind = .endOfStream) ∧
            (∃ tokens t errors, scan file (.ofBytes bytes) = .ok ⟨tokens ++ [t], errors⟩ ∧
              t.kind = .endOfStream ∧ ∀ other ∈ tokens, other.kind ≠ .endOfStream) ∨
          ¬ bytes.IsValidUTF8 ∧ last = .failure (.invalidUtf8 text.utf8Encode.size) ∧
            scan file (.ofBytes bytes) = .error (.invalidUtf8 text.utf8Encode.size)) := by
  obtain ⟨text, inner, last, longest, items, ordinary, concludes, count⟩ :=
    exists_items_ofBytes file bytes
  have readable := fun item member => Item.not_isFailure (ordinary item member)
  refine ⟨text, inner, last, longest, fun n => ?_, ordinary, count, ?_⟩
  · rw [Scan.calls_eq, items]
  · cases last with
    | token t =>
      obtain ⟨ended, whole⟩ := concludes
      left
      exact ⟨longest.eq_utf8Encode_iff.mp whole, ⟨t, rfl, ended⟩, _, t, _,
        scan_eq_of_items items readable, ended, fun other => kind_ne_endOfStream ordinary⟩
    | error e => exact concludes.elim
    | failure e =>
      obtain ⟨more, rfl⟩ := concludes
      right
      exact ⟨fun valid => more (longest.eq_utf8Encode_iff.mpr valid), rfl,
        collect_eq_error items readable #[] #[]⟩

end

end CherryLang.Lexical
