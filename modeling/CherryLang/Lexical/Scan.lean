import CherryLang.Lexical.Progress

namespace CherryLang.Lexical

structure Scan where
  cursor : Cursor
  file : FileId
  done : Bool := false

namespace Scan

def finish (s : Scan) (r : Cursor) : Scan := { s with cursor := r.close, done := true }

def next? (s : Scan) : Option Item × Scan :=
  if s.done then (none, s)
  else match _result : scanLexeme s.file s.cursor with
    | (none, r) => next? { s with cursor := r }
    | (some item, r) =>
      if item.isLast then (some item, s.finish r) else (some item, { s with cursor := r })
termination_by s.cursor.remaining
decreasing_by exact remaining_scanLexeme_lt _result rfl

/-- Zero once the scan is over; every item makes it smaller. -/
def measure (s : Scan) : Nat := if s.done then 0 else s.cursor.remaining + 1

theorem measure_next?_lt {s s' : Scan} {item : Item} (result : s.next? = (some item, s')) :
    s'.measure < s.measure := by
  fun_induction next? s with
  | case1 => cases result
  | case2 s running r lexeme ih =>
    have step := remaining_scanLexeme_lt lexeme rfl
    have tail := ih result
    simp only [measure, running, Bool.false_eq_true, ↓reduceIte] at tail ⊢
    omega
  | case3 s running item r lexeme last =>
    cases result
    simp [measure, finish, running]
  | case4 s running item r lexeme more =>
    cases result
    have step := remaining_scanLexeme_lt lexeme (by simpa [goesOn] using more)
    simpa [measure, running] using step

end Scan

structure Scanned where
  tokens : List Token
  errors : List Error
  deriving DecidableEq

/-- Collect the items to come behind those at hand. A read error ends the scan without result. -/
def collect (tokens : Array Token) (errors : Array Error) (s : Scan) :
    Except ReadError Scanned :=
  match _result : s.next? with
  | (none, _) => .ok ⟨tokens.toList, errors.toList⟩
  | (some (.token t), s') => collect (tokens.push t) errors s'
  | (some (.error e), s') => collect tokens (errors.push e) s'
  | (some (.failure e), _) => .error e
termination_by s.measure
decreasing_by all_goals exact Scan.measure_next?_lt _result

def scan (file : FileId) (r : Cursor) : Except ReadError Scanned :=
  collect #[] #[] { cursor := r, file := file }

end CherryLang.Lexical
