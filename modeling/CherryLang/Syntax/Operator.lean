import CherryLang.Token.Kind

namespace CherryLang

inductive UnaryOp where
  | not | negate | plus | bitNot | increment | decrement
  deriving DecidableEq, Repr

inductive StepOp where
  | increment | decrement
  deriving DecidableEq, Repr

inductive BinaryOp where
  | or | and | bitOr | bitXor | bitAnd | equal | notEqual | less | greater | lessEq | greaterEq
  | shiftLeft | shiftRight | add | sub | mul | div | mod
  deriving DecidableEq, Repr

inductive AssignOp where
  | set | add | sub | mul | div | mod | bitAnd | bitOr | bitXor | shiftLeft | shiftRight
  deriving DecidableEq, Repr

def UnaryOp.symbol : UnaryOp → Symbol
  | .not => .bang
  | .negate => .minus
  | .plus => .plus
  | .bitNot => .tilde
  | .increment => .plusPlus
  | .decrement => .minusMinus

def UnaryOp.mutates : UnaryOp → Bool
  | .increment | .decrement => true
  | .not | .negate | .plus | .bitNot => false

def StepOp.symbol : StepOp → Symbol
  | .increment => .plusPlus
  | .decrement => .minusMinus

def BinaryOp.symbol : BinaryOp → Symbol
  | .or => .pipePipe
  | .and => .ampAmp
  | .bitOr => .pipe
  | .bitXor => .caret
  | .bitAnd => .amp
  | .equal => .eqEq
  | .notEqual => .bangEq
  | .less => .less
  | .greater => .greater
  | .lessEq => .lessEq
  | .greaterEq => .greaterEq
  | .shiftLeft => .shiftLeft
  | .shiftRight => .shiftRight
  | .add => .plus
  | .sub => .minus
  | .mul => .star
  | .div => .slash
  | .mod => .percent

/-- Binding strength; higher binds tighter. -/
def BinaryOp.precedence : BinaryOp → Nat
  | .or => 1
  | .and => 2
  | .bitOr => 3
  | .bitXor => 4
  | .bitAnd => 5
  | .equal | .notEqual => 6
  | .less | .greater | .lessEq | .greaterEq => 7
  | .shiftLeft | .shiftRight => 8
  | .add | .sub => 9
  | .mul | .div | .mod => 10

def AssignOp.symbol : AssignOp → Symbol
  | .set => .assign
  | .add => .plusEq
  | .sub => .minusEq
  | .mul => .starEq
  | .div => .slashEq
  | .mod => .percentEq
  | .bitAnd => .ampEq
  | .bitOr => .pipeEq
  | .bitXor => .caretEq
  | .shiftLeft => .shiftLeftEq
  | .shiftRight => .shiftRightEq

namespace Kind

def unaryOp? : Kind → Option UnaryOp
  | .symbol .bang => some .not
  | .symbol .minus => some .negate
  | .symbol .plus => some .plus
  | .symbol .tilde => some .bitNot
  | .symbol .plusPlus => some .increment
  | .symbol .minusMinus => some .decrement
  | _ => none

def stepOp? : Kind → Option StepOp
  | .symbol .plusPlus => some .increment
  | .symbol .minusMinus => some .decrement
  | _ => none

def binaryOp? : Kind → Option BinaryOp
  | .symbol .pipePipe => some .or
  | .symbol .ampAmp => some .and
  | .symbol .pipe => some .bitOr
  | .symbol .caret => some .bitXor
  | .symbol .amp => some .bitAnd
  | .symbol .eqEq => some .equal
  | .symbol .bangEq => some .notEqual
  | .symbol .less => some .less
  | .symbol .greater => some .greater
  | .symbol .lessEq => some .lessEq
  | .symbol .greaterEq => some .greaterEq
  | .symbol .shiftLeft => some .shiftLeft
  | .symbol .shiftRight => some .shiftRight
  | .symbol .plus => some .add
  | .symbol .minus => some .sub
  | .symbol .star => some .mul
  | .symbol .slash => some .div
  | .symbol .percent => some .mod
  | _ => none

def assignOp? : Kind → Option AssignOp
  | .symbol .assign => some .set
  | .symbol .plusEq => some .add
  | .symbol .minusEq => some .sub
  | .symbol .starEq => some .mul
  | .symbol .slashEq => some .div
  | .symbol .percentEq => some .mod
  | .symbol .ampEq => some .bitAnd
  | .symbol .pipeEq => some .bitOr
  | .symbol .caretEq => some .bitXor
  | .symbol .shiftLeftEq => some .shiftLeft
  | .symbol .shiftRightEq => some .shiftRight
  | _ => none

def isAssignment (kind : Kind) : Bool := kind.assignOp?.isSome

theorem unaryOp?_eq_some_iff {kind : Kind} {op : UnaryOp} :
    kind.unaryOp? = some op ↔ kind = .symbol op.symbol := by
  constructor
  · intro found
    unfold unaryOp? at found
    split at found <;> cases found <;> rfl
  · rintro rfl
    cases op <;> rfl

theorem stepOp?_eq_some_iff {kind : Kind} {op : StepOp} :
    kind.stepOp? = some op ↔ kind = .symbol op.symbol := by
  constructor
  · intro found
    unfold stepOp? at found
    split at found <;> cases found <;> rfl
  · rintro rfl
    cases op <;> rfl

theorem binaryOp?_eq_some_iff {kind : Kind} {op : BinaryOp} :
    kind.binaryOp? = some op ↔ kind = .symbol op.symbol := by
  constructor
  · intro found
    unfold binaryOp? at found
    split at found <;> cases found <;> rfl
  · rintro rfl
    cases op <;> rfl

theorem assignOp?_eq_some_iff {kind : Kind} {op : AssignOp} :
    kind.assignOp? = some op ↔ kind = .symbol op.symbol := by
  constructor
  · intro found
    unfold assignOp? at found
    split at found <;> cases found <;> rfl
  · rintro rfl
    cases op <;> rfl

end Kind

end CherryLang
