import CherryLang.Command.Flag

namespace CherryLang.Command

inductive JobsError where
  | empty | invalidDigit | tooLarge | zero
  deriving DecidableEq, Repr

def JobsError.message : JobsError → String
  | .empty => "cannot parse integer from empty string"
  | .invalidDigit => "invalid digit found in string"
  | .tooLarge => "number too large to fit in target type"
  | .zero => "number would be zero for non-zero type"

/-- Why a file name is refused: its extension is another one, or there is none. -/
inductive NameError where
  | unsupported (extension : String)
  | noExtension
  deriving DecidableEq, Repr

inductive Error where
  | rejectedFile (name : String) (reason : NameError)
  | unknownFlag (text : String)
  | missingValue (flag : Flag)
  | unexpectedValue (flag : Flag)
  | invalidValue (flag : Flag) (value : String) (reason : JobsError)
  | conflict (first second : Flag)
  deriving DecidableEq, Repr

end CherryLang.Command
