namespace CherryLang

inductive DiskError where
  | missing
  | directory
  | notDirectory
  | other (detail : String)
  deriving DecidableEq, Repr

def DiskError.message : DiskError → String
  | .missing => "No such file or directory (os error 2)"
  | .directory => "Is a directory (os error 21)"
  | .notDirectory => "Not a directory (os error 20)"
  | .other detail => detail

inductive ReadError where
  | disk (cause : DiskError)
  | invalidUtf8 (offset : Nat)
  | closed
  | seekOutOfBounds (start : Nat) (delta : Int)
  deriving DecidableEq, Repr

def ReadError.message : ReadError → String
  | .disk cause => "i/o failure: " ++ cause.message
  | .invalidUtf8 offset => s!"invalid UTF-8 at byte offset {offset}"
  | .closed => "reader is closed"
  | .seekOutOfBounds start delta => s!"cannot move {delta} bytes from byte offset {start}"

end CherryLang
