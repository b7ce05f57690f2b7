import CherryLang.Command.Error
import CherryLang.Outcome.Basic

namespace CherryLang.Command

def extensions : List String := ["ch", "ry", "cherry"]

/-- The last segment of a path that names something, without the slashes and single dots at the end
of the path. -/
def lastSegment? (path : List Char) : Option (List Char) :=
  (path.splitOn '/').reverse.find? fun segment => segment != [] && segment != ['.']

/-- The text behind the last dot of a segment. There is none without a dot, if the only dot is the
first character, and for the parent directory. -/
def extension? (segment : List Char) : Option (List Char) :=
  if segment = ['.', '.'] then none
  else
    let (after, before) := segment.reverse.span (· != '.')
    if before.length ≤ 1 then none else some after.reverse

def pathExtension? (path : String) : Option String :=
  ((lastSegment? path.toList).bind extension?).map String.ofList

def checkExtension (name : String) : Except Error Unit :=
  match pathExtension? name with
  | none => .error (.rejectedFile name .noExtension)
  | some extension =>
    if extensions.contains extension then .ok ()
    else .error (.rejectedFile name (.unsupported extension))

structure Selection where
  files : List SourceFile
  rejected : List Error

def lastFileNumber : Nat := 0xffffffff

/-- Accepted files are numbered in the order of the arguments, from `count` on; files beyond the
largest number share it. -/
def acceptFrom (count : Nat) : List String → Selection
  | [] => ⟨[], []⟩
  | name :: rest =>
    match checkExtension name with
    | .ok _ =>
      let selection := acceptFrom (count + 1) rest
      { selection with files := .ofPath ⟨min count lastFileNumber⟩ name :: selection.files }
    | .error e =>
      let selection := acceptFrom count rest
      { selection with rejected := e :: selection.rejected }

def Selection.ofNames (names : List String) : Selection := acceptFrom 0 names

def extensionList : String := String.intercalate ", " (extensions.map ("." ++ ·))

def NameError.message : NameError → String
  | .unsupported extension => s!"unsupported extension '.{extension}' (expected {extensionList})"
  | .noExtension => s!"no file extension (expected {extensionList})"

def Error.message : Error → String
  | .rejectedFile name reason => s!"'{name}' rejected: {reason.message}"
  | .unknownFlag text => s!"unknown flag '{text}'"
  | .missingValue flag => s!"flag '{flag.text}' requires a value"
  | .unexpectedValue flag => s!"flag '{flag.text}' does not take a value"
  | .invalidValue flag value reason =>
    s!"invalid value '{value}' for '{flag.text}': {reason.message}"
  | .conflict first second => s!"'{first.text}' and '{second.text}' cannot be used together"

end CherryLang.Command
