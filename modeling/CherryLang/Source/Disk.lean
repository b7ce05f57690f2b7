import CherryLang.Source.Error

namespace CherryLang

abbrev Disk := String → Except DiskError ByteArray

abbrev Trail := List (List Char)

/-- A directory as a list of what lies in it and below, at any depth. An entry without bytes is a
directory, and so is everything on the way to an entry. -/
structure Directory where
  entries : List (Trail × Option ByteArray)

def pathSteps (path : String) : Trail := path.toList.splitOn '/'

namespace Directory

inductive Node where
  | file (bytes : ByteArray)
  | directory

def isIdle (step : List Char) : Bool := step == [] || step == ['.']

/-- A directory from its paths. Of several entries with one path the last counts. -/
def ofPaths (paths : List (String × Option ByteArray)) : Directory where
  entries := paths.reverse.map fun (path, bytes) =>
    ((pathSteps path).filter fun step => !isIdle step, bytes)

def node? (d : Directory) (trail : Trail) : Option Node :=
  match d.entries.lookup trail with
  | some (some bytes) => some (.file bytes)
  | some none => some .directory
  | none =>
    if trail.isEmpty || d.entries.any (fun (entry, _) => trail.isPrefixOf entry) then
      some .directory
    else none

/-- Follow the steps of a path from the end of `trail`. Every step, also an idle one or one upwards,
starts at a directory. Nothing is known of what lies above the top. -/
def walk (d : Directory) (trail : Trail) : Trail → Except DiskError Node
  | [] => (d.node? trail).elim (.error .missing) .ok
  | step :: rest =>
    match d.node? trail with
    | none => .error .missing
    | some (.file _) => .error .notDirectory
    | some .directory =>
      if isIdle step then d.walk trail rest
      else if step = ['.', '.'] then
        if trail.isEmpty then .error .missing else d.walk trail.dropLast rest
      else d.walk (trail ++ [step]) rest

/-- Read files by their paths from the directory. A path from the root leads elsewhere. -/
def disk (d : Directory) : Disk := fun path =>
  if path.toList.head? == some '/' then .error .missing
  else
    match d.walk [] (pathSteps path) with
    | .error cause => .error cause
    | .ok .directory => .error .directory
    | .ok (.file bytes) => .ok bytes

end Directory

end CherryLang
