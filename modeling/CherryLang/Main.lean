import CherryLang.Command.Run

namespace CherryLang.Command

def readSource (path : String) : IO (Except DiskError ByteArray) := do
  try
    return .ok (← IO.FS.readBinFile path)
  catch e =>
    match e with
    | .noFileOrDirectory .. => return .error .missing
    | .inappropriateType _ code _ => return .error (if code = 20 then .notDirectory else .directory)
    | other => return .error (.other (toString other))

end CherryLang.Command

/-- The files are read ahead; everything else is a function of what they hold. -/
def main (args : List String) : IO UInt32 := do
  let files ← (args.filter (·.toList.head? != some '-')).mapM fun path =>
    return (path, ← CherryLang.Command.readSource path)
  let exit := CherryLang.Command.run args fun path => (files.lookup path).getD (.error .missing)
  IO.print exit.stdout
  IO.eprint exit.stderr
  return exit.code.toUInt32
