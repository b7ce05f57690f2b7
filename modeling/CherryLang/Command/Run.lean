import CherryLang.Command.Batch
import CherryLang.Command.FileName
import CherryLang.Syntax.Dump

namespace CherryLang.Command

/-- What a run leaves behind: its exit code and the two streams it wrote. -/
structure Exit where
  code : Nat
  stdout : String
  stderr : String
  deriving DecidableEq, Repr

def lines (texts : List String) : String := String.join (texts.map (· ++ "\n"))

def padTo (width : Nat) (text : String) : String :=
  text ++ String.ofList (List.replicate (width - text.length) ' ')

def flagUsage (flag : Flag) : String :=
  let short := match flag.short? with
    | some c => "-" ++ toString c ++ ", "
    | none => ""
  let value := if flag.takesValue then "=N" else ""
  "  " ++ padTo 20 (short ++ flag.text ++ value) ++ flag.help

def usage : List String :=
  ["Usage: cherry [flags] <files...>", "", "Files must end in .ch, .ry, or .cherry.", "",
    "Flags:"] ++
    Flag.all.map flagUsage ++ ["", "RUST_LOG overrides the log level set by -v and -q."]

def diagnostic (name : String) (span : Option Span) (level message : String) : String :=
  match span with
  | some span => s!"{name}:{span.line}:{span.column}: {level}: {message}"
  | none => s!"{name}: {level}: {message}"

def dumpToken (t : Token) : String :=
  s!"{t.span.line}:{t.span.column}\t{t.kind.surface}\t{t.lexeme}"

def dumps (flags : FlagSet) (o : Outcome) : List String :=
  (if flags.isRaised .dumpTokens then ("== tokens: " ++ o.source.name) :: o.tokens.map dumpToken
    else []) ++
  match o.result with
  | .ok tree =>
    if flags.isRaised .dumpTree then ["== tree: " ++ o.source.name, tree.dump] else []
  | .error _ => []

/-- What an outcome writes to the error stream: warnings, then how the file fared. -/
def summary (o : Outcome) : List String :=
  let name := o.source.name
  let warnings := o.warnings.flatMap fun e =>
    [diagnostic name (some e.span) "warning" e.kind.message, "    " ++ e.lineText]
  match o.result with
  | .ok tree =>
    warnings ++
      [s!"{name}: ok ({tree.imports.length} import(s), {tree.items.length} item(s))"]
  | .error failure =>
    warnings ++
      failure.diagnostics.map (fun (span, message) => diagnostic name span "error" message) ++
      [s!"{name}: failed during {failure.stage.name}"]

def refuse (messages : List String) : Exit := ⟨2, "", lines messages⟩

def isFlag (arg : String) : Bool := arg.toList.head? == some '-'

def flagArgs (args : List String) : List String := args.filter isFlag

def fileArgs (args : List String) : List String := args.filter (!isFlag ·)

structure Request where
  flags : FlagSet
  files : List SourceFile
  notes : List String

def asked (args : List String) : Request where
  flags := (FlagSet.ofArgs (flagArgs args)).1
  files := (Selection.ofNames (fileArgs args)).files
  notes := (Selection.ofNames (fileArgs args)).rejected.map fun e => "warning: " ++ e.message

/-- The request, or what is said if there is none. -/
def request (args : List String) : Except (List String) Request :=
  if args = [] ∨ "--help" ∈ args ∨ "-h" ∈ args then .error usage
  else if (FlagSet.ofArgs (flagArgs args)).2 ≠ [] then
    .error ((FlagSet.ofArgs (flagArgs args)).2.map fun e => "error: " ++ e.message)
  else if (asked args).files = [] then .error ((asked args).notes ++ ["error: no input files"])
  else .ok (asked args)

/-- Notes go ahead of everything else. -/
def Request.exit (r : Request) (report : Report) : Exit where
  code := if report.isSuccess then 0 else 1
  stdout := lines (report.outcomes.flatMap (dumps r.flags))
  stderr := lines (r.notes ++ report.outcomes.flatMap summary ++
    [s!"{report.succeeded} file(s) ok, {report.failed} failed"])

def runOn (pool : Pool) (args : List String) (disk : Disk) : Exit :=
  match request args with
  | .error messages => refuse messages
  | .ok r => r.exit (Settings.runOn pool { flags := r.flags } ⟨disk, r.files⟩)

def run : List String → Disk → Exit := runOn .inTurn

end CherryLang.Command
