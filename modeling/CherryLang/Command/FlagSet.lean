import CherryLang.Command.Error

/-! Flags from arguments. A long flag is `--name` or `--name=value`. Short flags may be grouped, and
one that takes a value takes the rest of its group. To raise a flag twice is harmless; of several
worker counts the last counts. -/
namespace CherryLang.Command

/-- Numbers from here on do not fit a machine word of 64 bits. -/
def wordLimit : Nat := 0x10000000000000000

structure Jobs where
  count : Nat
  positive : 0 < count
  bounded : count < wordLimit
  deriving DecidableEq

def Jobs.one : Jobs := ⟨1, by decide, by decide⟩

/-- Read decimal digits on from `value`; the first fault counts. -/
def readDigits (value : Nat) : List Char → Except JobsError Nat
  | [] => .ok value
  | c :: rest =>
    if c.isDigit then
      let longer := value * 10 + (c.toNat - '0'.toNat)
      if longer < wordLimit then readDigits longer rest else .error .tooLarge
    else .error .invalidDigit

def readNumber : List Char → Except JobsError Nat
  | [] => .error .empty
  | ['+'] => .error .invalidDigit
  | '+' :: digits => readDigits 0 digits
  | digits => readDigits 0 digits

def readJobs (text : String) : Except JobsError Jobs :=
  match readNumber text.toList with
  | .error e => .error e
  | .ok count =>
    if positive : 0 < count then
      if bounded : count < wordLimit then .ok ⟨count, positive, bounded⟩ else .error .tooLarge
    else .error .zero

structure FlagSet where
  isRaised : Flag → Bool := fun _ => false
  jobs : Option Jobs := none

namespace FlagSet

def toList (flags : FlagSet) : List Flag := Flag.all.filter flags.isRaised

def isEmpty (flags : FlagSet) : Bool := flags.toList.isEmpty

def raise (flags : FlagSet) (flag : Flag) : FlagSet :=
  { flags with isRaised := fun other => other == flag || flags.isRaised other }

def raiseWith (flags : FlagSet) (flag : Flag) (value : Option String) : Except Error FlagSet :=
  match flag.takesValue, value with
  | true, none => .error (.missingValue flag)
  | false, some _ => .error (.unexpectedValue flag)
  | false, none => .ok (flags.raise flag)
  | true, some value =>
    match readJobs value with
    | .error reason => .error (.invalidValue flag value reason)
    | .ok jobs => .ok { flags.raise flag with jobs := some jobs }

def splitValue : List Char → List Char × Option (List Char)
  | [] => ([], none)
  | c :: rest =>
    if c = '=' then ([], some rest)
    else
      let (name, value) := splitValue rest
      (c :: name, value)

def raiseLong (flags : FlagSet) (text : List Char) : FlagSet × List Error :=
  let (name, value) := splitValue text
  match Flag.ofLong? (String.ofList name) with
  | none => (flags, [.unknownFlag ("--" ++ String.ofList name)])
  | some flag =>
    match flags.raiseWith flag (value.map String.ofList) with
    | .error e => (flags, [e])
    | .ok flags => (flags, [])

/-- The group behind one dash. Flags before a faulty one stay raised. -/
def raiseShort (flags : FlagSet) : List Char → FlagSet × List Error
  | [] => (flags, [])
  | c :: rest =>
    match Flag.ofShort? c with
    | none => (flags, [.unknownFlag ("-" ++ toString c)])
    | some flag =>
      let value := if flag.takesValue && !rest.isEmpty then some (String.ofList rest) else none
      match flags.raiseWith flag value with
      | .error e => (flags, [e])
      | .ok flags => if flag.takesValue then (flags, []) else raiseShort flags rest

def raiseArg (flags : FlagSet) (arg : String) : FlagSet × List Error :=
  match arg.toList with
  | '-' :: '-' :: long => flags.raiseLong long
  | '-' :: c :: group => flags.raiseShort (c :: group)
  | _ => (flags, [.unknownFlag arg])

def raiseArgs (flags : FlagSet) : List String → FlagSet × List Error
  | [] => (flags, [])
  | arg :: rest =>
    let (flags, errors) := flags.raiseArg arg
    let (flags, more) := flags.raiseArgs rest
    (flags, errors ++ more)

def ofArgs (args : List String) : FlagSet × List Error :=
  let (flags, errors) := raiseArgs {} args
  if flags.isRaised .verbose && flags.isRaised .quiet then
    (flags, errors ++ [.conflict .verbose .quiet])
  else (flags, errors)

end FlagSet

end CherryLang.Command
