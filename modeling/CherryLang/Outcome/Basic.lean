import CherryLang.Outcome.Failure
import CherryLang.Source.Disk

namespace CherryLang

inductive Origin where
  | path (path : String)
  | text (text : String)
  deriving DecidableEq, Repr

structure SourceFile where
  id : FileId
  name : String
  origin : Origin
  deriving DecidableEq, Repr

namespace SourceFile

def ofPath (id : FileId) (path : String) : SourceFile := ⟨id, path, .path path⟩

def ofText (id : FileId) (name text : String) : SourceFile := ⟨id, name, .text text⟩

end SourceFile

structure Outcome where
  source : SourceFile
  tokens : List Token
  warnings : List Lexical.Error
  result : Except Failure Tree

def Outcome.isOk (o : Outcome) : Bool := o.result.isOk

def scanSource (disk : Disk) (source : SourceFile) : Except ReadError Lexical.Scanned :=
  match source.origin with
  | .text text => Lexical.scan source.id (.ofText text)
  | .path path =>
    match disk path with
    | .error cause => .error (.disk cause)
    | .ok bytes => Lexical.scan source.id (.ofBytes bytes)

/-- Run every stage on a file. Lexical errors are warnings unless `strict` is set. -/
def process (disk : Disk) (strict : Bool) (source : SourceFile) : Outcome :=
  match scanSource disk source with
  | .error e => ⟨source, [], [], .error (.unreadable e)⟩
  | .ok scanned =>
    if strict && !scanned.errors.isEmpty then
      ⟨source, scanned.tokens, [], .error (.lexical scanned.errors)⟩
    else ⟨source, scanned.tokens, scanned.errors, treeOfTokens scanned.tokens⟩

end CherryLang
