namespace CherryLang.Command

inductive Flag where
  | verbose
  | quiet
  /-- Lexical errors fail a file. -/
  | strict
  | sequential
  | dumpTokens
  | dumpTree
  /-- Number of workers; the only flag with a value. -/
  | jobs
  deriving DecidableEq, Repr

namespace Flag

def all : List Flag := [.verbose, .quiet, .strict, .sequential, .dumpTokens, .dumpTree, .jobs]

def long : Flag → String
  | .verbose => "verbose"
  | .quiet => "quiet"
  | .strict => "strict"
  | .sequential => "sequential"
  | .dumpTokens => "dump-tokens"
  | .dumpTree => "dump-tree"
  | .jobs => "jobs"

def short? : Flag → Option Char
  | .verbose => some 'v'
  | .quiet => some 'q'
  | .jobs => some 'j'
  | .strict | .sequential | .dumpTokens | .dumpTree => none

def takesValue (flag : Flag) : Bool := flag == .jobs

def help : Flag → String
  | .verbose => "log pipeline stages"
  | .quiet => "only log errors"
  | .strict => "fail a file on any lexical error"
  | .sequential => "process files one at a time"
  | .dumpTokens => "print each file's tokens"
  | .dumpTree => "print each file's syntax tree"
  | .jobs => "number of worker threads"

def text (flag : Flag) : String := "--" ++ flag.long

def ofLong? (name : String) : Option Flag := all.find? (·.long == name)

def ofShort? (c : Char) : Option Flag := all.find? (·.short? == some c)

end Flag

end CherryLang.Command
