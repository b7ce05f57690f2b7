import CherryLang.Outcome.Basic
import Std.Data.TreeMap

namespace CherryLang

structure Report where
  outcomes : List Outcome

namespace Report

def succeeded (r : Report) : Nat := r.outcomes.countP (·.isOk)

def failed (r : Report) : Nat := r.outcomes.length - r.succeeded

def isSuccess (r : Report) : Bool := r.outcomes.all (·.isOk)

/-- The trees by file number; of several files with one number the last success counts. -/
def trees (r : Report) : Std.TreeMap Nat Tree :=
  r.outcomes.foldl (fun found o =>
    match o.result with
    | .ok tree => found.insert o.source.id.number tree
    | .error _ => found) ∅

end Report

end CherryLang
