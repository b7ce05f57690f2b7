import CherryLang.Command.FlagSet
import CherryLang.Outcome.LifeCycle
import CherryLang.Outcome.Report

namespace CherryLang.Command

/-- How several workers apply a function to all files. -/
abbrev Pool := Option Jobs → (SourceFile → Outcome) → List SourceFile → List Outcome

namespace Pool

/-- The results come in the order of the files, whichever is ready first. -/
def Ordered (pool : Pool) : Prop :=
  ∀ jobs f files, pool jobs f files = files.map f

/-- Each file waits for the one before it, however many workers there are. -/
def inTurn : Pool := fun _ f files => files.map f

theorem ordered_inTurn : inTurn.Ordered := fun _ _ _ => rfl

end Pool

structure Batch where
  disk : Disk
  files : List SourceFile

/-- What the flags of a command line mean for its files. -/
structure Settings where
  flags : FlagSet := {}

namespace Settings

def isStrict (s : Settings) : Bool := s.flags.isRaised .strict

def keepsTokens (s : Settings) : Bool := s.flags.isRaised .dumpTokens

def jobs (s : Settings) : Option Jobs :=
  if s.flags.isRaised .sequential then some .one else s.flags.jobs

def pipeline (s : Settings) (file : SourceFile) : Pipeline where
  source := file
  strict := s.isStrict
  keepTokens := s.keepsTokens

def outcome (s : Settings) (disk : Disk) (file : SourceFile) : Outcome :=
  (s.pipeline file).complete disk

/-- A batch with a pool. One worker, or one file, needs none. -/
def runOn (pool : Pool) (s : Settings) (batch : Batch) : Report :=
  if batch.files.length ≤ 1 ∨ s.jobs.any (·.count == 1) then
    ⟨batch.files.map (s.outcome batch.disk)⟩
  else ⟨pool s.jobs (s.outcome batch.disk) batch.files⟩

def runAll (pool : Pool) (s : Settings) (batches : List Batch) : List Report :=
  batches.map (s.runOn pool)

def run (s : Settings) (disk : Disk) (files : List SourceFile) : Report :=
  s.runOn .inTurn ⟨disk, files⟩

end Settings

end CherryLang.Command
