import CherryLang.Proofs.Outcome.Routes

namespace CherryLang

/-- What can be called on a pipeline before it is given away. The accessors change nothing and need
no call of their own. -/
inductive Call where
  | setStrict (on : Bool)
  | setKeepTokens (on : Bool)
  | run (disk : Disk)

def Call.isRun : Call → Bool
  | .run _ => true
  | .setStrict _ | .setKeepTokens _ => false

def Call.strict? : Call → Option Bool
  | .setStrict on => some on
  | .setKeepTokens _ | .run _ => none

def Call.keepTokens? : Call → Option Bool
  | .setKeepTokens on => some on
  | .setStrict _ | .run _ => none

/-- What the accessors tell of a pipeline, and the outcome that it would hand on. -/
structure Shown where
  stage : Stage
  tokens : List Token
  warnings : List Lexical.Error
  tree : Except UsageError Tree
  failure? : Option Failure
  outcome : Except UsageError Outcome

namespace Pipeline

def call (p : Pipeline) : Call → Pipeline
  | .setStrict on => p.setStrict on
  | .setKeepTokens on => p.setKeepTokens on
  | .run disk => (p.run disk).2

def after (p : Pipeline) (calls : List Call) : Pipeline := calls.foldl call p

@[simp]
theorem after_cons (p : Pipeline) (c : Call) (calls : List Call) :
    p.after (c :: calls) = (p.call c).after calls := rfl

def shown (p : Pipeline) : Shown :=
  ⟨p.stage, p.tokens, p.warnings, p.tree, p.failure?, p.outcome⟩

def enter (p : Pipeline) (stage : Stage) : Pipeline := { p with stage }

def stages (p : Pipeline) (disk : Disk) : Except Failure Tree × Pipeline :=
  let p := p.enter .scanning
  match scanSource disk p.source with
  | .error e => (.error (.unreadable e), p)
  | .ok scanned =>
    let p := { p with tokens := scanned.tokens }
    if p.strict && !scanned.errors.isEmpty then (.error (.lexical scanned.errors), p)
    else
      let p := { p with warnings := scanned.errors }.enter .parsing
      match Syntax.parse p.tokens with
      | .error e => (.error (.unparsed e), p)
      | .ok tree =>
        let p := p.enter .checking
        match Scope.check tree with
        | [] => (.ok tree, p)
        | errors => (.error (.rejected errors), p)

def finish (p : Pipeline) (result : Except Failure Tree) : Pipeline :=
  { p with
    stage := if result.isOk then .done else .failed
    tokens := if p.keepTokens then p.tokens else []
    result := some result }

def lastStage : Except Failure Tree → Stage
  | .ok _ => .checking
  | .error failure => failure.stage

theorem stages_eq {p : Pipeline} (tokens : p.tokens = []) (warnings : p.warnings = [])
    (disk : Disk) :
    p.stages disk =
      ((process disk p.strict p.source).result,
        { p with
          stage := lastStage (process disk p.strict p.source).result
          tokens := (process disk p.strict p.source).tokens
          warnings := (process disk p.strict p.source).warnings }) := by
  unfold stages process treeOfTokens
  simp only [enter]
  cases scanSource disk p.source with
  | error e =>
    -- Nothing was scanned: what the pipeline shows is still what it began with.
    simp only [tokens, warnings, lastStage, Failure.stage]
  | ok scanned =>
    cases stopped : p.strict && !scanned.errors.isEmpty with
    | true => simp only [stopped, if_true, warnings, lastStage, Failure.stage]
    | false =>
      simp only [stopped, Bool.false_eq_true, if_false]
      cases Syntax.parse scanned.tokens with
      | error e => rfl
      | ok tree =>
        dsimp only
        cases Scope.check tree <;> rfl

/-- Stage by stage comes to the same as all stages at once. -/
theorem execute_eq_finish {p : Pipeline} (tokens : p.tokens = []) (warnings : p.warnings = [])
    (disk : Disk) : p.execute disk = (p.stages disk).2.finish (p.stages disk).1 := by
  rw [stages_eq tokens warnings]
  rfl

/-- A pipeline that has not run: only its settings can have been changed. -/
structure Fresh (source : SourceFile) (p : Pipeline) : Prop where
  source : p.source = source
  stage : p.stage = .created
  tokens : p.tokens = []
  warnings : p.warnings = []
  result : p.result = none

/-- A pipeline that has run and has the outcome `o`. -/
structure Finished (o : Outcome) (p : Pipeline) : Prop where
  source : p.source = o.source
  stage : p.stage = if o.isOk then .done else .failed
  tokens : p.tokens = o.tokens
  warnings : p.warnings = o.warnings
  result : p.result = some o.result

section

variable {source : SourceFile} {o : Outcome} {p : Pipeline}

theorem Fresh.run (fresh : Fresh source p) (disk : Disk) :
    p.run disk = (.ok (), p.execute disk) := by
  simp only [Pipeline.run, fresh.stage, if_true]

theorem Fresh.execute (fresh : Fresh source p) (disk : Disk) :
    Finished (p.complete disk) (p.execute disk) := by
  have completed : p.complete disk = { process disk p.strict p.source with
      tokens := if p.keepTokens then (process disk p.strict p.source).tokens else [] } := by
    simp only [complete, fresh.result]
  constructor
  case source => simp only [completed, Pipeline.execute, source_process]
  all_goals
    rw [completed]
    rfl

theorem Finished.stage_ne_created (finished : Finished o p) : p.stage ≠ .created := by
  rw [finished.stage]
  split <;> simp

theorem Finished.run (finished : Finished o p) (disk : Disk) :
    p.run disk = (.error (.alreadyRan p.stage), p) := by
  simp only [Pipeline.run, if_neg finished.stage_ne_created]

theorem Finished.call (finished : Finished o p) (c : Call) : Finished o (p.call c) := by
  cases c with
  | setStrict on | setKeepTokens on =>
    exact ⟨finished.source, finished.stage, finished.tokens, finished.warnings, finished.result⟩
  | run disk =>
    simp only [Pipeline.call, finished.run]
    exact finished

theorem Finished.after (finished : Finished o p) (calls : List Call) :
    Finished o (p.after calls) := by
  induction calls generalizing p with
  | nil => exact finished
  | cons c calls ih => exact ih (finished.call c)

theorem Finished.outcome (finished : Finished o p) : p.outcome = .ok o := by
  simp only [Pipeline.outcome, finished.result, finished.source, finished.tokens,
    finished.warnings]

theorem Finished.complete (finished : Finished o p) (disk : Disk) : p.complete disk = o := by
  simp only [Pipeline.complete, finished.result, finished.source, finished.tokens,
    finished.warnings]

theorem Finished.shown {q : Pipeline} (finished : Finished o p) (finished' : Finished o q) :
    p.shown = q.shown := by
  simp only [Pipeline.shown, Pipeline.tree, failure?, finished.outcome, finished'.outcome,
    finished.stage, finished'.stage, finished.tokens, finished'.tokens, finished.warnings,
    finished'.warnings, finished.result, finished'.result]

theorem Fresh.call (fresh : Fresh source p) {c : Call} (set : c.isRun = false) :
    Fresh source (p.call c) := by
  cases c with
  | setStrict on | setKeepTokens on =>
    exact ⟨fresh.source, fresh.stage, fresh.tokens, fresh.warnings, fresh.result⟩
  | run disk => cases set

theorem Fresh.after (fresh : Fresh source p) {calls : List Call}
    (unrun : calls.any Call.isRun = false) : Fresh source (p.after calls) := by
  induction calls generalizing p with
  | nil => exact fresh
  | cons c calls ih =>
    rw [List.any_cons, Bool.or_eq_false_iff] at unrun
    exact ih (fresh.call unrun.1) unrun.2

theorem Fresh.finished_run (fresh : Fresh source p) (disk : Disk) :
    Finished (p.complete disk) (p.run disk).2 := by
  rw [fresh.run]
  exact fresh.execute disk

theorem Fresh.finished_after (fresh : Fresh source p) {calls : List Call}
    (ran : calls.any Call.isRun = true) : ∃ o, Finished o (p.after calls) := by
  induction calls generalizing p with
  | nil => cases ran
  | cons c calls ih =>
    cases c with
    | setStrict on | setKeepTokens on => exact ih (fresh.call rfl) ran
    | run disk => exact ⟨_, (fresh.finished_run disk).after calls⟩

end

/-- What holds of a pipeline between two calls, by whether it ran. -/
structure Consistent (p : Pipeline) (ran : Bool) : Prop where
  created : p.stage = .created ↔ ran = false
  done : p.stage = .done ↔ ∃ tree, p.tree = .ok tree
  failed : p.stage = .failed ↔ ∃ failure, p.failure? = some failure
  settled : p.stage = .created ∨ p.stage = .done ∨ p.stage = .failed
  withheld : ∀ e, p.tree = .error e → e = .notDone p.stage
  pending : p.outcome = .error (.notDone p.stage) ↔ ran = false
  handed : (∃ o, p.outcome = .ok o) ↔ ran = true

theorem Fresh.consistent {source : SourceFile} {p : Pipeline} (fresh : Fresh source p) :
    Consistent p false := by
  constructor <;>
    simp [Pipeline.tree, failure?, Pipeline.outcome, fresh.result, fresh.stage]

theorem Finished.consistent {o : Outcome} {p : Pipeline} (finished : Finished o p) :
    Consistent p true := by
  obtain ⟨source, tokens, warnings, result⟩ := o
  cases result <;> constructor <;>
    simp [Pipeline.tree, failure?, Pipeline.outcome, finished.result, finished.stage, Outcome.isOk,
      Except.isOk, Except.toBool]

/-- Nothing that is called on a pipeline changes what it shows or hands on. -/
structure Settled (p : Pipeline) : Prop where
  refused : ∀ disk, p.run disk = (.error (.alreadyRan p.stage), p)
  shown : ∀ calls, (p.after calls).shown = p.shown
  outcome : ∀ calls disk, p.outcome = .ok ((p.after calls).complete disk)

theorem Finished.settled {o : Outcome} {p : Pipeline} (finished : Finished o p) :
    Settled p where
  refused := finished.run
  shown calls := (finished.after calls).shown finished
  outcome calls disk := by rw [finished.outcome, (finished.after calls).complete]

/-- What the first run of a pipeline comes to. -/
structure Awaiting (p : Pipeline) : Prop where
  entered : ∀ disk, p.run disk = (.ok (), (p.stages disk).2.finish (p.stages disk).1)
  decided : ∀ disk, (p.stages disk).2.stage = lastStage (p.stages disk).1
  outcome : ∀ disk calls disk',
    ((p.run disk).2.after calls).outcome = .ok (p.complete disk) ∧
    ((p.run disk).2.after calls).complete disk' = p.complete disk
  tokens : ∀ disk scanned, scanSource disk p.source = .ok scanned → scanned.tokens ≠ [] ∧
    (p.complete disk).tokens = if p.keepTokens then scanned.tokens else []

theorem Fresh.awaiting {source : SourceFile} {p : Pipeline} (fresh : Fresh source p) :
    Awaiting p where
  entered disk := by rw [fresh.run, execute_eq_finish fresh.tokens fresh.warnings]
  decided disk := by rw [stages_eq fresh.tokens fresh.warnings]
  outcome disk calls disk' :=
    have finished := (fresh.finished_run disk).after calls
    ⟨finished.outcome, finished.complete disk'⟩
  tokens disk scanned read := by
    refine ⟨tokens_ne_nil read, ?_⟩
    simp only [complete, fresh.result, tokens_process read]

theorem settings_run (p : Pipeline) (disk : Disk) :
    (p.run disk).2.source = p.source ∧ (p.run disk).2.strict = p.strict ∧
      (p.run disk).2.keepTokens = p.keepTokens := by
  unfold Pipeline.run
  split <;> exact ⟨rfl, rfl, rfl⟩

theorem source_call (p : Pipeline) (c : Call) : (p.call c).source = p.source := by
  cases c with
  | setStrict on | setKeepTokens on => rfl
  | run disk => exact (settings_run p disk).1

theorem strict_call (p : Pipeline) (c : Call) :
    (p.call c).strict = c.strict?.getD p.strict := by
  cases c with
  | setStrict on | setKeepTokens on => rfl
  | run disk => exact (settings_run p disk).2.1

theorem keepTokens_call (p : Pipeline) (c : Call) :
    (p.call c).keepTokens = c.keepTokens?.getD p.keepTokens := by
  cases c with
  | setStrict on | setKeepTokens on => rfl
  | run disk => exact (settings_run p disk).2.2

theorem source_after (p : Pipeline) (calls : List Call) : (p.after calls).source = p.source := by
  induction calls generalizing p with
  | nil => rfl
  | cons c calls ih => rw [after_cons, ih, source_call]

theorem setting_after {get : Pipeline → Bool} {set? : Call → Option Bool}
    (step : ∀ p c, get (p.call c) = (set? c).getD (get p)) (p : Pipeline) (calls : List Call) :
    get (p.after calls) = (calls.filterMap set?).getLast?.getD (get p) := by
  induction calls generalizing p with
  | nil => rfl
  | cons c calls ih =>
    rw [after_cons, ih, step, List.filterMap_cons]
    cases set? c with
    | none => rfl
    | some on => simp [List.getLast?_cons]

end Pipeline

/-- The life of a pipeline under every sequence of calls. Between two calls its stage, its
accessors and the way to its outcome agree with each other and with whether a run was among the
calls. Behind a run nothing changes any more; before it, the run does what the stages do one after
the other, and comes to the outcome that `complete` has without it. Each setting is the last one
made, and the tokens are in the outcome exactly under the setting that the stages found. -/
theorem life_cycle (source : SourceFile) (calls : List Call) :
    let p := ({ source } : Pipeline).after calls
    p.Consistent (calls.any Call.isRun) ∧
    (if calls.any Call.isRun then p.Settled else p.Awaiting) ∧
    p.source = source ∧
    p.strict = (calls.filterMap Call.strict?).getLast?.getD false ∧
    p.keepTokens = (calls.filterMap Call.keepTokens?).getLast?.getD false := by
  intro p
  have fresh : Pipeline.Fresh source { source } := ⟨rfl, rfl, rfl, rfl, rfl⟩
  refine ⟨?consistent, ?outlook, ?source, ?strict, ?keepTokens⟩
  case consistent =>
    cases ran : calls.any Call.isRun with
    | false => exact (fresh.after ran).consistent
    | true =>
      obtain ⟨o, finished⟩ := fresh.finished_after ran
      exact finished.consistent
  case outlook =>
    split
    · next ran =>
      obtain ⟨o, finished⟩ := fresh.finished_after ran
      exact finished.settled
    · next unrun => exact (fresh.after (Bool.eq_false_iff.2 unrun)).awaiting
  case source => exact Pipeline.source_after _ calls
  case strict => exact Pipeline.setting_after Pipeline.strict_call _ calls
  case keepTokens => exact Pipeline.setting_after Pipeline.keepTokens_call _ calls

end CherryLang
