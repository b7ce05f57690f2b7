import CherryLang.Command.Run
import CherryLang.Proofs.Command.Flags
import CherryLang.Proofs.Command.Isolation
import Mathlib.Logic.Basic

namespace CherryLang.Command

def acceptedFiles (args : List String) : List SourceFile :=
  ((fileArgs args).filter accepts).zipIdx.map fun (name, k) => .ofPath ⟨min k lastFileNumber⟩ name

/-- A command line that is not run: empty, a call for help, with a faulty flag, with two flags that
exclude each other, or without a file. -/
def Refused (args : List String) : Prop :=
  args = [] ∨ "--help" ∈ args ∨ "-h" ∈ args ∨ (∃ arg ∈ flagArgs args, faults arg ≠ []) ∨
    ((∃ arg ∈ flagArgs args, (raised arg).isRaised .verbose = true) ∧
      ∃ arg ∈ flagArgs args, (raised arg).isRaised .quiet = true) ∨
    ∀ name ∈ fileArgs args, accepts name = false

instance : DecidablePred Refused := fun _ => inferInstanceAs (Decidable (_ ∨ _))

/-- A file comes through all stages, with the flags that the arguments raise. -/
def Succeeds (args : List String) (disk : Disk) (file : SourceFile) : Prop :=
  (completed disk file ("--strict" ∈ args) ("--dump-tokens" ∈ args)).isOk = true

instance (args : List String) (disk : Disk) : DecidablePred (Succeeds args disk) := fun _ =>
  inferInstanceAs (Decidable (_ = true))

/-- What a command line promises its caller. -/
structure Contract (command : List String → Disk → Exit) : Prop where
  refused : ∀ args disk, (command args disk).code = 2 ↔ Refused args
  succeeded : ∀ args disk, ¬ Refused args →
    ((command args disk).code = 0 ↔ ∀ file ∈ acceptedFiles args, Succeeds args disk file)
  failed : ∀ args disk, ¬ Refused args →
    ((command args disk).code = 1 ↔ ∃ file ∈ acceptedFiles args, ¬ Succeeds args disk file)
  silent : ∀ args disk, (command args disk).code = 2 ∨
    ("--dump-tokens" ∉ args ∧ "--dump-tree" ∉ args) → (command args disk).stdout = ""
  /-- Flags may stand anywhere among the files. -/
  moved : ∀ args args' disk, flagArgs args = flagArgs args' → fileArgs args = fileArgs args' →
    command args disk = command args' disk
  sequential : ∀ before after disk, before ++ after ≠ [] →
    command (before ++ "--sequential" :: after) disk = command (before ++ after) disk
  jobs : ∀ before after disk text jobs, before ++ after ≠ [] → readJobs text = .ok jobs →
    command (before ++ ("--jobs=" ++ text) :: after) disk = command (before ++ after) disk
  /-- What passes strictly passes. -/
  lenient : ∀ before after disk, (command (before ++ "--strict" :: after) disk).code = 0 →
    (command (before ++ after) disk).code = 0

theorem runOn_eq_run {pool : Pool} (ordered : pool.Ordered) : runOn pool = run := by
  funext args disk
  unfold run runOn
  cases request args with
  | error messages => rfl
  | ok r => exact congrArg r.exit (Settings.runOn_eq_run ordered _ _)

theorem run_eq (args : List String) (disk : Disk) :
    run args disk = match request args with
      | .error messages => refuse messages
      | .ok r => r.exit (Settings.run { flags := r.flags } disk r.files) := rfl

theorem errors_ofArgs_eq_nil (args : List String) :
    (FlagSet.ofArgs args).2 = [] ↔ (∀ arg ∈ args, faults arg = []) ∧
      ¬ ((∃ arg ∈ args, (raised arg).isRaised .verbose = true) ∧
        ∃ arg ∈ args, (raised arg).isRaised .quiet = true) := by
  have conflict : (FlagSet.raisedBy args).conflicts = [] ↔
      ¬ ((FlagSet.raisedBy args).isRaised .verbose && (FlagSet.raisedBy args).isRaised .quiet) := by
    unfold FlagSet.conflicts
    split <;> simp_all
  rw [FlagSet.ofArgs_eq, List.append_eq_nil_iff, List.flatMap_eq_nil_iff, conflict,
    FlagSet.isRaised_raisedBy, FlagSet.isRaised_raisedBy, Bool.and_eq_true, List.any_eq_true,
    List.any_eq_true]

theorem files_asked (args : List String) : (asked args).files = acceptedFiles args :=
  files_acceptFrom 0 (fileArgs args)

theorem acceptedFiles_eq_nil (args : List String) :
    acceptedFiles args = [] ↔ ∀ name ∈ fileArgs args, accepts name = false := by
  simp [acceptedFiles]

theorem refused_iff (args : List String) :
    Refused args ↔ (args = [] ∨ "--help" ∈ args ∨ "-h" ∈ args) ∨
      (FlagSet.ofArgs (flagArgs args)).2 ≠ [] ∨ (asked args).files = [] := by
  rw [files_asked, acceptedFiles_eq_nil, ne_eq, errors_ofArgs_eq_nil, not_and_or, not_not]
  simp only [Refused, not_forall, exists_prop, ne_eq, or_assoc]

theorem request_of_refused {args : List String} (refused : Refused args) :
    ∃ messages, request args = .error messages := by
  unfold request
  split
  · exact ⟨_, rfl⟩
  · next busy =>
    split
    · exact ⟨_, rfl⟩
    · next faultless =>
      rcases (refused_iff args).mp refused with idle | faulty | none
      · exact absurd idle busy
      · exact absurd faulty faultless
      · exact ⟨_, if_pos none⟩

theorem request_of_not_refused {args : List String} (taken : ¬ Refused args) :
    request args = .ok (asked args) := by
  rw [refused_iff, not_or] at taken
  obtain ⟨busy, rest⟩ := taken
  obtain ⟨faultless, filled⟩ := not_or.mp rest
  rw [request, if_neg busy, if_neg faultless, if_neg filled]

section

variable {args : List String} (disk : Disk)

theorem run_of_refused (refused : Refused args) :
    (run args disk).code = 2 ∧ (run args disk).stdout = "" := by
  obtain ⟨messages, none⟩ := request_of_refused refused
  rw [run_eq, none]
  exact ⟨rfl, rfl⟩

theorem run_of_not_refused (taken : ¬ Refused args) :
    run args disk = (asked args).exit
      (Settings.run { flags := (asked args).flags } disk (acceptedFiles args)) := by
  rw [run_eq, request_of_not_refused taken, ← files_asked]

end

theorem isRaised_asked {flag : Flag} (long : flag.short? = none) (args : List String) :
    (asked args).flags.isRaised flag = decide (flag.text ∈ args) := by
  have dashed : isFlag flag.text = true := by cases flag <;> rfl
  rw [Bool.eq_iff_iff, decide_eq_true_iff]
  simp [asked, FlagSet.ofArgs_eq, FlagSet.isRaised_raisedBy, FlagSet.isRaised_raised_iff long,
    flagArgs, dashed]

theorem outcome_asked (args : List String) (disk : Disk) (file : SourceFile) :
    Settings.outcome { flags := (asked args).flags } disk file =
      completed disk file ("--strict" ∈ args) ("--dump-tokens" ∈ args) := by
  rw [Settings.outcome_eq_completed, Settings.isStrict, Settings.keepsTokens, isRaised_asked rfl,
    isRaised_asked rfl]
  rfl

theorem isSuccess_asked (args : List String) (disk : Disk) :
    (Settings.run { flags := (asked args).flags } disk (acceptedFiles args)).isSuccess = true ↔
      ∀ file ∈ acceptedFiles args, Succeeds args disk file := by
  simp [Report.isSuccess, Settings.outcomes_run, outcome_asked, Succeeds]

theorem code_of_not_refused {args : List String} (taken : ¬ Refused args) (disk : Disk) :
    (run args disk).code =
      if ∀ file ∈ acceptedFiles args, Succeeds args disk file then 0 else 1 := by
  rw [run_of_not_refused disk taken]
  simp only [Request.exit, isSuccess_asked]

theorem code_eq_two_iff (args : List String) (disk : Disk) :
    (run args disk).code = 2 ↔ Refused args := by
  constructor
  · intro two
    by_cases refused : Refused args
    · exact refused
    · rw [code_of_not_refused refused] at two
      split at two <;> cases two
  · exact fun refused => (run_of_refused disk refused).1

theorem stdout_eq_empty {args : List String} (tokens : "--dump-tokens" ∉ args)
    (tree : "--dump-tree" ∉ args) (disk : Disk) : (run args disk).stdout = "" := by
  by_cases refused : Refused args
  · exact (run_of_refused disk refused).2
  · have noTokens : (asked args).flags.isRaised .dumpTokens = false := by
      rw [isRaised_asked rfl]
      exact decide_eq_false tokens
    have noTree : (asked args).flags.isRaised .dumpTree = false := by
      rw [isRaised_asked rfl]
      exact decide_eq_false tree
    have nothing : ∀ o, dumps (asked args).flags o = [] := by
      intro o
      unfold dumps
      rw [noTokens, noTree]
      cases o.result <;> rfl
    have written : ∀ outcomes : List Outcome,
        outcomes.flatMap (dumps (asked args).flags) = [] := by
      intro outcomes
      exact List.flatMap_eq_nil_iff.mpr fun o _ => nothing o
    rw [run_of_not_refused disk refused, Request.exit, written]
    rfl

theorem request_congr {args args' : List String} (empty : args = [] ↔ args' = [])
    (help : ∀ arg ∈ ["--help", "-h"], arg ∈ args ↔ arg ∈ args')
    (faulty : (FlagSet.ofArgs (flagArgs args)).2 = (FlagSet.ofArgs (flagArgs args')).2)
    (files : fileArgs args = fileArgs args') :
    request args = (request args').map fun r => { r with flags := (asked args).flags } := by
  have long := help "--help" (by decide)
  have short := help "-h" (by decide)
  simp only [request, asked, empty, long, short, faulty, files]
  split
  · rfl
  · split
    · rfl
    · by_cases none : (Selection.ofNames (fileArgs args')).files = [] <;> simp [none, Except.map]

theorem exit_congr {flags flags' : FlagSet}
    (same : ∀ flag ∈ [.strict, .dumpTokens, .dumpTree], flags.isRaised flag = flags'.isRaised flag)
    (files : List SourceFile) (notes : List String) (disk : Disk) :
    Request.exit ⟨flags, files, notes⟩ (Settings.run ⟨flags⟩ disk files) =
      Request.exit ⟨flags', files, notes⟩ (Settings.run ⟨flags'⟩ disk files) := by
  have strict := same .strict (by decide)
  have tokens := same .dumpTokens (by decide)
  have tree := same .dumpTree (by decide)
  have outcomes : Settings.run ⟨flags⟩ disk files = Settings.run ⟨flags'⟩ disk files := by
    rw [Settings.run_eq, Settings.run_eq]
    apply congrArg Report.mk
    apply List.map_congr_left
    intro file _
    exact Settings.outcome_congr strict tokens rfl
  have written : dumps flags = dumps flags' := by
    funext o
    simp only [dumps, tokens, tree]
  simp only [Request.exit, outcomes, written]

theorem run_congr {args args' : List String} (empty : args = [] ↔ args' = [])
    (help : ∀ arg ∈ ["--help", "-h"], arg ∈ args ↔ arg ∈ args')
    (faulty : (FlagSet.ofArgs (flagArgs args)).2 = (FlagSet.ofArgs (flagArgs args')).2)
    (files : fileArgs args = fileArgs args')
    (same : ∀ flag ∈ [.strict, .dumpTokens, .dumpTree],
      (asked args).flags.isRaised flag = (asked args').flags.isRaised flag) (disk : Disk) :
    run args disk = run args' disk := by
  rw [run_eq, run_eq, request_congr empty help faulty files]
  by_cases refused : Refused args'
  · obtain ⟨messages, none⟩ := request_of_refused refused
    rw [none]
    rfl
  · rw [request_of_not_refused refused]
    exact exit_congr same _ _ disk

theorem run_of_same_order {args args' : List String} (flags : flagArgs args = flagArgs args')
    (files : fileArgs args = fileArgs args') (disk : Disk) : run args disk = run args' disk := by
  have dashed : ∀ arg, isFlag arg = true → (arg ∈ args ↔ arg ∈ args') := by
    intro arg dash
    have both : arg ∈ flagArgs args ↔ arg ∈ flagArgs args' := by rw [flags]
    simpa [flagArgs, dash] using both
  have split : ∀ args, args = [] ↔ flagArgs args = [] ∧ fileArgs args = [] := by
    intro args
    cases args with
    | nil => simp [flagArgs, fileArgs]
    | cons arg args => cases dash : isFlag arg <;> simp [flagArgs, fileArgs, dash]
  apply run_congr
  · rw [split args, split args', flags, files]
  · intro arg member
    apply dashed
    simp only [List.mem_cons, List.not_mem_nil, or_false] at member
    rcases member with rfl | rfl <;> rfl
  · rw [flags]
  · exact files
  · simp [asked, flags]

/-- An argument for the workers: without fault, and with no flag but those for their number. -/
def ForWorkers (arg : String) : Prop :=
  faults arg = [] ∧ ∀ flag, flag ≠ .sequential → flag ≠ .jobs → (raised arg).isRaised flag = false

section

variable {arg : String} (before after : List String)

theorem isFlag_of_faults (clean : faults arg = []) : isFlag arg = true := by
  unfold faults FlagSet.raiseArg at clean
  unfold isFlag
  split at clean
  · next spelled => simp [spelled]
  · next spelled => simp [spelled]
  · cases clean

theorem flagArgs_insert (dash : isFlag arg = true) :
    flagArgs (before ++ arg :: after) = flagArgs before ++ arg :: flagArgs after := by
  simp [flagArgs, dash]

theorem fileArgs_insert (dash : isFlag arg = true) :
    fileArgs (before ++ arg :: after) = fileArgs (before ++ after) := by
  simp [fileArgs, dash]

variable (workers : ForWorkers arg)
include workers

theorem isRaised_insert (flag : Flag) (sequential : flag ≠ .sequential) (jobs : flag ≠ .jobs) :
    (FlagSet.raisedBy (flagArgs (before ++ arg :: after))).isRaised flag =
      (FlagSet.raisedBy (flagArgs (before ++ after))).isRaised flag := by
  have unraised := workers.2 flag sequential jobs
  have dash := isFlag_of_faults workers.1
  rw [FlagSet.isRaised_raisedBy, FlagSet.isRaised_raisedBy, flagArgs_insert before after dash]
  simp [flagArgs, unraised]

theorem run_insert (others : before ++ after ≠ []) (disk : Disk) :
    run (before ++ arg :: after) disk = run (before ++ after) disk := by
  have dash := isFlag_of_faults workers.1
  have verbose := isRaised_insert before after workers .verbose (by decide) (by decide)
  have quiet := isRaised_insert before after workers .quiet (by decide) (by decide)
  apply run_congr
  · simpa using others
  · intro help member
    have apart : help ≠ arg := by
      rintro rfl
      have clean := workers.1
      simp only [List.mem_cons, List.not_mem_nil, or_false] at member
      rcases member with rfl | rfl <;> cases clean
    simp [apart]
  · rw [FlagSet.ofArgs_eq, FlagSet.ofArgs_eq, FlagSet.conflicts, FlagSet.conflicts, verbose, quiet,
      flagArgs_insert before after dash]
    simp [flagArgs, workers.1]
  · exact fileArgs_insert before after dash
  · intro flag member
    simp only [asked, FlagSet.ofArgs_eq]
    apply isRaised_insert before after workers flag
    · rintro rfl
      simp at member
    · rintro rfl
      simp at member

end

theorem forWorkers_sequential : ForWorkers "--sequential" := by
  refine ⟨rfl, ?_⟩
  intro flag sequential jobs
  cases flag <;> first | rfl | contradiction

theorem raiseArg_jobs {text : String} {jobs : Jobs} (valid : readJobs text = .ok jobs) :
    FlagSet.raiseArg {} ("--jobs=" ++ text) =
      ({ FlagSet.raise {} .jobs with jobs := some jobs }, []) := by
  have spelled : ("--jobs=" ++ text).toList =
      '-' :: '-' :: 'j' :: 'o' :: 'b' :: 's' :: '=' :: text.toList := by simp
  have known : Flag.ofLong? (String.ofList ['j', 'o', 'b', 's']) = some .jobs := by decide
  simp [FlagSet.raiseArg, spelled, FlagSet.raiseLong, FlagSet.splitValue, known, FlagSet.raiseWith,
    Flag.takesValue, valid]

theorem forWorkers_jobs {text : String} {jobs : Jobs} (valid : readJobs text = .ok jobs) :
    ForWorkers ("--jobs=" ++ text) := by
  unfold ForWorkers faults raised
  rw [raiseArg_jobs valid]
  refine ⟨rfl, ?_⟩
  intro flag _ other
  simp [FlagSet.raise, other]

theorem isOk_of_strict {disk : Disk} {file : SourceFile} {keep : Bool}
    (passed : (completed disk file true keep).isOk = true) (strict keep' : Bool) :
    (completed disk file strict keep').isOk = true := by
  cases strict with
  | true => exact passed
  | false =>
    unfold Outcome.isOk at passed ⊢
    rw [result_completed] at passed ⊢
    cases read : scanSource disk file with
    | error e => simp [process, read, Except.isOk, Except.toBool] at passed
    | ok scanned =>
      by_cases clean : scanned.errors = []
      · rwa [process_of_clean read clean] at passed ⊢
      · rw [process_strict read clean] at passed
        cases passed

theorem Refused.insert {before after : List String} (refused : Refused (before ++ after))
    {arg : String} (dash : isFlag arg = true) : Refused (before ++ arg :: after) := by
  have kept : ∀ other, other ∈ before ++ after → other ∈ before ++ arg :: after := by
    intro other member
    exact List.mem_append.mpr ((List.mem_append.mp member).imp_right (.tail arg))
  have flags : ∀ other ∈ flagArgs (before ++ after), other ∈ flagArgs (before ++ arg :: after) := by
    intro other member
    obtain ⟨given, dashed⟩ := List.mem_filter.mp member
    exact List.mem_filter.mpr ⟨kept other given, dashed⟩
  have still : ∀ up : String → Prop, (∃ other ∈ flagArgs (before ++ after), up other) →
      ∃ other ∈ flagArgs (before ++ arg :: after), up other := by
    rintro up ⟨other, member, holds⟩
    exact ⟨other, flags other member, holds⟩
  unfold Refused at refused ⊢
  rw [fileArgs_insert before after dash]
  rcases refused with empty | refused
  · -- The list is not empty any more, but there is still no file in it.
    simp [empty, fileArgs]
  · exact .inr (refused.imp (kept _) (.imp (kept _) (.imp (still _)
      (.imp (.imp (still _) (still _)) id))))

theorem code_lenient (before after : List String) (disk : Disk)
    (passed : (run (before ++ "--strict" :: after) disk).code = 0) :
    (run (before ++ after) disk).code = 0 := by
  have dash : isFlag "--strict" = true := by decide
  have taken : ¬ Refused (before ++ "--strict" :: after) := by
    rw [← code_eq_two_iff _ disk, passed]
    decide
  have taken' : ¬ Refused (before ++ after) := fun refused => taken (refused.insert dash)
  have files : acceptedFiles (before ++ "--strict" :: after) = acceptedFiles (before ++ after) := by
    rw [acceptedFiles, acceptedFiles, fileArgs_insert before after dash]
  rw [code_of_not_refused taken, files] at passed
  rw [code_of_not_refused taken', if_pos]
  intro file member
  split at passed
  · next all =>
    have strictly := all file member
    simp only [Succeeds, List.mem_append, List.mem_cons, true_or, or_true, decide_true] at strictly
    exact isOk_of_strict strictly _ _
  · cases passed

theorem contract_run : Contract run where
  refused := code_eq_two_iff
  succeeded := by
    intro args disk taken
    simp [code_of_not_refused taken]
  failed := by
    intro args disk taken
    simp [code_of_not_refused taken]
  silent := by
    rintro args disk (refused | ⟨tokens, tree⟩)
    · exact (run_of_refused disk ((code_eq_two_iff args disk).mp refused)).2
    · exact stdout_eq_empty tokens tree disk
  moved _ _ disk flags files := run_of_same_order flags files disk
  sequential before after disk others := run_insert before after forWorkers_sequential others disk
  jobs before after disk _ _ others valid :=
    run_insert before after (forWorkers_jobs valid) others disk
  lenient := code_lenient

/-- With any pool that keeps the order, the command line keeps its contract, and it leaves what it
leaves without a pool. -/
theorem command_contract {pool : Pool} (ordered : pool.Ordered) :
    runOn pool = run ∧ Contract (runOn pool) := by
  rw [runOn_eq_run ordered]
  exact ⟨rfl, contract_run⟩

theorem command_contract_backwards :
    backwards.Ordered ∧ Refused ["-v", "a.ch", "--quiet"] ∧
      (runOn backwards ["-v", "a.ch", "--quiet"] crowdedBatch.disk).code = 2 ∧
      ¬ Refused ["notes.txt", "--strict", "b.ry"] ∧
      runOn backwards ["b.ry", "--jobs=+3", "a.ch"] crowdedBatch.disk =
        runOn backwards ["b.ry", "a.ch"] crowdedBatch.disk := by
  have ordered : backwards.Ordered := by
    apply Pool.ordered_slots
    intro jobs n i inside
    simpa using inside
  obtain ⟨-, contract⟩ := command_contract ordered
  have refused : Refused ["-v", "a.ch", "--quiet"] := by decide
  have valid : readJobs "+3" = .ok ⟨3, by decide, by decide⟩ := rfl
  exact ⟨ordered, refused, (contract.refused _ _).mpr refused, by decide,
    contract.jobs ["b.ry"] ["a.ch"] _ "+3" _ (by decide) valid⟩

end CherryLang.Command
