import CherryLang.Command.Batch
import CherryLang.Command.FileName
import CherryLang.Proofs.Outcome.Routes

namespace CherryLang

namespace Report

def treeOf? (k : Nat) (o : Outcome) : Option Tree :=
  if o.source.id.number = k then o.result.toOption else none

/-- The trees that were made for files of number `k`, in the order of the outcomes. -/
def treesOf (k : Nat) (outcomes : List Outcome) : List Tree := outcomes.filterMap (treeOf? k)

def collect (found : Std.TreeMap Nat Tree) (o : Outcome) : Std.TreeMap Nat Tree :=
  match o.result with
  | .ok tree => found.insert o.source.id.number tree
  | .error _ => found

theorem getElem?_collect (found : Std.TreeMap Nat Tree) (o : Outcome) (k : Nat) :
    (collect found o)[k]? = (treeOf? k o).or found[k]? := by
  unfold collect treeOf?
  cases o.result with
  | error failure => simp [Except.toOption]
  | ok tree =>
    rw [Std.TreeMap.getElem?_insert]
    by_cases same : o.source.id.number = k <;> simp [same, Except.toOption]

theorem getElem?_foldl_collect (outcomes : List Outcome) (found : Std.TreeMap Nat Tree) (k : Nat) :
    (outcomes.foldl collect found)[k]? = (treesOf k outcomes).getLast?.or found[k]? := by
  induction outcomes generalizing found with
  | nil => rfl
  | cons o outcomes ih =>
    rw [List.foldl_cons, ih, getElem?_collect]
    unfold treesOf
    rw [List.filterMap_cons]
    cases treeOf? k o with
    | none => rfl
    | some tree =>
      rw [List.getLast?_cons]
      cases (outcomes.filterMap (treeOf? k)).getLast? <;> rfl

/-- Of the trees made for files of one number the last one is kept. -/
theorem getElem?_trees (r : Report) (k : Nat) :
    r.trees[k]? = (treesOf k r.outcomes).getLast? := by
  have folded := getElem?_foldl_collect r.outcomes ∅ k
  rwa [Std.TreeMap.getElem?_emptyc, Option.or_none] at folded

theorem not_mem_collect {found : Std.TreeMap Nat Tree} {o : Outcome} {k : Nat} (unknown : k ∉ found)
    (other : o.source.id.number ≠ k) : k ∉ collect found o := by
  unfold collect
  split
  · rw [Std.TreeMap.mem_insert, not_or]
    exact ⟨by simpa using other, unknown⟩
  · exact unknown

theorem size_collect {found : Std.TreeMap Nat Tree} {o : Outcome}
    (unknown : o.source.id.number ∉ found) :
    (collect found o).size = found.size + if o.isOk then 1 else 0 := by
  unfold collect Outcome.isOk
  cases o.result with
  | error failure => rfl
  | ok tree =>
    rw [Std.TreeMap.size_insert, if_neg (by simpa using unknown)]
    rfl

theorem size_foldl_collect {outcomes : List Outcome} {found : Std.TreeMap Nat Tree}
    (distinct : (outcomes.map (·.source.id.number)).Nodup)
    (new : ∀ o ∈ outcomes, o.source.id.number ∉ found) :
    (outcomes.foldl collect found).size = found.size + outcomes.countP (·.isOk) := by
  induction outcomes generalizing found with
  | nil => rfl
  | cons o outcomes ih =>
    rw [List.map_cons, List.nodup_cons] at distinct
    have later : ∀ o' ∈ outcomes, o'.source.id.number ∉ collect found o := by
      intro o' member
      apply not_mem_collect (new o' (.tail o member))
      intro same
      exact distinct.1 (same ▸ List.mem_map_of_mem member)
    rw [List.foldl_cons, ih distinct.2 later, size_collect (new o (.head _)), List.countP_cons]
    omega

theorem size_trees {r : Report} (distinct : (r.outcomes.map (·.source.id.number)).Nodup) :
    r.trees.size = r.succeeded := by
  have folded := @size_foldl_collect r.outcomes ∅ distinct fun _ _ => Std.TreeMap.not_mem_emptyc
  rwa [Std.TreeMap.size_emptyc, Nat.zero_add] at folded

theorem treesOf_consecutive {outcomes : List Outcome} {n : Nat}
    (numbered : outcomes.map (·.source.id.number) = List.range' n outcomes.length) (k : Nat) :
    treesOf (n + k) outcomes = (outcomes[k]?.bind (·.result.toOption)).toList := by
  induction outcomes generalizing n k with
  | nil => rfl
  | cons o outcomes ih =>
    rw [List.map_cons, List.length_cons, List.range'_succ, List.cons.injEq] at numbered
    obtain ⟨first, later⟩ := numbered
    cases k with
    | zero =>
      -- All later numbers are larger, so no later tree takes the place of the first.
      have none : treesOf n outcomes = [] := by
        refine List.filterMap_eq_nil_iff.mpr fun o' member => if_neg ?_
        have inside := List.mem_map_of_mem (f := (·.source.id.number)) member
        rw [later, List.mem_range'_1] at inside
        omega
      have here : treeOf? n o = o.result.toOption := if_pos first
      unfold treesOf at none ⊢
      rw [Nat.add_zero, List.filterMap_cons, here, none]
      cases made : o.result.toOption <;> simp [made]
    | succ k =>
      have other : treeOf? (n + (k + 1)) o = none := if_neg (by omega)
      have rest := ih later k
      unfold treesOf at rest ⊢
      rw [Nat.add_right_comm, Nat.add_assoc] at rest
      rw [List.filterMap_cons, other, List.getElem?_cons_succ, ← rest]

end Report

namespace Command

namespace Settings

variable {pool : Pool} (ordered : pool.Ordered) (s : Settings)
include ordered

theorem runOn_eq (batch : Batch) :
    s.runOn pool batch = ⟨batch.files.map (s.outcome batch.disk)⟩ := by
  unfold runOn
  split
  · rfl
  · rw [ordered]

omit ordered in
theorem run_eq (disk : Disk) (files : List SourceFile) :
    s.run disk files = ⟨files.map (s.outcome disk)⟩ :=
  s.runOn_eq Pool.ordered_inTurn ⟨disk, files⟩

theorem runOn_eq_run (batch : Batch) : s.runOn pool batch = s.run batch.disk batch.files :=
  (s.runOn_eq ordered batch).trans (s.run_eq batch.disk batch.files).symm

theorem runAll_eq_map_run (batches : List Batch) :
    s.runAll pool batches = batches.map fun batch => s.run batch.disk batch.files :=
  List.map_congr_left fun batch _ => s.runOn_eq_run ordered batch

omit ordered

theorem outcome_eq_completed (disk : Disk) (file : SourceFile) :
    s.outcome disk file = completed disk file s.isStrict s.keepsTokens := rfl

theorem source_outcome (disk : Disk) (file : SourceFile) : (s.outcome disk file).source = file :=
  source_process disk s.isStrict file

theorem outcomes_run (disk : Disk) (files : List SourceFile) :
    (s.run disk files).outcomes = files.map (s.outcome disk) := by
  rw [run_eq]

theorem sources_run (disk : Disk) (files : List SourceFile) :
    (s.run disk files).outcomes.map (·.source) = files := by
  simp only [outcomes_run, List.map_map, Function.comp_def, source_outcome, List.map_id']

theorem outcome_congr {s s' : Settings} (strict : s.isStrict = s'.isStrict)
    (tokens : s.keepsTokens = s'.keepsTokens) {disk disk' : Disk} {file : SourceFile}
    (read : scanSource disk file = scanSource disk' file) :
    s.outcome disk file = s'.outcome disk' file := by
  have same : process disk s'.isStrict file = process disk' s'.isStrict file := by
    simp only [process, read]
  rw [outcome_eq_completed, outcome_eq_completed, strict, tokens]
  unfold completed Pipeline.complete
  dsimp only
  rw [same]

theorem file_of_trees {disk : Disk} {files : List SourceFile} {k : Nat} {tree : Tree}
    (found : (s.run disk files).trees[k]? = some tree) : tree.file = ⟨k⟩ := by
  rw [Report.getElem?_trees, outcomes_run] at found
  obtain ⟨o, member, made⟩ := List.mem_filterMap.mp (List.mem_of_getLast? found)
  obtain ⟨file, _, rfl⟩ := List.mem_map.mp member
  unfold Report.treeOf? at made
  rw [source_outcome] at made
  split at made
  · next number =>
    have accepted : (process disk s.isStrict file).result = .ok tree := by
      rw [outcome_eq_completed, result_completed] at made
      cases result : (process disk s.isStrict file).result with
      | error failure => simp [result, Except.toOption] at made
      | ok tree' => simpa [result, Except.toOption] using made
    rw [file_of_accepted accepted, ← number]
  · cases made

end Settings

def accepts (name : String) : Bool := (checkExtension name).isOk

theorem files_acceptFrom (count : Nat) (names : List String) :
    (acceptFrom count names).files = ((names.filter accepts).zipIdx count).map fun (name, k) =>
      .ofPath ⟨min k lastFileNumber⟩ name := by
  induction names generalizing count with
  | nil => rfl
  | cons name names ih =>
    unfold acceptFrom
    rw [List.filter_cons]
    cases checked : checkExtension name with
    | ok accepted =>
      have named : accepts name = true := by simp [accepts, checked, Except.isOk, Except.toBool]
      rw [if_pos named, List.zipIdx_cons, List.map_cons, ← ih]
    | error e =>
      have refused : accepts name = false := by simp [accepts, checked, Except.isOk, Except.toBool]
      rw [if_neg (by simp [refused]), ← ih]

section

variable {names : List String} (few : names.length < 0x100000000) (s : Settings) (disk : Disk)
include few

theorem files_ofNames :
    (Selection.ofNames names).files =
      (names.filter accepts).zipIdx.map fun (name, k) => .ofPath ⟨k⟩ name := by
  rw [Selection.ofNames, files_acceptFrom]
  apply List.map_congr_left
  rintro ⟨name, k⟩ member
  have place := (List.mem_zipIdx member).2.1
  have fewer := List.length_filter_le accepts names
  have number : min k lastFileNumber = k := by
    unfold lastFileNumber
    omega
  simp only [number]

theorem numbers_ofNames :
    (s.run disk (Selection.ofNames names).files).outcomes.map (·.source.id.number) =
      List.range' 0 (s.run disk (Selection.ofNames names).files).outcomes.length := by
  have sources := s.sources_run disk (Selection.ofNames names).files
  calc (s.run disk (Selection.ofNames names).files).outcomes.map (·.source.id.number)
    _ = (Selection.ofNames names).files.map (·.id.number) := by
      rw [← congrArg (List.map (·.id.number)) sources, List.map_map]
      rfl
    _ = (names.filter accepts).zipIdx.map Prod.snd := by
      rw [files_ofNames few, List.map_map]
      rfl
    _ = List.range' 0 (Selection.ofNames names).files.length := by
      rw [List.zipIdx_map_snd, files_ofNames few, List.length_map, List.length_zipIdx]
    _ = _ := by rw [Settings.outcomes_run, List.length_map]

theorem getElem?_trees_ofNames (k : Nat) :
    (s.run disk (Selection.ofNames names).files).trees[k]? =
      (names.filter accepts)[k]?.bind fun name =>
        (s.outcome disk (.ofPath ⟨k⟩ name)).result.toOption := by
  have made := Report.treesOf_consecutive (numbers_ofNames few s disk) k
  rw [Nat.zero_add] at made
  rw [Report.getElem?_trees, made, Settings.outcomes_run, files_ofNames few, List.getElem?_map,
    List.getElem?_map, List.getElem?_zipIdx]
  cases (names.filter accepts)[k]? with
  | none => rfl
  | some name =>
    simp only [Option.map_some, Option.bind_some, Nat.zero_add]
    cases (s.outcome disk (.ofPath ⟨k⟩ name)).result.toOption <;> rfl

theorem size_trees_ofNames :
    (s.run disk (Selection.ofNames names).files).trees.size =
      (s.run disk (Selection.ofNames names).files).succeeded := by
  apply Report.size_trees
  rw [numbers_ofNames few]
  exact List.nodup_range'

end

namespace Pool

/-- The worker that has file `i` is ready and fills the slot of that file. -/
def finish (f : SourceFile → Outcome) (files : List SourceFile) (slots : List (Option Outcome))
    (i : Nat) : List (Option Outcome) :=
  slots.set i (files[i]?.map f)

def slots (schedule : Option Jobs → Nat → List Nat) : Pool := fun jobs f files =>
  ((schedule jobs files.length).foldl (finish f files)
    (List.replicate files.length none)).filterMap id

variable {f : SourceFile → Outcome} {files : List SourceFile}

theorem getElem?_foldl_finish {slots : List (Option Outcome)} (length : slots.length = files.length)
    (order : List Nat) (j : Nat) :
    (order.foldl (finish f files) slots)[j]? =
      if j ∈ order ∧ j < files.length then some (files[j]?.map f) else slots[j]? := by
  induction order generalizing slots with
  | nil => simp
  | cons i order ih =>
    have kept : (finish f files slots i).length = files.length := by
      rw [finish, List.length_set, length]
    rw [List.foldl_cons, ih kept, finish, List.getElem?_set, length]
    by_cases later : j ∈ order ∧ j < files.length
    · rw [if_pos later, if_pos ⟨.tail i later.1, later.2⟩]
    · rw [if_neg later]
      by_cases same : i = j
      · subst same
        by_cases inside : i < files.length
        · simp [inside]
        · simp [inside, length]
      · have other : ¬ (j ∈ i :: order ∧ j < files.length) := by
          simpa [Ne.symm same] using later
        rw [if_neg same, if_neg other]

/-- If every worker gets ready at last, it does not matter in which order. -/
theorem ordered_slots {schedule : Option Jobs → Nat → List Nat}
    (all : ∀ jobs n, ∀ i < n, i ∈ schedule jobs n) : (slots schedule).Ordered := by
  intro jobs f files
  have filled : (schedule jobs files.length).foldl (finish f files)
      (List.replicate files.length none) = files.map (some ∘ f) := by
    apply List.ext_getElem?
    intro j
    rw [getElem?_foldl_finish List.length_replicate, List.getElem?_map]
    by_cases inside : j < files.length
    · rw [if_pos ⟨all jobs _ j inside, inside⟩, List.getElem?_eq_getElem inside]
      rfl
    · simp [inside]
  rw [slots, filled, List.filterMap_map]
  exact congrFun List.filterMap_eq_map files

end Pool

/-- The file at place `i` of batch `b`, and the disk that it is read from. -/
def fileAt? (batches : List Batch) (b i : Nat) : Option (Disk × SourceFile) :=
  batches[b]?.bind fun batch => batch.files[i]?.map (batch.disk, ·)

def outcomeAt? (reports : List Report) (b i : Nat) : Option Outcome :=
  reports[b]?.bind (·.outcomes[i]?)

theorem outcomeAt?_runAll {pool : Pool} (ordered : pool.Ordered) (s : Settings)
    (batches : List Batch) (b i : Nat) :
    outcomeAt? (s.runAll pool batches) b i =
      (fileAt? batches b i).map fun (disk, file) => s.outcome disk file := by
  unfold outcomeAt? fileAt?
  rw [s.runAll_eq_map_run ordered, List.getElem?_map]
  cases batches[b]? with
  | none => rfl
  | some batch =>
    simp only [Option.map_some, Option.bind_some, Settings.outcomes_run, List.getElem?_map,
      Option.map_map]
    rfl

/-- What is said of batches that run one after the other under the flags of `s`. -/
structure Isolated (pool : Pool) (s : Settings) (batches : List Batch) : Prop where
  sources : (s.runAll pool batches).map (·.outcomes.map (·.source)) = batches.map (·.files)
  /-- A file that reads the same has the same outcome in other company, at another place, with
  other workers and before or after other batches, if two of the flags are the same. -/
  alone : ∀ (pool' : Pool) (s' : Settings) (batches' : List Batch), pool'.Ordered →
    s.isStrict = s'.isStrict → s.keepsTokens = s'.keepsTokens →
    ∀ b i b' i' disk disk' file, fileAt? batches b i = some (disk, file) →
      fileAt? batches' b' i' = some (disk', file) →
      scanSource disk file = scanSource disk' file →
      ∃ o, outcomeAt? (s.runAll pool batches) b i = some o ∧
        outcomeAt? (s'.runAll pool' batches') b' i' = some o
  /-- Under each number there is the last tree that was made for it, and no other. -/
  trees : ∀ report ∈ s.runAll pool batches, ∀ k : Nat,
    report.trees[k]? = (Report.treesOf k report.outcomes).getLast?
  labels : ∀ report ∈ s.runAll pool batches, ∀ (k : Nat) (tree : Tree),
    report.trees[k]? = some tree → tree.file = ⟨k⟩

theorem isolated {pool : Pool} (ordered : pool.Ordered) (s : Settings) (batches : List Batch) :
    Isolated pool s batches where
  sources := by
    rw [s.runAll_eq_map_run ordered, List.map_map]
    exact List.map_congr_left fun batch _ => s.sources_run batch.disk batch.files
  alone := by
    intro pool' s' batches' ordered' strict tokens b i b' i' disk disk' file here there read
    refine ⟨s.outcome disk file, ?_, ?_⟩
    · rw [outcomeAt?_runAll ordered, here, Option.map_some]
    · rw [outcomeAt?_runAll ordered', there, Option.map_some,
        Settings.outcome_congr strict tokens read]
  trees report _ k := report.getElem?_trees k
  labels := by
    intro report member k tree found
    rw [s.runAll_eq_map_run ordered] at member
    obtain ⟨batch, _, rfl⟩ := List.mem_map.mp member
    exact s.file_of_trees found

/-- Batches that run one after the other do not see each other, nor do the files of one batch, and
no tree is lost or mislabelled. If the files come from fewer names than there are numbers, every
success has a tree of its own, and the tree of number `k` is that of the accepted name at place
`k`. -/
theorem batches_isolated {pool : Pool} (ordered : pool.Ordered) (s : Settings) :
    (∀ batches, Isolated pool s batches) ∧
    ∀ (disk : Disk) (names : List String), names.length < 0x100000000 →
      let report := s.runOn pool ⟨disk, (Selection.ofNames names).files⟩
      report.trees.size = report.succeeded ∧
      ∀ k : Nat, report.trees[k]? = (names.filter accepts)[k]?.bind fun name =>
        (s.outcome disk (.ofPath ⟨k⟩ name)).result.toOption := by
  refine ⟨isolated ordered s, fun disk names few => ?_⟩
  rw [s.runOn_eq_run ordered]
  exact ⟨size_trees_ofNames few s disk, getElem?_trees_ofNames few s disk⟩

def backwards : Pool := .slots fun _ n => (List.range n).reverse

/-- Two files of one number, of which the second fails, and a third. -/
def crowdedBatch : Batch where
  disk path := if path = "b.ry" then .ok "int b;".toUTF8 else .error .missing
  files := [.ofText ⟨0⟩ "a.ch" "int a;", .ofText ⟨0⟩ "a.ch" "int a = ;", .ofPath ⟨1⟩ "b.ry"]

theorem batches_isolated_backwards :
    backwards.Ordered ∧ Isolated backwards {} [crowdedBatch, crowdedBatch] ∧
      ["a.ch", "notes.txt", "b.ry"].filter accepts = ["a.ch", "b.ry"] ∧
      let report := Settings.runOn backwards {}
        ⟨crowdedBatch.disk, (Selection.ofNames ["a.ch", "notes.txt", "b.ry"]).files⟩
      report.trees.size = report.succeeded ∧
      report.trees[1]? =
        (Settings.outcome {} crowdedBatch.disk (.ofPath ⟨1⟩ "b.ry")).result.toOption := by
  have ordered : backwards.Ordered := by
    apply Pool.ordered_slots
    intro jobs n i inside
    simpa using inside
  have isolated := batches_isolated ordered {}
  have accepted : ["a.ch", "notes.txt", "b.ry"].filter accepts = ["a.ch", "b.ry"] := by decide
  obtain ⟨size, trees⟩ := isolated.2 crowdedBatch.disk ["a.ch", "notes.txt", "b.ry"] (by decide)
  refine ⟨ordered, isolated.1 _, accepted, size, ?_⟩
  rw [trees, accepted]
  rfl

end Command

end CherryLang
