import CherryLang.Proofs.Command.Flags

namespace CherryLang.Command

/-- The one fault that is found on all arguments together. -/
def Error.isConflict : Error → Bool
  | .conflict .. => true
  | _ => false

def plain (errors : List Error) : List Error := errors.filter (!·.isConflict)

/-- What holds of a reader of flag arguments that folds them. -/
structure Folds (intake : List String → FlagSet × List Error) : Prop where
  alone : ∀ arg, (intake [arg]).1 = (FlagSet.raiseArg {} arg).1 ∧
    plain (intake [arg]).2 = (FlagSet.raiseArg {} arg).2
  raised : ∀ before after flag, (intake (before ++ after)).1.isRaised flag =
    ((intake before).1.isRaised flag || (intake after).1.isRaised flag)
  jobs : ∀ before after,
    (intake (before ++ after)).1.jobs = (intake after).1.jobs.or (intake before).1.jobs
  faults : ∀ before after,
    plain (intake (before ++ after)).2 = plain (intake before).2 ++ plain (intake after).2
  fault : ∀ arg, (plain (intake [arg]).2).length ≤ 1
  conflict : ∀ args, (intake args).2 = plain (intake args).2 ++
    if (intake args).1.isRaised .verbose ∧ (intake args).1.isRaised .quiet then
      [.conflict .verbose .quiet] else []
  counted : ∀ args, (intake args).1.jobs.isSome = (intake args).1.isRaised .jobs
  /-- A faulty long flag raises nothing. -/
  long : ∀ before after name, (intake ["--" ++ name]).2 ≠ [] →
    (intake (before ++ ("--" ++ name) :: after)).1 = (intake (before ++ after)).1
  /-- A group may be parted behind flags without a value. -/
  group : ∀ before after front back, front ≠ "" → (∀ c ∈ front.toList, c = 'v' ∨ c = 'q') →
    back ≠ "" → back.toList.head? ≠ some '-' →
    intake (before ++ ("-" ++ front ++ back) :: after) =
      intake (before ++ ("-" ++ front) :: ("-" ++ back) :: after)

namespace FlagSet

/-- A worker count is there iff its flag is raised. -/
def Counted (flags : FlagSet) : Prop := flags.jobs.isSome = flags.isRaised .jobs

theorem counted_empty : Counted {} := rfl

theorem Counted.join {flags later : FlagSet} (first : flags.Counted) (second : later.Counted) :
    (flags.join later).Counted := by
  unfold Counted FlagSet.join at *
  rw [Option.isSome_or, first, second, Bool.or_comm]

/-- What an argument does to flags raised before it. -/
structure Takes (flags : FlagSet) (answer : FlagSet × List Error) : Prop where
  fault : answer.2 = [] ∨ ∃ e, answer.2 = [e] ∧ e.isConflict = false
  counted : flags.Counted → answer.1.Counted

theorem takes_error (flags : FlagSet) {e : Error} (single : e.isConflict = false) :
    flags.Takes (flags, [e]) := ⟨.inr ⟨e, rfl, single⟩, id⟩

theorem isConflict_raiseWith {flags : FlagSet} {flag : Flag} {value : Option String} {e : Error}
    (faulty : flags.raiseWith flag value = .error e) : e.isConflict = false := by
  unfold raiseWith at faulty
  split at faulty
  · cases faulty; rfl
  · cases faulty; rfl
  · cases faulty
  · split at faulty
    · cases faulty; rfl
    · cases faulty

theorem Counted.raiseWith {flags raised : FlagSet} {flag : Flag} {value : Option String}
    (counted : flags.Counted) (ok : flags.raiseWith flag value = .ok raised) : raised.Counted := by
  unfold FlagSet.raiseWith at ok
  split at ok
  · cases ok
  · cases ok
  · next valueless =>
    cases ok
    cases flag <;> first | exact counted | cases valueless
  · next takes =>
    split at ok
    · cases ok
    · cases ok
      cases flag <;> first | rfl | cases takes

theorem takes_raiseLong (flags : FlagSet) (text : List Char) :
    flags.Takes (flags.raiseLong text) := by
  unfold raiseLong
  dsimp only
  split
  · exact takes_error flags rfl
  · split
    · next faulty => exact takes_error flags (isConflict_raiseWith faulty)
    · next ok => exact ⟨.inl rfl, fun counted => counted.raiseWith ok⟩

theorem takes_raiseShort (flags : FlagSet) (group : List Char) :
    flags.Takes (flags.raiseShort group) := by
  induction group generalizing flags with
  | nil => exact ⟨.inl rfl, id⟩
  | cons c rest ih =>
    unfold raiseShort
    split
    · exact takes_error flags rfl
    · next flag _ =>
      dsimp only
      split
      · next faulty => exact takes_error flags (isConflict_raiseWith faulty)
      · next raised ok =>
        cases flag.takesValue with
        | true => exact ⟨.inl rfl, fun counted => counted.raiseWith ok⟩
        | false =>
          exact ⟨(ih raised).fault, fun counted => (ih raised).counted (counted.raiseWith ok)⟩

theorem takes_raiseArg (flags : FlagSet) (arg : String) : flags.Takes (flags.raiseArg arg) := by
  unfold raiseArg
  split
  · exact takes_raiseLong flags _
  · exact takes_raiseShort flags _
  · exact takes_error flags rfl

theorem raiseLong_of_faulty {flags : FlagSet} {text : List Char}
    (faulty : (flags.raiseLong text).2 ≠ []) : (flags.raiseLong text).1 = flags := by
  unfold raiseLong at faulty ⊢
  dsimp only at faulty ⊢
  split
  · rfl
  · next known =>
    simp only [known] at faulty
    split
    · rfl
    · next ok => simp [ok] at faulty

theorem conflicts_raiseLong (text : List Char) : (raiseLong {} text).1.conflicts = [] := by
  unfold raiseLong
  dsimp only
  split
  · rfl
  · split
    · rfl
    · next flag _ _ _ ok =>
      unfold conflicts
      rw [isRaised_raiseWith ok, isRaised_raiseWith ok]
      cases flag <;> rfl

theorem raiseShort_append (flags : FlagSet) {front : List Char}
    (valueless : ∀ c ∈ front, c = 'v' ∨ c = 'q') (back : List Char) :
    (flags.raiseShort front).2 = [] ∧
      flags.raiseShort (front ++ back) = (flags.raiseShort front).1.raiseShort back := by
  induction front generalizing flags with
  | nil => exact ⟨rfl, rfl⟩
  | cons c front ih =>
    obtain ⟨letter, letters⟩ := List.forall_mem_cons.mp valueless
    rcases letter with rfl | rfl
    · exact ih (flags.raise .verbose) letters
    · exact ih (flags.raise .quiet) letters

theorem raiseArg_group {flags : FlagSet} {group : String} (filled : group ≠ "")
    (single : group.toList.head? ≠ some '-') :
    flags.raiseArg ("-" ++ group) = flags.raiseShort group.toList := by
  obtain ⟨c, rest, spelled⟩ := List.exists_cons_of_ne_nil (mt String.toList_eq_nil_iff.mp filled)
  have other : c ≠ '-' := by simpa [spelled] using single
  have dashed : ("-" ++ group).toList = '-' :: c :: rest := by simp [spelled]
  unfold raiseArg
  rw [dashed, spelled]
  split
  · next twice =>
    cases twice
    exact absurd rfl other
  · next short =>
    cases short
    rfl
  · next neither => exact absurd rfl (neither c rest)

theorem raiseArg_long (flags : FlagSet) (name : String) :
    flags.raiseArg ("--" ++ name) = flags.raiseLong name.toList := by
  have dashed : ("--" ++ name).toList = '-' :: '-' :: name.toList := by simp
  unfold raiseArg
  rw [dashed]
  rfl

theorem raisedBy_append (before after : List String) :
    raisedBy (before ++ after) = (raisedBy before).join (raisedBy after) := by
  induction before with
  | nil => exact (empty_join _).symm
  | cons arg before ih =>
    change (raised arg).join (raisedBy (before ++ after)) = _
    rw [ih, ← join_assoc]
    rfl

theorem raisedBy_singleton (arg : String) : raisedBy [arg] = raised arg := join_empty _

theorem counted_raisedBy (args : List String) : (raisedBy args).Counted := by
  induction args with
  | nil => exact counted_empty
  | cons arg args ih => exact ((takes_raiseArg {} arg).counted counted_empty).join ih

theorem plain_faults (arg : String) : plain (faults arg) = faults arg := by
  rcases (takes_raiseArg {} arg).fault with none | ⟨e, one, single⟩
  · simp [plain, faults, none]
  · simp [plain, faults, one, single]

theorem plain_conflicts (flags : FlagSet) : plain flags.conflicts = [] := by
  unfold conflicts
  split <;> rfl

theorem plain_ofArgs (args : List String) : plain (ofArgs args).2 = args.flatMap faults := by
  rw [ofArgs_eq]
  have kept : plain (args.flatMap faults) = args.flatMap faults := by
    unfold plain
    rw [List.filter_flatMap]
    exact congrArg args.flatMap (funext plain_faults)
  unfold plain at kept ⊢
  rw [List.filter_append, kept]
  exact (congrArg _ (plain_conflicts _)).trans (List.append_nil _)

theorem raised_of_faulty_long {name : String} (faulty : (ofArgs ["--" ++ name]).2 ≠ []) :
    raised ("--" ++ name) = {} := by
  have single : raised ("--" ++ name) = (raiseLong {} name.toList).1 :=
    congrArg Prod.fst (raiseArg_long {} name)
  have alone : faults ("--" ++ name) = (raiseLong {} name.toList).2 :=
    congrArg Prod.snd (raiseArg_long {} name)
  rw [ofArgs_eq, raisedBy_singleton, List.flatMap_singleton, single, alone, conflicts_raiseLong,
    List.append_nil] at faulty
  rw [single, raiseLong_of_faulty faulty]

theorem ofArgs_congr {middle middle' : List String} (same : raisedBy middle = raisedBy middle')
    (faulty : middle.flatMap faults = middle'.flatMap faults) (before after : List String) :
    ofArgs (before ++ (middle ++ after)) = ofArgs (before ++ (middle' ++ after)) := by
  simp only [ofArgs_eq, raisedBy_append, List.flatMap_append, same, faulty]

theorem head?_ne_dash {front : List Char} (valueless : ∀ c ∈ front, c = 'v' ∨ c = 'q') :
    front.head? ≠ some '-' := by
  intro dash
  rcases valueless '-' (List.mem_of_mem_head? dash) with wrong | wrong <;> cases wrong

theorem raiseArg_parted {front back : String} (first : front ≠ "")
    (valueless : ∀ c ∈ front.toList, c = 'v' ∨ c = 'q') (second : back ≠ "")
    (single : back.toList.head? ≠ some '-') :
    faults ("-" ++ front) = [] ∧ raiseArg {} ("-" ++ front ++ back) =
      (raised ("-" ++ front)).behind (raiseArg {} ("-" ++ back)) := by
  have letter := head?_ne_dash valueless
  have letter' : (front ++ back).toList.head? ≠ some '-' := by
    obtain ⟨c, rest, spelled⟩ :=
      List.exists_cons_of_ne_nil (mt String.toList_eq_nil_iff.mp first)
    simpa [spelled] using letter
  obtain ⟨faultless, parted⟩ := raiseShort_append {} valueless back.toList
  constructor
  · rw [faults, raiseArg_group first letter, faultless]
  · rw [String.append_assoc, raiseArg_group (by simp [first]) letter', String.toList_append, parted,
      raiseArg_group second single, raised, raiseArg_group first letter, ← raiseShort_eq_behind]

theorem ofArgs_group (before after : List String) {front back : String} (first : front ≠ "")
    (valueless : ∀ c ∈ front.toList, c = 'v' ∨ c = 'q') (second : back ≠ "")
    (single : back.toList.head? ≠ some '-') :
    ofArgs (before ++ ("-" ++ front ++ back) :: after) =
      ofArgs (before ++ ("-" ++ front) :: ("-" ++ back) :: after) := by
  obtain ⟨faultless, parted⟩ := raiseArg_parted first valueless second single
  refine @ofArgs_congr [_] [_, _] ?_ ?_ before after
  · change (raised _).join {} = (raised _).join ((raised _).join {})
    rw [join_empty, join_empty]
    exact congrArg Prod.fst parted
  · simp only [List.flatMap_cons, List.flatMap_nil, List.append_nil, faultless, List.nil_append]
    rw [faults, parted]
    rfl

/-- Whatever the arguments are, even empty or faulty ones, they are folded. -/
theorem ofArgs_folds : Folds ofArgs where
  alone arg := by
    rw [plain_ofArgs, ofArgs_eq, raisedBy_singleton, List.flatMap_singleton]
    exact ⟨rfl, rfl⟩
  raised before after flag := by
    simp only [ofArgs_eq, raisedBy_append]
    rfl
  jobs before after := by
    simp only [ofArgs_eq, raisedBy_append]
    rfl
  faults before after := by
    simp only [plain_ofArgs, List.flatMap_append]
  fault arg := by
    rw [plain_ofArgs, List.flatMap_singleton]
    rcases (takes_raiseArg {} arg).fault with none | ⟨e, one, -⟩
    · simp [faults, none]
    · simp [faults, one]
  conflict args := by
    rw [plain_ofArgs, ofArgs_eq]
    simp [conflicts]
  counted args := by
    rw [ofArgs_eq]
    exact counted_raisedBy args
  long before after name faulty := by
    have nothing := raised_of_faulty_long faulty
    simp only [ofArgs_eq, raisedBy_append]
    change (raisedBy before).join ((raised _).join (raisedBy after)) = _
    rw [nothing, empty_join]
  group before after _ _ first valueless second single :=
    ofArgs_group before after first valueless second single

end FlagSet

end CherryLang.Command
