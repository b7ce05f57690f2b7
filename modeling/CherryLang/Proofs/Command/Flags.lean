import CherryLang.Command.FlagSet

/-! Flag arguments do not see each other: each raises the flags and has the faults that it would
have alone. -/
namespace CherryLang.Command

namespace FlagSet

/-- Raised in one set or in the other; of two worker counts the later counts. -/
def join (flags later : FlagSet) : FlagSet where
  isRaised flag := flags.isRaised flag || later.isRaised flag
  jobs := later.jobs.or flags.jobs

theorem join_assoc (a b c : FlagSet) : (a.join b).join c = a.join (b.join c) := by
  simp [join, Bool.or_assoc, Option.or_assoc]

@[simp] theorem join_empty (flags : FlagSet) : flags.join {} = flags := by
  simp [join]

@[simp] theorem empty_join (flags : FlagSet) : join {} flags = flags := by
  simp [join]

theorem raise_eq_join (flags : FlagSet) (flag : Flag) :
    flags.raise flag = flags.join (raise {} flag) := by
  simp [raise, join, Bool.or_comm]

theorem raiseWith_eq_join (flags : FlagSet) (flag : Flag) (value : Option String) :
    flags.raiseWith flag value = (raiseWith {} flag value).map flags.join := by
  cases takes : flag.takesValue with
  | false => cases value <;> simp [raiseWith, takes, Except.map, raise_eq_join flags]
  | true =>
    cases value with
    | none => simp [raiseWith, takes, Except.map]
    | some value =>
      cases read : readJobs value <;>
        simp [raiseWith, takes, read, Except.map, raise, join, Bool.or_comm]

/-- What was done from no flags, done from `flags`. -/
def behind (flags : FlagSet) (done : FlagSet × List Error) : FlagSet × List Error :=
  (flags.join done.1, done.2)

theorem raiseLong_eq_behind (flags : FlagSet) (text : List Char) :
    flags.raiseLong text = flags.behind (raiseLong {} text) := by
  unfold raiseLong behind
  cases known : Flag.ofLong? (String.ofList (splitValue text).1) with
  | none => simp [known]
  | some flag =>
    simp only [known, raiseWith_eq_join flags]
    cases raiseWith {} flag ((splitValue text).2.map String.ofList) <;> simp [Except.map]

/-- The induction is on the group, where a flag without a value leaves the rest to a larger set. -/
theorem raiseShort_eq_behind (flags : FlagSet) (group : List Char) :
    flags.raiseShort group = flags.behind (raiseShort {} group) := by
  induction group generalizing flags with
  | nil => simp [raiseShort, behind]
  | cons c rest ih =>
    unfold raiseShort
    cases Flag.ofShort? c with
    | none => simp [behind]
    | some flag =>
      dsimp only
      rw [raiseWith_eq_join]
      cases raiseWith {} flag _ with
      | error e => simp [behind, Except.map]
      | ok raised =>
        cases flag.takesValue with
        | true => simp [behind, Except.map]
        | false => simp [Except.map, ih (flags.join raised), ih raised, behind, join_assoc]

theorem raiseArg_eq_behind (flags : FlagSet) (arg : String) :
    flags.raiseArg arg = flags.behind (raiseArg {} arg) := by
  unfold raiseArg
  split
  · exact raiseLong_eq_behind ..
  · exact raiseShort_eq_behind ..
  · simp [behind]

end FlagSet

def raised (arg : String) : FlagSet := (FlagSet.raiseArg {} arg).1

def faults (arg : String) : List Error := (FlagSet.raiseArg {} arg).2

namespace FlagSet

theorem raiseArg_eq (flags : FlagSet) (arg : String) :
    flags.raiseArg arg = (flags.join (raised arg), faults arg) := raiseArg_eq_behind flags arg

def raisedBy (args : List String) : FlagSet :=
  args.foldr (fun arg later => (raised arg).join later) {}

theorem raiseArgs_eq (flags : FlagSet) (args : List String) :
    flags.raiseArgs args = (flags.join (raisedBy args), args.flatMap faults) := by
  induction args generalizing flags with
  | nil => simp [raiseArgs, raisedBy]
  | cons arg args ih => simp [raiseArgs, raiseArg_eq, ih, raisedBy, join_assoc]

theorem isRaised_raisedBy (args : List String) (flag : Flag) :
    (raisedBy args).isRaised flag = args.any fun arg => (raised arg).isRaised flag := by
  induction args with
  | nil => rfl
  | cons arg args ih =>
    rw [List.any_cons, ← ih]
    rfl

def conflicts (flags : FlagSet) : List Error :=
  if flags.isRaised .verbose && flags.isRaised .quiet then [.conflict .verbose .quiet] else []

theorem ofArgs_eq (args : List String) :
    ofArgs args = (raisedBy args, args.flatMap faults ++ (raisedBy args).conflicts) := by
  simp only [ofArgs, raiseArgs_eq, empty_join, conflicts]
  split <;> simp

theorem isRaised_raiseWith {flag : Flag} {value : Option String} {flags : FlagSet}
    (ok : raiseWith {} flag value = .ok flags) (other : Flag) :
    flags.isRaised other = (other == flag) := by
  unfold raiseWith at ok
  split at ok
  · cases ok
  · cases ok
  · cases ok
    simp [raise]
  · split at ok
    · cases ok
    · cases ok
      simp [raise]

theorem splitValue_eq_none {text name : List Char} (split : splitValue text = (name, none)) :
    name = text := by
  induction text generalizing name with
  | nil => simpa [splitValue] using split.symm
  | cons c text ih =>
    by_cases equals : c = '='
    · simp [splitValue, equals] at split
    · simp only [splitValue, equals, if_false, Prod.mk.injEq] at split
      rw [← split.1]
      exact congrArg (c :: ·) (ih (Prod.ext rfl split.2))

theorem raiseLong_isRaised {flag : Flag} (valueless : flag.takesValue = false) {text : List Char}
    (up : (raiseLong {} text).1.isRaised flag = true) : String.ofList text = flag.long := by
  unfold raiseLong at up
  split at up
  next name value split =>
  split at up
  · cases up
  · next found known =>
    split at up
    · cases up
    · next raised ok =>
      have same : flag = found := by simpa [isRaised_raiseWith ok] using up
      subst same
      have bare : value = none := by
        cases value with
        | none => rfl
        | some value => simp [raiseWith, valueless] at ok
      subst bare
      have named := List.find?_some known
      rw [← splitValue_eq_none split]
      exact (eq_of_beq named).symm

theorem raiseShort_isRaised {flag : Flag} (long : flag.short? = none) (group : List Char) :
    (raiseShort {} group).1.isRaised flag = false := by
  induction group with
  | nil => rfl
  | cons c rest ih =>
    unfold raiseShort
    split
    · rfl
    · next found known =>
      have other : flag ≠ found := by
        rintro rfl
        have short := List.find?_some known
        simp [long] at short
      dsimp only
      split
      · rfl
      · next raised ok =>
        have down : raised.isRaised flag = false := by
          simpa [isRaised_raiseWith ok] using other
        split
        · exact down
        · rw [raiseShort_eq_behind]
          simp [behind, join, down, ih]

theorem isRaised_raised_iff {flag : Flag} (long : flag.short? = none) (arg : String) :
    (raised arg).isRaised flag = true ↔ arg = flag.text := by
  constructor
  · intro up
    unfold raised raiseArg at up
    split at up
    · next text spelled =>
      have valueless : flag.takesValue = false := by cases flag <;> first | rfl | cases long
      have named := raiseLong_isRaised valueless up
      apply String.toList_injective
      simp [spelled, Flag.text, ← named]
    · rw [raiseShort_isRaised long] at up
      cases up
    · cases up
  · rintro rfl
    cases flag <;> first | rfl | cases long

end FlagSet

end CherryLang.Command
