import CherryLang.Proofs.Nesting.Rules

/-! Rules without fuel. The calls of rules that recurse are equations between them, in which there
is no fuel. If a call has a need that the calls in it fall short of, then the equations have one
solution, and the rules with fuel give it wherever the fuel covers the need: no run is cut short.

For a loop the need counts the tokens ahead, as every turn takes one. -/
namespace CherryLang.Syntax

/-- Rules that call each other: what a call does if the calls in it do as given, and what it does
with so much fuel. -/
structure Recursion where
  Call : Type
  Answer : Call → Type
  body : ((call : Call) → Rule (Answer call)) → (call : Call) → Rule (Answer call)
  rule : Nat → (call : Call) → Rule (Answer call)

namespace Recursion

abbrev Rules (r : Recursion) : Type := (call : r.Call) → Rule (r.Answer call)

variable {r : Recursion} {need : r.Call → State → Nat}

/-- Within the limit, these rules do what the bodies say if they call these rules. -/
def Solves (r : Recursion) (rules : r.Rules) : Prop :=
  ∀ call (s : State), s.depth ≤ nestingLimit → rules call s = r.body rules call s

/-- Within the limit, both do the same for calls that need no more than `fuel`. -/
def Agree (r : Recursion) (need : r.Call → State → Nat) (fuel : Nat) (rules rules' : r.Rules) :
    Prop :=
  ∀ call (s : State), s.depth ≤ nestingLimit → need call s ≤ fuel → rules call s = rules' call s

/-- With more fuel, each call in a body has fuel enough if the body has. -/
structure Falls (r : Recursion) (need : r.Call → State → Nat) : Prop where
  succ (fuel : Nat) : r.rule (fuel + 1) = r.body (r.rule fuel)
  pos (call : r.Call) (s : State) : 0 < need call s
  step {fuel : Nat} {rules : r.Rules} (agree : r.Agree need fuel (r.rule fuel) rules) :
    r.Agree need (fuel + 1) (r.body (r.rule fuel)) (r.body rules)

/-- The equations have a solution, and every solution does what the rules with fuel do, if that is
no less than `given`. -/
structure Ends (r : Recursion) (given : r.Call → State → Nat) : Prop where
  solution : ∃ rules, r.Solves rules
  agree {rules : r.Rules} (solves : r.Solves rules) (fuel : Nat) :
    r.Agree given fuel (r.rule fuel) rules

theorem Falls.agree_zero (falls : r.Falls need) {rules rules' : r.Rules} :
    r.Agree need 0 rules rules' :=
  fun call s _ enough => absurd enough (Nat.not_le.mpr (falls.pos call s))

theorem Falls.agree (falls : r.Falls need) {rules : r.Rules} (solves : r.Solves rules)
    (fuel : Nat) : r.Agree need fuel (r.rule fuel) rules := by
  induction fuel with
  | zero => exact falls.agree_zero
  | succ fuel ih =>
    intro call s within enough
    rw [falls.succ, solves call s within]
    exact falls.step ih call s within enough

theorem Falls.agree_succ (falls : r.Falls need) (fuel : Nat) :
    r.Agree need fuel (r.rule fuel) (r.rule (fuel + 1)) := by
  induction fuel with
  | zero => exact falls.agree_zero
  | succ fuel ih =>
    have further := falls.step ih
    rwa [← falls.succ, ← falls.succ] at further

/-- More fuel than needed changes nothing. -/
theorem Falls.rule_eq (falls : r.Falls need) {fuel : Nat} {call : r.Call} {s : State}
    (within : s.depth ≤ nestingLimit) (enough : need call s ≤ fuel) :
    r.rule fuel call s = r.rule (need call s) call s := by
  induction enough with
  | refl => rfl
  | @step fuel enough ih => exact (falls.agree_succ fuel call s within enough).symm.trans ih

theorem Falls.solution (falls : r.Falls need) : ∃ rules, r.Solves rules := by
  -- Each call with the fuel that it needs from the state where it is made.
  let rules : r.Rules := fun call s => r.rule (need call s) call s
  refine ⟨rules, fun call s within => ?_⟩
  have agree : r.Agree need (need call s) (r.rule (need call s)) rules :=
    fun call s' within enough => falls.rule_eq within enough
  rw [← falls.step agree call s within (Nat.le_succ _), ← falls.succ]
  exact (falls.rule_eq within (Nat.le_succ _)).symm

theorem Falls.ends (falls : r.Falls need) {given : r.Call → State → Nat}
    (enough : ∀ call s, need call s ≤ given call s) : r.Ends given where
  solution := falls.solution
  agree solves fuel call s within given :=
    falls.agree solves fuel call s within (Nat.le_trans (enough call s) given)

end Recursion

section

variable {α β : Type} {rule : Rule α} {next next' : α → Rule β} {s : State}

theorem bind_eq_of_run (further : ∀ a s', rule s = .ok (a, s') → next a s' = next' a s') :
    (rule >>= next) s = (rule >>= next') s := by
  simp only [Bind.bind, StateT.bind, Except.bind]
  cases ended : rule s with
  | error e => rfl
  | ok result => exact further _ _ ended

theorem Steady.within (steady : Steady rule) {a : α} {s' : State} (within : s.depth ≤ nestingLimit)
    (run : rule s = .ok (a, s')) : s'.depth ≤ nestingLimit := by
  have here : s.Between 0 := ⟨Nat.zero_le _, within⟩
  exact ((steady 0 s here).between here run).high

/-- Turns that a loop can make from here, and the one that finds its end. -/
def turns (s : State) : Nat := (beforeEnd s.rest).length + 1

theorem turns_le_length (s : State) : turns s ≤ s.rest.length + 1 :=
  Nat.succ_le_succ (length_beforeEnd_le s.rest)

theorem turns_le_of_shrinks (shrinks : Shrinks rule) {a : α} {s' : State} {fuel : Nat}
    (run : rule s = .ok (a, s')) (enough : turns s ≤ fuel + 1) : turns s' ≤ fuel := by
  have fewer := shrinks s a s' run
  unfold turns at *
  omega

theorem turns_le_of_eat {kind : Kind} {found : Bool} {s' : State}
    (run : eat kind s = .ok (found, s')) : turns s' ≤ turns s := by
  have fewer := length_eat run
  unfold turns
  omega

def closeLoop (close : Kind) (rule : Rule α) : Recursion where
  Call := Array α
  Answer _ := List α
  body loop found := do
    match ← peekKind? with
    | none => unexpected (.token close)
    | some kind =>
      if kind = close then
        advance
        return found.toList
      else
        let a ← rule
        loop (found.push a)
  rule bound found := untilClose close rule bound found

theorem closeLoop_falls (close : Kind) (steady : Steady rule) (shrinks : Shrinks rule) :
    (closeLoop close rule).Falls fun _ => turns := by
  refine ⟨fun _ => rfl, fun _ _ => Nat.succ_pos _, ?_⟩
  intro fuel loop agree found s within enough
  refine bind_eq_of_run fun kind? t looked => ?_
  cases looked
  cases (ahead? s.rest).map (·.kind) with
  | none => rfl
  | some kind =>
    dsimp only
    split
    · rfl
    · refine bind_eq_of_run fun a t run => ?_
      exact agree _ t (steady.within within run) (turns_le_of_shrinks shrinks run enough)

def commaLoop (rule : Rule α) : Recursion where
  Call := Array α
  Answer _ := List α
  body loop found := do
    let a ← rule
    if ← eat (.symbol .comma) then loop (found.push a)
    else
      let _ ← expect (.symbol .rightParen)
      return (found.push a).toList
  rule bound found := commaList rule bound found

theorem commaLoop_falls (steady : Steady rule) (shrinks : Shrinks rule) :
    (commaLoop rule).Falls fun _ => turns := by
  refine ⟨fun _ => rfl, fun _ _ => Nat.succ_pos _, ?_⟩
  intro fuel loop agree found s within enough
  refine bind_eq_of_run fun a t run => bind_eq_of_run fun more u eaten => ?_
  cases more with
  | false => rfl
  | true =>
    have fewer := turns_le_of_shrinks shrinks run enough
    exact agree _ u ((steady_eat _).within (steady.within within run) eaten)
      (Nat.le_trans (turns_le_of_eat eaten) fewer)

end

def pathLoop : Recursion where
  Call := Array String
  Answer _ := List String
  body loop found := do
    if ← eat (.symbol .dot) then
      let name ← expectName
      loop (found.push name.lexeme)
    else return found.toList
  rule := dottedNames

def pathTurns (s : State) : Nat := (beforeEnd s.rest).length / 2 + 1

theorem pathLoop_falls : pathLoop.Falls fun _ => pathTurns := by
  refine ⟨fun _ => rfl, fun _ _ => Nat.succ_pos _, ?_⟩
  intro fuel loop agree found s within enough
  refine bind_eq_of_run fun more t eaten => ?_
  cases more with
  | false => rfl
  | true =>
    refine bind_eq_of_run fun name u named => ?_
    have dot := length_eat eaten
    have word := shrinks_take _ _ _ _ _ named
    have fewer : pathTurns s ≤ fuel + 1 := enough
    have enough : pathTurns u ≤ fuel := by
      rw [Bool.toNat_true] at dot
      unfold pathTurns at *
      omega
    exact agree _ u (steady_expectName.within ((steady_eat _).within within eaten) named) enough

theorem pathLoop_ends : pathLoop.Ends fun _ s => s.rest.length where
  solution := pathLoop_falls.solution
  agree solves bound found s within given := by
    by_cases ended : beforeEnd s.rest = []
    -- The bound may be zero here, which no need covers; but there is no turn to make either.
    · have once : pathTurns s ≤ 1 := by simp [pathTurns, ended]
      rw [← pathLoop_falls.agree solves 1 found s within once]
      exact (dottedNames_ended ended bound found).trans (dottedNames_ended ended 1 found).symm
    · have some := List.length_pos_iff.mpr ended
      have fewer := length_beforeEnd_le s.rest
      have covered : pathTurns s ≤ s.rest.length := by
        unfold pathTurns
        omega
      exact pathLoop_falls.agree solves bound found s within (Nat.le_trans covered given)

def fileLoop : Recursion where
  Call := Array Import × Array Declaration
  Answer _ := List Import × List Declaration
  body loop found := do
    match ← peekKind? with
    | none => return (found.1.toList, found.2.toList)
    | some kind =>
      if kind = .keyword .kwImport then
        let i ← importDecl
        loop (found.1.push i, found.2)
      else
        let item ← declaration
        loop (found.1, found.2.push item)
  rule bound found := fileRule bound found.1 found.2

theorem fileLoop_falls : fileLoop.Falls fun _ => turns := by
  refine ⟨fun _ => rfl, fun _ _ => Nat.succ_pos _, ?_⟩
  intro fuel loop agree found s within enough
  refine bind_eq_of_run fun kind? t looked => ?_
  cases looked
  cases (ahead? s.rest).map (·.kind) with
  | none => rfl
  | some kind =>
    dsimp only
    split
    · refine bind_eq_of_run fun i t run => ?_
      exact agree _ t (steady_importDecl.within within run)
        (turns_le_of_shrinks shrinks_importDecl run enough)
    · refine bind_eq_of_run fun item t run => ?_
      exact agree _ t (steady_declaration.within within run)
        (turns_le_of_shrinks shrinks_declaration run enough)

end CherryLang.Syntax
