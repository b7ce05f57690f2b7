import CherryLang.Proofs.Soundness.File

/-! How high the tree of an accepted file may be. The limit of nesting bounds the levels that are
open at a time, not the height: the levels of a chain are left before an operator behind it enters
its own, and the chain is then the operand of that. So a tree can be higher than the limit, but no
higher than its square. -/
namespace CherryLang.Syntax

theorem height_le_of_parse {tokens : List Token} {tree : Tree} (parsed : parse tokens = .ok tree) :
    tree.height ≤ nestingLimit * nestingLimit := by
  obtain ⟨s, run⟩ := fileRule_of_parse parsed
  obtain ⟨ts, _, _, is, ds, same, _, low⟩ := (takes_fileRule _ #[] #[] tokens 0).of_run run
  obtain ⟨_, rfl⟩ : is = tree.imports ∧ ds = tree.items := by simpa using same.symm
  exact low

/-- `int x = a.b.b` and so on, with one suffix less than the limit, and behind them `+c;`. -/
def towerTokens : List Token :=
  [marked (.primitive .int) "int" 1 1, marked .identifier "x" 1 5,
    marked (.symbol .assign) "=" 1 7, marked .identifier "a" 1 9] ++
  (List.range (nestingLimit - 1)).flatMap (fun n =>
    [marked (.symbol .dot) "." 1 (2 * n + 10), marked .identifier "b" 1 (2 * n + 11)]) ++
  [marked (.symbol .plus) "+" 1 (2 * nestingLimit + 8),
    marked .identifier "c" 1 (2 * nestingLimit + 9),
    marked (.symbol .semicolon) ";" 1 (2 * nestingLimit + 10)]

theorem height_towerTokens :
    (parse towerTokens).toOption.map Tree.height = some (nestingLimit + 1) := by
  decide +kernel

theorem exists_parse_towerTokens :
    ∃ tree, parse towerTokens = .ok tree ∧ tree.height = nestingLimit + 1 := by
  have height := height_towerTokens
  cases parsed : parse towerTokens with
  | error e => simp [parsed, Except.toOption] at height
  | ok tree => exact ⟨tree, rfl, by simpa [parsed, Except.toOption] using height⟩

/-- The limit itself is no bound. -/
theorem not_height_le_nestingLimit :
    ¬ ∀ tokens tree, parse tokens = .ok tree → tree.height ≤ nestingLimit := by
  intro bounded
  obtain ⟨tree, parsed, height⟩ := exists_parse_towerTokens
  have := bounded towerTokens tree parsed
  omega

theorem exists_height_between :
    ∃ tree, parse towerTokens = .ok tree ∧ nestingLimit < tree.height ∧
      tree.height ≤ nestingLimit * nestingLimit := by
  obtain ⟨tree, parsed, height⟩ := exists_parse_towerTokens
  exact ⟨tree, parsed, by omega, height_le_of_parse parsed⟩

end CherryLang.Syntax
