import CherryLang.Proofs.Lexical.Piece

/-! Operators are found one character at a time, without looking back. That this finds the longest
one rests on the table of operators: every beginning of an operator is an operator. The openings of
comments count as operators on the way, and no operator goes on behind them. -/
namespace CherryLang

namespace Symbol

theorem mem_all (s : Symbol) : s ∈ all := by
  cases s <;> decide

theorem symbol?_surface_all : ∀ s ∈ all, Kind.symbol? s.surface = some (.symbol s) := by
  decide +kernel

end Symbol

namespace Lexical

def IsOperator (run : List Char) : Prop := ∃ s : Symbol, s.surface.toList = run

theorem symbol?_eq_some_iff {run : List Char} {kind : Kind} :
    Kind.symbol? (String.ofList run) = some kind ↔
      ∃ s : Symbol, kind = .symbol s ∧ s.surface.toList = run := by
  constructor
  · intro found
    obtain ⟨listed, sort⟩ := Option.filter_eq_some_iff.mp found
    have spelled : kind.surface = String.ofList run := by
      simpa using List.find?_some listed
    cases kind with
    | symbol s => exact ⟨s, rfl, by simp [← String.toList_inj] at spelled; exact spelled⟩
    | identifier | methodIdentifier | endOfStream | undefined => simp [Kind.category] at sort
    | literal _ | primitive _ | modifier _ | keyword _ | math _ => simp [Kind.category] at sort
  · rintro ⟨s, rfl, rfl⟩
    rw [String.ofList_toList]
    exact Symbol.symbol?_surface_all s s.mem_all

/-- What a run of symbols may be on the way: an operator or the opening of a comment. -/
def Known (run : List Char) : Prop := IsOperator run ∨ run = ['/', '/'] ∨ run = ['/', '*']

theorem extendsSymbol_iff {run : List Char} {c : Char} :
    extendsSymbol (String.ofList run) c = true ↔ Known (run ++ [c]) := by
  have text (other : List Char) :
      String.ofList (run ++ [c]) = String.ofList other ↔ run ++ [c] = other := by
    simp [← String.toList_inj]
  have operator : (Kind.symbol? (String.ofList (run ++ [c]))).isSome ↔ IsOperator (run ++ [c]) := by
    rw [Option.isSome_iff_exists]
    constructor
    · rintro ⟨kind, found⟩
      obtain ⟨s, -, spelled⟩ := symbol?_eq_some_iff.mp found
      exact ⟨s, spelled⟩
    · rintro ⟨s, spelled⟩
      exact ⟨.symbol s, symbol?_eq_some_iff.mpr ⟨s, rfl, spelled⟩⟩
  simp only [extendsSymbol, push_ofList, Bool.or_eq_true, beq_iff_eq, operator, Known, or_assoc]
  rw [show "//" = String.ofList ['/', '/'] from rfl, show "/*" = String.ofList ['/', '*'] from rfl,
    text, text]

theorem surfaces_prefix_closed : ∀ s ∈ Symbol.all, ∀ n < s.surface.toList.length,
    Symbol.all.any fun shorter => shorter.surface.toList == s.surface.toList.take (n + 1) := by
  decide +kernel

theorem IsOperator.of_prefix {run longer : List Char} (operator : IsOperator longer)
    (inside : run <+: longer) (started : run ≠ []) : IsOperator run := by
  obtain ⟨s, rfl⟩ := operator
  obtain ⟨n, length⟩ : ∃ n, run.length = n + 1 :=
    ⟨run.length - 1, by have := List.length_pos_iff.mpr started; omega⟩
  have bound := inside.length_le
  have found := surfaces_prefix_closed s s.mem_all n (by omega)
  simp only [List.any_eq_true, beq_iff_eq] at found
  obtain ⟨shorter, -, spelled⟩ := found
  exact ⟨shorter, by rw [spelled, ← length, ← List.prefix_iff_eq_take.mp inside]⟩

theorem Known.of_prefix {run longer : List Char} (known : Known longer) (inside : run <+: longer)
    (started : run ≠ []) : Known run := by
  have comment : ∀ c : Char, longer = ['/', c] → run = ['/'] ∨ run = longer := by
    rintro c rfl
    simp only [List.prefix_cons_iff, List.prefix_nil] at inside
    grind
  have slash : Known ['/'] := .inl ⟨.slash, by decide⟩
  obtain operator | line | block := known
  · exact .inl (operator.of_prefix inside started)
  · obtain rfl | rfl := comment _ line
    · exact slash
    · exact .inr (.inl line)
  · obtain rfl | rfl := comment _ block
    · exact slash
    · exact .inr (.inr block)

theorem keeps_surface : ∀ s ∈ Symbol.all, s.surface.toList.all State.symbol.keeps = true := by
  decide +kernel

theorem Known.keeps {run : List Char} {c : Char} (known : Known run) (member : c ∈ run) :
    State.symbol.keeps c = true := by
  have all : run.all State.symbol.keeps = true := by
    obtain ⟨s, rfl⟩ | rfl | rfl := known
    · exact keeps_surface s s.mem_all
    · decide
    · decide
  exact List.all_eq_true.mp all c member

theorem not_comment_prefix : ∀ s ∈ Symbol.all,
    ¬ ['/', '/'] <+: s.surface.toList ∧ ¬ ['/', '*'] <+: s.surface.toList := by
  decide +kernel

theorem Known.eq_of_comment {opening run : List Char}
    (comment : opening = ['/', '/'] ∨ opening = ['/', '*']) (known : Known run)
    (inside : opening <+: run) : run = opening := by
  obtain ⟨s, rfl⟩ | rfl | rfl := known
  · have apart := not_comment_prefix s s.mem_all
    obtain rfl | rfl := comment
    · exact absurd inside apart.1
    · exact absurd inside apart.2
  · obtain rfl | rfl := comment
    · rfl
    · exact absurd inside (by decide)
  · obtain rfl | rfl := comment
    · exact absurd inside (by decide)
    · rfl

theorem known_append_symbolRun {run : List Char} (rest : List Char) (known : Known run) :
    Known (run ++ symbolRun run rest) := by
  induction rest generalizing run with
  | nil => simpa [symbolRun] using known
  | cons c rest ih =>
    unfold symbolRun
    split
    · next grows =>
      have longer := extendsSymbol_iff.mp (Bool.and_eq_true_iff.mp grows).2
      simpa using ih longer
    · simpa using known

theorem not_known_of_symbolRun {run rest left : List Char} {c : Char}
    (split : rest = symbolRun run rest ++ c :: left) :
    ¬ Known (run ++ symbolRun run rest ++ [c]) := by
  induction rest generalizing run with
  | nil => simp at split
  | cons d rest ih =>
    by_cases grows : State.symbol.keeps d && extendsSymbol (String.ofList run) d
    · simp only [symbolRun, if_pos grows, List.cons_append, List.cons.injEq, true_and] at split ⊢
      simpa using ih split
    · simp only [symbolRun, if_neg grows, List.nil_append, List.cons.injEq, List.append_nil]
        at split ⊢
      obtain ⟨rfl, -⟩ := split
      intro known
      exact grows (Bool.and_eq_true_iff.mpr
        ⟨known.keeps (by simp), extendsSymbol_iff.mpr known⟩)

end Lexical

end CherryLang
