import CherryLang.Scope.Binding
import CherryLang.Proofs.Scope.Uses
import Mathlib.Data.Finset.Card

/-! Following bases. A chain leads from class to class among finitely many, so whatever it meets it
meets within as many steps as there are classes, also when it loops. -/
namespace CherryLang.Scope

section

variable {α : Type} (next : α → Option α)

def iterate : Nat → α → Option α
  | 0, a => some a
  | n + 1, a => (next a).bind (iterate n)

theorem iterate_add (m n : Nat) (a : α) :
    iterate next (m + n) a = (iterate next m a).bind (iterate next n) := by
  induction m generalizing a with
  | zero => simp [iterate]
  | succ m ih =>
    rw [Nat.succ_add]
    simp only [iterate, Option.bind_assoc]
    exact congrArg _ (funext ih)

variable {next}

theorem iterate_succ_mem {values : List α} (closed : ∀ a b, next a = some b → b ∈ values)
    {n : Nat} {a b : α} (leads : iterate next (n + 1) a = some b) : b ∈ values := by
  rw [iterate_add] at leads
  obtain ⟨last, -, step⟩ := Option.bind_eq_some_iff.mp leads
  simp only [iterate, Option.bind_fun_some] at step
  exact closed last b step

/-- Two visits of one value in a chain can be cut out. -/
theorem iterate_shorter {i j n : Nat} {a b : α} (early : i < j) (late : j ≤ n)
    (same : iterate next i a = iterate next j a) (leads : iterate next n a = some b) :
    iterate next (n - (j - i)) a = some b := by
  have split : n - (j - i) = i + (n - j) := by omega
  have whole : n = j + (n - j) := by omega
  rw [split, iterate_add, same, ← iterate_add, ← whole, leads]

theorem iterate_defined {m n : Nat} {a b : α} (before : m ≤ n)
    (leads : iterate next n a = some b) : ∃ c, iterate next m a = some c := by
  have split : n = m + (n - m) := by omega
  rw [split, iterate_add] at leads
  obtain ⟨c, there, -⟩ := Option.bind_eq_some_iff.mp leads
  exact ⟨c, there⟩

/-- Whatever a chain leads to, it leads to in as many steps as there are values. -/
theorem iterate_bounded {values : List α} (closed : ∀ a b, next a = some b → b ∈ values)
    {n : Nat} {a b : α} (leads : iterate next n a = some b) :
    ∃ m ≤ values.length, iterate next m a = some b := by
  induction n using Nat.strongRecOn with
  | ind n ih =>
    by_cases short : n ≤ values.length
    · exact ⟨n, short, leads⟩
    · -- The values behind the steps 1 to n are too many to be all different.
      classical
      have maps : Set.MapsTo (fun i => iterate next (i + 1) a) (Finset.range n)
          ((values.map some).toFinset : Finset (Option α)) := by
        intro i inside
        have before : i < n := by simpa using inside
        obtain ⟨c, there⟩ := iterate_defined before leads
        simpa [there] using iterate_succ_mem closed there
      have fewer : (values.map some).toFinset.card < (Finset.range n).card := by
        have bound := List.toFinset_card_le (values.map some)
        rw [List.length_map] at bound
        rw [Finset.card_range]
        omega
      obtain ⟨i, iIn, j, jIn, different, same⟩ :=
        Finset.exists_ne_map_eq_of_card_lt_of_maps_to fewer maps
      rw [Finset.mem_range] at iIn jIn
      obtain first | first := Nat.lt_or_gt_of_ne different
      · exact ih _ (by omega) (iterate_shorter (Nat.succ_lt_succ first) jIn same leads)
      · exact ih _ (by omega) (iterate_shorter (Nat.succ_lt_succ first) iIn same.symm leads)

end

def parent? (tree : Tree) (decl : ClassDecl) : Option ClassDecl :=
  decl.base.bind (tree.class? ·.text)

def ownMember? (name : String) (decl : ClassDecl) : Option Member :=
  decl.members.find? (·.name == name)

/-- The member called `name` in `decl` and along its bases, in at most `steps` classes. -/
def inherited? (tree : Tree) (name : String) : Nat → ClassDecl → Option Member
  | 0, _ => none
  | steps + 1, decl =>
    (ownMember? name decl).or ((parent? tree decl).bind (inherited? tree name steps))

theorem hasMember_of_inherited? {tree : Tree} {name : String} {steps : Nat} {decl : ClassDecl}
    {member : Member} (found : inherited? tree name steps decl = some member) :
    tree.HasMember name decl member := by
  induction steps generalizing decl with
  | zero => cases found
  | succ steps ih =>
    simp only [inherited?, Option.or_eq_some_iff] at found
    obtain own | ⟨lacks, above⟩ := found
    · exact .own own
    · obtain ⟨parent, climbs, later⟩ := Option.bind_eq_some_iff.mp above
      obtain ⟨base, bases, known⟩ := Option.bind_eq_some_iff.mp climbs
      exact .inherited lacks bases known (ih later)

theorem hasMember_unique {tree : Tree} {name : String} {decl : ClassDecl} {m m' : Member}
    (first : tree.HasMember name decl m) (second : tree.HasMember name decl m') : m = m' := by
  induction first with
  | own own =>
    cases second with
    | own own' => exact Option.some.inj (own.symm.trans own')
    | inherited lacks => simp [own] at lacks
  | inherited lacks bases known _ ih =>
    cases second with
    | own own => simp [own] at lacks
    | inherited _ extends' known' later =>
      cases bases.symm.trans extends'
      cases known.symm.trans known'
      exact ih later

theorem hasMember_reached {tree : Tree} {name : String} {decl : ClassDecl} {member : Member}
    (has : tree.HasMember name decl member) :
    ∃ n owner, iterate (parent? tree) n decl = some owner ∧ (ownMember? name owner).isSome := by
  induction has with
  | @own decl member own => exact ⟨0, decl, rfl, by simp [ownMember?, own]⟩
  | inherited _ bases known _ ih =>
    obtain ⟨n, owner, leads, owns⟩ := ih
    exact ⟨n + 1, owner, by simp [iterate, parent?, bases, known, leads], owns⟩

theorem inherited?_isSome {tree : Tree} {name : String} {n steps : Nat} {decl owner : ClassDecl}
    (leads : iterate (parent? tree) n decl = some owner) (owns : (ownMember? name owner).isSome)
    (enough : n < steps) : (inherited? tree name steps decl).isSome := by
  induction n generalizing decl steps with
  | zero =>
    obtain ⟨steps, rfl⟩ : ∃ m, steps = m + 1 := ⟨steps - 1, by omega⟩
    cases leads
    simp [inherited?, owns]
  | succ n ih =>
    obtain ⟨steps, rfl⟩ : ∃ m, steps = m + 1 := ⟨steps - 1, by omega⟩
    obtain ⟨parent, climbs, later⟩ := Option.bind_eq_some_iff.mp leads
    have above := ih later (Nat.lt_of_succ_lt_succ enough)
    simp [inherited?, climbs, above]

def keepFirst (found : List ClassDecl) (decl : ClassDecl) : List ClassDecl :=
  if found.any (·.name == decl.name) then found else decl :: found

theorem find?_foldl_keepFirst (classes found : List ClassDecl) (name : String) :
    (classes.foldl keepFirst found).reverse.find? (·.name == name) =
      (found.reverse.find? (·.name == name)).or (classes.find? (·.name == name)) := by
  induction classes generalizing found with
  | nil => simp
  | cons decl classes ih =>
    rw [List.foldl_cons, ih, keepFirst]
    split
    · next again =>
      by_cases same : decl.name = name
      · -- The name has been found before, so a later class does not matter.
        have known : (found.reverse.find? (·.name == name)).isSome := by
          simpa [same] using again
        obtain ⟨first, here⟩ := Option.isSome_iff_exists.mp known
        simp [here]
      · simp [same]
    · by_cases same : decl.name = name
      · simp [List.find?_append, same]
      · simp [List.find?_append, same]

theorem find?_firstClasses (tree : Tree) (name : String) :
    (firstClasses tree).find? (·.name == name) = tree.class? name :=
  find?_foldl_keepFirst tree.classes [] name

theorem inherited?_eq_some_iff {tree : Tree} {name : String} {decl : ClassDecl}
    {member : Member} :
    inherited? tree name ((firstClasses tree).length + 1) decl = some member ↔
      tree.HasMember name decl member := by
  refine ⟨hasMember_of_inherited?, fun has => ?_⟩
  have closed : ∀ a b, parent? tree a = some b → b ∈ firstClasses tree := by
    intro a b climbs
    obtain ⟨base, -, known⟩ := Option.bind_eq_some_iff.mp climbs
    rw [← find?_firstClasses] at known
    exact List.mem_of_find?_eq_some known
  obtain ⟨n, owner, leads, owns⟩ := hasMember_reached has
  obtain ⟨m, bound, leads⟩ := iterate_bounded closed leads
  obtain ⟨found, search⟩ :=
    Option.isSome_iff_exists.mp (inherited?_isSome leads owns (Nat.lt_succ_of_le bound))
  rw [search, hasMember_unique has (hasMember_of_inherited? search)]

end CherryLang.Scope
