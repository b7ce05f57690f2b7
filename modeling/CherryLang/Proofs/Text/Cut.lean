import Mathlib.Data.List.DropRight

namespace CherryLang.Text

section

variable {mark : Char} {text : List Char}

theorem passes_of_flat (flat : mark ∉ text) : ∀ c ∈ text, (c != mark) = true := by
  intro c member
  simpa using ne_of_mem_of_not_mem member flat

theorem takeWhile_append_of_flat (flat : mark ∉ text) (more : List Char) :
    (text ++ more).takeWhile (· != mark) = text ++ more.takeWhile (· != mark) :=
  List.takeWhile_append_of_pos (passes_of_flat flat)

theorem rtakeWhile_of_flat (flat : mark ∉ text) : text.rtakeWhile (· != mark) = text :=
  List.rtakeWhile_eq_self_iff.mpr (passes_of_flat flat)

theorem rdropWhile_of_flat (flat : mark ∉ text) : text.rdropWhile (· != mark) = [] :=
  List.rdropWhile_eq_nil_iff.mpr (passes_of_flat flat)

theorem exists_last (member : mark ∈ text) :
    ∃ front back, text = front ++ mark :: back ∧ mark ∉ back := by
  obtain ⟨back, front, split, flat⟩ := List.eq_append_cons_of_mem (List.mem_reverse.mpr member)
  refine ⟨front.reverse, back.reverse, ?_, by simpa using flat⟩
  simpa using congrArg List.reverse split

theorem cut_behind_last (front : List Char) {back : List Char} (flat : mark ∉ back) :
    (front ++ mark :: back).rdropWhile (· != mark) = front ++ [mark] ∧
      (front ++ mark :: back).rtakeWhile (· != mark) = back := by
  have passes := passes_of_flat (mt List.mem_reverse.mp flat)
  simp [List.rdropWhile, List.rtakeWhile, List.dropWhile_append_of_pos passes,
    List.takeWhile_append_of_pos passes]

end

theorem length_splitOn (mark : Char) (text : List Char) :
    (text.splitOn mark).length = text.count mark + 1 := by
  induction text with
  | nil => simp
  | cons c text ih =>
    rw [List.splitOn_cons_eq_if_modifyHead]
    by_cases cut : c = mark
    · simp [cut, ih]
    · simp [cut, ih, List.count_cons_of_ne cut]

theorem head?_splitOn (mark : Char) (text : List Char) :
    (text.splitOn mark)[0]? = some (text.takeWhile (· != mark)) := by
  induction text with
  | nil => simp
  | cons c text ih =>
    rw [List.splitOn_cons_eq_if_modifyHead]
    by_cases cut : c = mark
    · simp [cut]
    · simp [cut, ih]

theorem getElem?_splitOn_append (mark : Char) (before behind : List Char) :
    ((before ++ behind).splitOn mark)[before.count mark]? =
      some (before.rtakeWhile (· != mark) ++ behind.takeWhile (· != mark)) := by
  by_cases member : mark ∈ before
  · obtain ⟨front, last, rfl, flat⟩ := exists_last member
    have place : (front ++ mark :: last).count mark = (front.splitOn mark).length := by
      simp [length_splitOn, List.count_eq_zero.mpr flat]
    rw [place, (cut_behind_last front flat).2, List.append_assoc, List.cons_append,
      List.splitOn_append_cons_self, List.getElem?_append_right (Nat.le_refl _), Nat.sub_self,
      head?_splitOn, takeWhile_append_of_flat flat]
  · rw [List.count_eq_zero.mpr member, head?_splitOn, takeWhile_append_of_flat member,
      rtakeWhile_of_flat member]

section

variable {p : Char → Bool}

theorem rdropWhile_append_rdropWhile (front back : List Char) :
    (front ++ back.rdropWhile p).rdropWhile p = (front ++ back).rdropWhile p := by
  induction back using List.reverseRecOn with
  | nil => simp
  | append_singleton back c ih =>
    by_cases drops : p c = true
    · rw [List.rdropWhile_concat_pos p back c drops, ih, ← List.append_assoc,
        List.rdropWhile_concat_pos p _ c drops]
    · rw [List.rdropWhile_concat_neg p back c drops]

theorem rdropWhile_congr {q : Char → Bool} {text : List Char} (same : ∀ c ∈ text, p c = q c) :
    text.rdropWhile p = text.rdropWhile q := by
  induction text using List.reverseRecOn with
  | nil => simp
  | append_singleton text c ih =>
    obtain ⟨others, last⟩ := List.forall_mem_append.mp same
    rw [List.rdropWhile_concat, List.rdropWhile_concat, ih others, last c (.head _)]

end

end CherryLang.Text
