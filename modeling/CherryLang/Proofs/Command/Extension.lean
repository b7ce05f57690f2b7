import CherryLang.Proofs.Command.Isolation
import CherryLang.Proofs.Text.Cut
import Mathlib.Data.List.TakeDrop

namespace CherryLang.Command
open Text

/-- The end of a path that names nothing: any row of `/` and `/.`. -/
inductive Idle : List Char → Prop where
  | nil : Idle []
  | slash {tail : List Char} : Idle tail → Idle ('/' :: tail)
  | dot {tail : List Char} : Idle tail → Idle ('/' :: '.' :: tail)

/-- The last segment of a path from which every `/` and every `/.` at the end has been dropped. -/
def LastSegment (path segment : List Char) : Prop :=
  ∃ kept tail, path = kept ++ tail ∧ Idle tail ∧
    ¬ ['/'] <:+ kept ∧ ¬ ['/', '.'] <:+ kept ∧ segment = kept.rtakeWhile (· != '/')

/-- A segment is a stem, a dot and `extension`, and the dot is its last one. The parent directory
has no extension. -/
def HasExtension (segment extension : List Char) : Prop :=
  segment ≠ ['.', '.'] ∧ '.' ∉ extension ∧ ∃ stem, stem ≠ [] ∧ segment = stem ++ '.' :: extension

def Nameless (segment : List Char) : Prop := segment = [] ∨ segment = ['.']

instance (segment : List Char) : Decidable (Nameless segment) :=
  inferInstanceAs (Decidable (segment = [] ∨ segment = ['.']))

theorem Idle.segments {tail : List Char} (idle : Idle tail) :
    ∃ ends : List (List Char), (∀ segment ∈ ends, Nameless segment) ∧
      ∀ kept : List Char, (kept ++ tail).splitOn '/' = kept.splitOn '/' ++ ends := by
  induction idle with
  | nil => exact ⟨[], by simp⟩
  | @slash tail idle ih =>
    obtain ⟨ends, names, split⟩ := ih
    refine ⟨[] :: ends, List.forall_mem_cons.mpr ⟨.inl rfl, names⟩, fun kept => ?_⟩
    rw [List.splitOn_append_cons_self, ← List.nil_append tail, split]
    simp
  | @dot tail idle ih =>
    obtain ⟨ends, names, split⟩ := ih
    have single : ['.'].splitOn '/' = [['.']] := by decide
    refine ⟨['.'] :: ends, List.forall_mem_cons.mpr ⟨.inr rfl, names⟩, fun kept => ?_⟩
    rw [List.splitOn_append_cons_self, ← List.singleton_append, split, single]
    rfl

theorem LastSegment.segments {path segment : List Char} (last : LastSegment path segment) :
    ∃ others ends, path.splitOn '/' = others ++ segment :: ends ∧
      (∀ nameless ∈ ends, Nameless nameless) ∧ (Nameless segment → others = []) := by
  obtain ⟨kept, tail, rfl, idle, solid, named, rfl⟩ := last
  obtain ⟨ends, names, split⟩ := idle.segments
  by_cases member : '/' ∈ kept
  · obtain ⟨lead, segment, rfl, flat⟩ := exists_last member
    rw [(cut_behind_last lead flat).2]
    refine ⟨lead.splitOn '/', ends, ?_, names, ?_⟩
    · rw [split, List.splitOn_append_cons_self, List.splitOn_eq_singleton flat, List.append_assoc]
      rfl
    · rintro (rfl | rfl)
      · exact absurd (List.suffix_append lead _) solid
      · exact absurd (List.suffix_append lead _) named
  · refine ⟨[], ends, ?_, names, fun _ => rfl⟩
    rw [split, List.splitOn_eq_singleton member, rtakeWhile_of_flat member]
    rfl

theorem LastSegment.found {path segment : List Char} (last : LastSegment path segment) :
    lastSegment? path = if Nameless segment then none else some segment := by
  obtain ⟨others, ends, segments, names, alone⟩ := last.segments
  have passed : ends.reverse.find? (fun segment => segment != [] && segment != ['.']) = none := by
    refine List.find?_eq_none.mpr fun nameless member => ?_
    obtain rfl | rfl := names nameless (List.mem_reverse.mp member) <;> simp
  rw [lastSegment?, segments, List.reverse_append, List.reverse_cons, List.append_assoc,
    List.find?_append, passed, Option.none_or]
  split
  · next empty =>
    rw [alone empty]
    obtain rfl | rfl := empty <;> simp
  · next full =>
    obtain ⟨some, undotted⟩ := not_or.mp full
    simp [some, undotted]

theorem LastSegment.unique {path segment other : List Char} (last : LastSegment path segment)
    (again : LastSegment path other) : segment = other := by
  have same := last.found.symm.trans again.found
  split at same <;> split at same
  · next empty empty' =>
    obtain ⟨others, ends, segments, -, alone⟩ := last.segments
    obtain ⟨others', ends', segments', -, alone'⟩ := again.segments
    rw [segments, alone empty, alone' empty'] at segments'
    exact (List.cons.inj segments').1
  · cases same
  · cases same
  · exact Option.some.inj same

theorem exists_lastSegment (path : List Char) : ∃ segment, LastSegment path segment := by
  induction path with
  | nil => exact ⟨[], [], [], rfl, .nil, by simp, by simp, rfl⟩
  | cons c path ih =>
    obtain ⟨_, kept, tail, rfl, idle, solid, named, rfl⟩ := ih
    by_cases slash : c = '/' ∧ kept = []
    · obtain ⟨rfl, rfl⟩ := slash
      exact ⟨[], [], '/' :: tail, rfl, idle.slash, by simp, by simp, rfl⟩
    · by_cases dot : c = '/' ∧ kept = ['.']
      · obtain ⟨rfl, rfl⟩ := dot
        exact ⟨[], [], '/' :: '.' :: tail, rfl, idle.dot, by simp, by simp, rfl⟩
      · refine ⟨_, c :: kept, tail, rfl, idle, fun ends => ?_, fun ends => ?_, rfl⟩
        · obtain whole | later := List.suffix_cons_iff.mp ends
          · obtain ⟨rfl, rfl⟩ := List.cons.inj whole
            exact slash ⟨rfl, rfl⟩
          · exact solid later
        · obtain whole | later := List.suffix_cons_iff.mp ends
          · obtain ⟨rfl, rfl⟩ := List.cons.inj whole
            exact dot ⟨rfl, rfl⟩
          · exact named later

theorem extension?_eq (segment : List Char) : extension? segment =
    if segment = ['.', '.'] then none
    else if (segment.rdropWhile (· != '.')).length ≤ 1 then none
    else some (segment.rtakeWhile (· != '.')) := by
  simp [extension?, List.span_eq_takeWhile_dropWhile, List.rdropWhile, List.rtakeWhile]

theorem extension?_of_flat {segment : List Char} (flat : '.' ∉ segment) :
    extension? segment = none := by
  simp [extension?_eq, rdropWhile_of_flat flat]

theorem extension?_behind_last (stem : List Char) {extension : List Char}
    (flat : '.' ∉ extension) (proper : stem ++ '.' :: extension ≠ ['.', '.']) :
    extension? (stem ++ '.' :: extension) = if stem = [] then none else some extension := by
  obtain ⟨dropped, taken⟩ := cut_behind_last stem flat
  rw [extension?_eq, if_neg proper, dropped, taken]
  simp

theorem extension?_eq_some_iff {segment extension : List Char} :
    extension? segment = some extension ↔ HasExtension segment extension := by
  constructor
  · intro found
    have proper : segment ≠ ['.', '.'] := by
      rintro rfl
      simp [extension?] at found
    by_cases member : '.' ∈ segment
    · obtain ⟨stem, back, rfl, flat⟩ := exists_last member
      rw [extension?_behind_last stem flat proper] at found
      split at found
      · cases found
      · next some =>
        obtain rfl := Option.some.inj found
        exact ⟨proper, flat, stem, some, rfl⟩
    · simp [extension?_of_flat member] at found
  · rintro ⟨proper, flat, stem, some, rfl⟩
    rw [extension?_behind_last stem flat proper, if_neg some]

theorem extension?_eq_none_iff {segment : List Char} :
    extension? segment = none ↔ segment = ['.', '.'] ∨ '.' ∉ segment.tail := by
  by_cases parent : segment = ['.', '.']
  · simp [extension?, parent]
  · by_cases member : '.' ∈ segment
    · obtain ⟨stem, back, rfl, flat⟩ := exists_last member
      rw [extension?_behind_last stem flat parent]
      cases stem with
      | nil => simp [flat]
      | cons c stem =>
        have dotted : '.' ∈ (c :: stem ++ '.' :: back).tail := by simp
        exact iff_of_false (by simp) (not_or.mpr ⟨parent, not_not_intro dotted⟩)
    · have tail : '.' ∉ segment.tail := fun later => member (List.mem_of_mem_tail later)
      simp [extension?_of_flat member, tail]

def RefusedFor (name text : String) : Prop :=
  ∃ reason, checkExtension name = .error (.rejectedFile name reason) ∧ reason.message = text

/-- What becomes of a name whose last segment is `segment`. -/
structure Judged (name : String) (segment : List Char) : Prop where
  accepted : checkExtension name = .ok () ↔
    ∃ stem extension, stem ≠ [] ∧ (extension = "ch" ∨ extension = "ry" ∨ extension = "cherry") ∧
      segment = stem ++ '.' :: extension.toList
  unsupported : ∀ extension : String, HasExtension segment extension.toList →
    extension ∉ extensions →
    RefusedFor name ("unsupported extension '." ++ extension ++ "' (expected .ch, .ry, .cherry)")
  /-- The only dot is a leading one, or there is none, or the segment is the parent directory. -/
  bare : (∀ extension, ¬ HasExtension segment extension) ↔
    '.' ∉ segment.tail ∨ segment = ['.', '.']
  noExtension : (∀ extension, ¬ HasExtension segment extension) →
    RefusedFor name "no file extension (expected .ch, .ry, .cherry)"

theorem LastSegment.pathExtension? {name : String} {segment : List Char}
    (last : LastSegment name.toList segment) :
    pathExtension? name = (extension? segment).map String.ofList := by
  rw [Command.pathExtension?, last.found]
  split
  · next empty => obtain rfl | rfl := empty <;> decide
  · rfl

section

variable {name : String} {segment : List Char} (last : LastSegment name.toList segment)
include last

theorem checkExtension_of_has {extension : String}
    (has : HasExtension segment extension.toList) :
    checkExtension name = if extension ∈ extensions then .ok ()
      else .error (.rejectedFile name (.unsupported extension)) := by
  rw [checkExtension, last.pathExtension?, extension?_eq_some_iff.mpr has, Option.map_some,
    String.ofList_toList]
  simp only [List.contains_iff_mem]

theorem checkExtension_of_bare (bare : ∀ extension, ¬ HasExtension segment extension) :
    checkExtension name = .error (.rejectedFile name .noExtension) := by
  have none : extension? segment = none :=
    Option.eq_none_iff_forall_ne_some.mpr fun extension found =>
      bare extension (extension?_eq_some_iff.mp found)
  rw [checkExtension, last.pathExtension?, none, Option.map_none]

theorem checkExtension_eq_ok_iff : checkExtension name = .ok () ↔
    ∃ extension ∈ extensions, HasExtension segment extension.toList := by
  constructor
  · intro accepted
    by_cases has : ∃ extension, HasExtension segment extension
    · obtain ⟨extension, has⟩ := has
      rw [← String.toList_ofList (l := extension)] at has
      rw [checkExtension_of_has last has] at accepted
      split at accepted
      · next known => exact ⟨_, known, has⟩
      · cases accepted
    · rw [checkExtension_of_bare last (not_exists.mp has)] at accepted
      cases accepted
  · rintro ⟨extension, known, has⟩
    rw [checkExtension_of_has last has, if_pos known]

end

theorem extensionList_eq : extensionList = ".ch, .ry, .cherry" := by decide

theorem message_unsupported (extension : String) : (NameError.unsupported extension).message =
    "unsupported extension '." ++ extension ++ "' (expected .ch, .ry, .cherry)" := by
  unfold NameError.message
  calc
    _ = "unsupported extension '." ++ extension ++ "' (expected " ++ extensionList ++ ")" := rfl
    _ = "unsupported extension '." ++ extension ++
        ("' (expected " ++ (".ch, .ry, .cherry" ++ ")")) := by
      simp only [extensionList_eq, String.append_assoc]
    _ = _ := rfl

theorem message_noExtension :
    NameError.noExtension.message = "no file extension (expected .ch, .ry, .cherry)" := by
  unfold NameError.message
  calc
    _ = "no file extension (expected " ++ extensionList ++ ")" := rfl
    _ = _ := by
      rw [extensionList_eq]
      decide

/-- The extensions hold no dot, and none is empty, so the parent directory has none of them. -/
theorem hasExtension_known {segment : List Char} {extension : String}
    (known : extension ∈ extensions) :
    HasExtension segment extension.toList ↔
      ∃ stem, stem ≠ [] ∧ segment = stem ++ '.' :: extension.toList := by
  have plain : ∀ extension ∈ extensions, '.' ∉ extension.toList ∧ extension.toList ≠ [] := by decide
  obtain ⟨flat, some⟩ := plain extension known
  refine ⟨fun has => has.2.2, fun split => ⟨?_, flat, split⟩⟩
  obtain ⟨stem, begun, rfl⟩ := split
  intro parent
  have length := congrArg List.length parent
  have stemmed := List.length_pos_iff.mpr begun
  have extended := List.length_pos_iff.mpr some
  simp only [List.length_append, List.length_cons, List.length_nil] at length
  omega

theorem LastSegment.judged {name : String} {segment : List Char}
    (last : LastSegment name.toList segment) : Judged name segment where
  accepted := by
    rw [checkExtension_eq_ok_iff last]
    constructor
    · rintro ⟨extension, known, has⟩
      obtain ⟨stem, some, split⟩ := (hasExtension_known known).mp has
      exact ⟨stem, extension, some, by simpa [extensions] using known, split⟩
    · rintro ⟨stem, extension, some, known, split⟩
      have known : extension ∈ extensions := by simpa [extensions] using known
      exact ⟨extension, known, (hasExtension_known known).mpr ⟨stem, some, split⟩⟩
  unsupported extension has other := by
    refine ⟨.unsupported extension, ?_, message_unsupported extension⟩
    rw [checkExtension_of_has last has, if_neg other]
  bare := by
    rw [or_comm, ← extension?_eq_none_iff, Option.eq_none_iff_forall_ne_some]
    exact forall_congr' fun extension => not_congr extension?_eq_some_iff.symm
  noExtension bare := ⟨.noExtension, checkExtension_of_bare last bare, message_noExtension⟩

def refusal? (name : String) : Option Error :=
  match checkExtension name with
  | .ok _ => none
  | .error e => some e

def Error.refused? : Error → Option String
  | .rejectedFile name _ => some name
  | .unknownFlag _ | .missingValue _ | .unexpectedValue _ | .invalidValue _ _ _ | .conflict _ _ =>
    none

theorem refused?_of_checkExtension {name : String} {e : Error}
    (refused : checkExtension name = .error e) : e.refused? = some name := by
  unfold checkExtension at refused
  split at refused
  · cases refused
    rfl
  · split at refused
    · cases refused
    · cases refused
      rfl

theorem refused?_refusal? (name : String) :
    (refusal? name).bind Error.refused? = if !accepts name then some name else none := by
  unfold refusal? accepts
  cases checked : checkExtension name with
  | ok accepted => rfl
  | error e => exact refused?_of_checkExtension checked

theorem rejected_acceptFrom (count : Nat) (names : List String) :
    (acceptFrom count names).rejected = names.filterMap refusal? := by
  induction names generalizing count with
  | nil => rfl
  | cons name names ih =>
    unfold acceptFrom
    rw [List.filterMap_cons, refusal?]
    cases checkExtension name with
    | ok accepted => exact ih (count + 1)
    | error e => exact congrArg (e :: ·) (ih count)

/-- How `selection` parts the names: both parts keep their order, the accepted names are numbered
from zero on, and every name is in one of the parts, as often as in the list. -/
structure Parted (names : List String) (selection : Selection) : Prop where
  files : selection.files = (names.filter accepts).zipIdx.map fun (name, k) => .ofPath ⟨k⟩ name
  rejected : selection.rejected = names.filterMap refusal?
  refused : selection.rejected.filterMap Error.refused? = names.filter fun name => !accepts name
  whole : (selection.files.map (·.name) ++ selection.rejected.filterMap Error.refused?).Perm names

theorem parted {names : List String} (few : names.length < 0x100000000) :
    Parted names (.ofNames names) := by
  have rejected : (Selection.ofNames names).rejected = names.filterMap refusal? :=
    rejected_acceptFrom 0 names
  have refused : (Selection.ofNames names).rejected.filterMap Error.refused? =
      names.filter fun name => !accepts name := by
    rw [rejected, List.filterMap_filterMap, ← List.filterMap_eq_filter]
    congr 1
    funext name
    rw [refused?_refusal?]
    rfl
  refine ⟨files_ofNames few, rejected, refused, ?_⟩
  have accepted : (Selection.ofNames names).files.map (·.name) = names.filter accepts := by
    rw [files_ofNames few, List.map_map]
    exact List.zipIdx_map_fst 0 (names.filter accepts)
  rw [accepted, refused]
  exact List.filter_append_perm accepts names

/-- Every name is judged by its last segment, of which there is exactly one. So the names of a list
are parted, and none is lost or repeated. -/
theorem names_by_extension {names : List String} (few : names.length < 0x100000000) :
    (∀ name : String, ∃ segment, (∀ other, LastSegment name.toList other ↔ other = segment) ∧
      Judged name segment) ∧
    Parted names (.ofNames names) := by
  refine ⟨fun name => ?_, parted few⟩
  obtain ⟨segment, last⟩ := exists_lastSegment name.toList
  refine ⟨segment, fun other => ⟨fun again => again.unique last, ?_⟩, last.judged⟩
  rintro rfl
  exact last

def mixedNames : List String := ["a.ch", "src/.ch", "b.ry/./", "a.ch", "MAIN.CH", ".."]

theorem names_by_extension_mixed :
    mixedNames.length < 0x100000000 ∧
      (Selection.ofNames mixedNames).files =
        [.ofPath ⟨0⟩ "a.ch", .ofPath ⟨1⟩ "b.ry/./", .ofPath ⟨2⟩ "a.ch"] ∧
      (Selection.ofNames mixedNames).rejected =
        [.rejectedFile "src/.ch" .noExtension, .rejectedFile "MAIN.CH" (.unsupported "CH"),
          .rejectedFile ".." .noExtension] := by
  have few : mixedNames.length < 0x100000000 := by decide
  obtain ⟨-, parted⟩ := names_by_extension few
  have accepted : mixedNames.filter accepts = ["a.ch", "b.ry/./", "a.ch"] := by decide
  refine ⟨few, ?_, ?_⟩
  · rw [parted.files, accepted]
    rfl
  · rw [parted.rejected]
    decide

end CherryLang.Command
