import CherryLang.Proofs.Lexical.LineBreak
import CherryLang.Proofs.Outcome.Routes
import CherryLang.Proofs.Scope.Resolution
import CherryLang.Proofs.Syntax.Blames
import CherryLang.Proofs.Text.Cut

namespace CherryLang

section

variable {places : Span → Prop}

/-! Trees and errors cannot be told from their copies by a move that leaves `places` alone. As a
move is free to take every other place away, none of these is in them. -/

theorem Syntax.TokensMatch.refl {f : Span → Span} {t : Token} (fixed : f t.span = t.span) :
    TokensMatch f t t := ⟨.inl rfl, rfl, rfl, fixed.symm⟩

theorem Syntax.Alike.refl {f : Span → Span} {ts : List Token}
    (fixed : ∀ t ∈ ts, f t.span = t.span) : Alike f ts ts := by
  induction ts with
  | nil => exact .nil
  | cons t ts ih =>
    have rest := ih fun u later => fixed u (.tail t later)
    exact .cons (.refl (fixed t (.head ts))) (.inl rfl) rest

open Classical in
/-- Every place but `places` is taken to another line. -/
noncomputable def takenAway (places : Span → Prop) (span : Span) : Span :=
  if places span then span else ⟨span.line + 1, 0⟩

theorem takenAway_eq_self_iff {span : Span} : takenAway places span = span ↔ places span := by
  unfold takenAway
  split
  · next inside => exact iff_of_true rfl inside
  · next outside =>
    refine iff_of_false (fun same => ?_) outside
    have lines := congrArg Span.line same
    simp at lines

/-- All places in the tree are among `places`. -/
def Tree.At (places : Span → Prop) (tree : Tree) : Prop :=
  ∀ f : Span → Span, (∀ span, places span → f span = span) → tree.respan f = tree

theorem Syntax.at_of_parse {ts : List Token} {tree : Tree} (known : ∀ t ∈ ts, places t.span)
    (parsed : parse ts = .ok tree) : tree.At places := by
  intro f fixed
  have alike : Alike f ts ts := .refl fun t member => fixed t.span (known t member)
  obtain ⟨tree', parsed', moved⟩ | ⟨e, _, failed, _⟩ := parse_alike alike
  · obtain rfl : tree = tree' := Except.ok.inj (parsed.symm.trans parsed')
    exact Except.ok.inj (moved.symm.trans parsed)
  · simp [parsed] at failed

namespace Scope

def ErrorKind.previous? : ErrorKind → Option Span
  | .duplicateDeclaration _ previous => some previous
  | _ => none

def Error.locations (e : Error) : List Span := e.span :: e.kind.previous?.toList

theorem Error.fixed_of_respan {f : Span → Span} {e : Error} (same : e.respan f = e) {span : Span}
    (reported : span ∈ e.locations) : f span = span := by
  obtain ⟨kind, here⟩ := e
  obtain ⟨kinds, places⟩ := Error.mk.inj same
  obtain rfl | earlier := List.mem_cons.mp reported
  · exact places
  · cases kind with
    | duplicateDeclaration name previous =>
      obtain rfl := List.mem_singleton.mp earlier
      exact (ErrorKind.duplicateDeclaration.inj kinds).2
    | _ => cases earlier

theorem locations_findings {tree : Tree} (known : tree.At places) {e : Error}
    (found : e ∈ findings tree) : ∀ span ∈ e.locations, places span := by
  intro span reported
  have moved : tree.respan (takenAway places) = tree :=
    known (takenAway places) fun _ inside => takenAway_eq_self_iff.mpr inside
  have same : (findings tree).map (Error.respan (takenAway places)) = (findings tree).map id := by
    rw [← findings_respan, moved, List.map_id]
  have fixed := List.map_inj_left.mp same e found
  exact takenAway_eq_self_iff.mp (Error.fixed_of_respan fixed reported)

theorem locations_check {tree : Tree} (known : tree.At places) {e : Error}
    (found : e ∈ check tree) : ∀ span ∈ e.locations, places span :=
  locations_findings known ((check_perm_findings tree).mem_iff.mp found)

end Scope

def Failure.locations (failure : Failure) : List Span :=
  failure.diagnostics.filterMap (·.1) ++
    match failure with
    | .rejected errors => errors.filterMap (·.kind.previous?)
    | .unreadable _ | .lexical _ | .unparsed _ => []

/-- The places of warnings and of what made the file fail, and those of earlier declarations. -/
def Outcome.locations (o : Outcome) : List Span :=
  o.warnings.map (·.span) ++
    match o.result with
    | .ok _ => []
    | .error failure => failure.locations

theorem Failure.mem_locations_rejected {errors : List Scope.Error} {span : Span}
    (reported : span ∈ (Failure.rejected errors).locations) :
    ∃ e ∈ errors, span ∈ e.locations := by
  simp only [locations, diagnostics, List.mem_append, List.mem_filterMap, List.mem_map] at reported
  obtain ⟨_, ⟨e, member, rfl⟩, here⟩ | ⟨e, member, earlier⟩ := reported
  · cases here
    exact ⟨e, member, .head _⟩
  · exact ⟨e, member, List.mem_cons_of_mem _ (by simp [earlier])⟩

theorem locations_treeOfTokens {ts : List Token} {failure : Failure}
    (known : ∀ t ∈ ts, places t.span) (some : ts ≠ [])
    (failed : treeOfTokens ts = .error failure) : ∀ span ∈ failure.locations, places span := by
  intro span reported
  unfold treeOfTokens at failed
  split at failed
  · next e unparsed =>
    cases failed
    have here : span = e.span := by
      simpa [Failure.locations, Failure.diagnostics] using reported
    exact here ▸ Syntax.blame_of_parse known some unparsed
  · next tree parsed =>
    split at failed
    · cases failed
    · cases failed
      obtain ⟨e, member, here⟩ := Failure.mem_locations_rejected reported
      exact Scope.locations_check (Syntax.at_of_parse known parsed) member span here

theorem locations_completed (disk : Disk) (source : SourceFile) (strict keep : Bool) :
    (completed disk source strict keep).locations = (process disk strict source).locations := rfl

theorem locations_process {disk : Disk} {source : SourceFile} {scanned : Lexical.Scanned}
    (read : scanSource disk source = .ok scanned) (tokens : ∀ t ∈ scanned.tokens, places t.span)
    (errors : ∀ e ∈ scanned.errors, places e.span) (strict : Bool) :
    ∀ span ∈ (process disk strict source).locations, places span := by
  intro span reported
  have found : span ∈ scanned.errors.map (·.span) → places span := by
    intro member
    obtain ⟨e, inside, rfl⟩ := List.mem_map.mp member
    exact errors e inside
  unfold process Outcome.locations at reported
  simp only [read] at reported
  split at reported
  · apply found
    simpa [Failure.locations, Failure.diagnostics] using reported
  · obtain warned | failed := List.mem_append.mp reported
    · exact found warned
    · simp only at failed
      split at failed
      · cases failed
      · next failure result =>
        exact locations_treeOfTokens tokens (tokens_ne_nil read) result span failed

end

namespace Lexical

def Item.lexeme : Item → List Char
  | .token t => t.lexeme.toList
  | .error e => e.lexeme.toList
  | .failure _ => []

/-- An item of the text is at `span`: it begins there with the first character of its lexeme, or the
text ends there. -/
def Marked (file : FileId) (text : String) (span : Span) : Prop :=
  ∃ item ∈ Scan.items { cursor := .ofText text, file },
    item.span? = some span ∧
    ((∃ before behind, item.lexeme ≠ [] ∧ text.toList = before ++ item.lexeme ++ behind ∧
        span = place before) ∨
      span = place text.toList)

/-- A line of the text, and a column of that line or the one behind it. -/
def Inside (text : List Char) (span : Span) : Prop :=
  1 ≤ span.line ∧ 1 ≤ span.column ∧
    ∃ line, (text.splitOn '\n')[span.line - 1]? = some line ∧ span.column ≤ line.length + 1

theorem inside_place (before behind : List Char) : Inside (before ++ behind) (place before) := by
  refine ⟨Nat.le_add_right 1 _, Nat.le_add_right 1 _,
    before.rtakeWhile (· != '\n') ++ behind.takeWhile (· != '\n'), ?_, ?_⟩
  · simpa [place] using Text.getElem?_splitOn_append '\n' before behind
  · simp [place, List.rtakeWhile]
    omega

theorem Piece.lexeme_item? {file : FileId} {span : Span} {piece : Piece} {item : Item}
    {behind : List Char} (fits : piece.Fits behind) (emits : piece.item? file span = some item) :
    item.lexeme ≠ [] ∧ item.lexeme <+: piece.text := by
  cases piece with
  | blank c | line body closed | block body => cases emits
  | token kind lexeme =>
    cases emits
    exact ⟨by simpa [Item.lexeme] using fits.2, by simp [Item.lexeme, text]⟩
  | error kind lexeme lost quoted =>
    cases emits
    exact ⟨by simpa [Item.lexeme] using fits.1, by simp [Item.lexeme, text]⟩

theorem lexeme_of_mem_emitted {file : FileId} {before : List Char} {pieces : List Piece}
    (laid : Laid pieces) {item : Item} (member : item ∈ emitted file before pieces) :
    ∃ more behind, pieces.flatMap Piece.text = more ++ behind ∧
      item.span? = some (place (before ++ more)) ∧
      (item.lexeme ≠ [] ∧ item.lexeme <+: behind ∨ behind = []) := by
  induction pieces generalizing before with
  | nil =>
    obtain rfl := List.mem_singleton.mp member
    exact ⟨[], [], rfl, by simp [Item.span?], .inr rfl⟩
  | cons piece pieces ih =>
    obtain here | later := List.mem_append.mp member
    · have emits := Option.mem_toList.mp here
      obtain ⟨some, front⟩ := Piece.lexeme_item? laid.1 emits
      refine ⟨[], (piece :: pieces).flatMap Piece.text, rfl, ?_, .inl ⟨some, ?_⟩⟩
      · rw [List.append_nil]
        exact Piece.span?_item? emits
      · rw [List.flatMap_cons]
        exact front.trans (List.prefix_append _ _)
    · obtain ⟨more, behind, split, there, begins⟩ := ih laid.2 later
      refine ⟨piece.text ++ more, behind, ?_, ?_, begins⟩
      · rw [List.flatMap_cons, split, List.append_assoc]
      · rw [← List.append_assoc, there]

theorem marked_of_mem_emitted {file : FileId} {text : String} {item : Item} {span : Span}
    (member : item ∈ emitted file [] (pieces text.toList)) (here : item.span? = some span) :
    Marked file text span := by
  have items : Scan.items { cursor := .ofText text, file } =
      emitted file [] (pieces text.toList) := by
    rw [Cursor.ofText_eq_standing]
    exact items_scanAt file [] text.toList false
  refine ⟨item, items ▸ member, here, ?_⟩
  obtain ⟨before, behind, split, there, begins⟩ := lexeme_of_mem_emitted (laid_pieces _) member
  rw [flatMap_text_pieces] at split
  rw [here, List.nil_append, Option.some.injEq] at there
  obtain ⟨some, more, rfl⟩ | rfl := begins
  · exact .inl ⟨before, more, some, by rw [split, List.append_assoc], there⟩
  · exact .inr (by rw [there, split, List.append_nil])

theorem Marked.inside {file : FileId} {text : String} {span : Span}
    (marked : Marked file text span) : Inside text.toList span := by
  obtain ⟨item, _, _, ⟨before, behind, _, split, rfl⟩ | rfl⟩ := marked
  · rw [split, List.append_assoc]
    exact inside_place before _
  · simpa using inside_place text.toList []

end Lexical

/-- Every place that is reported for a text, whatever the settings and whatever becomes of the file,
is that of a token or of a discarded lexeme, at its first character, or that of the end of the text.
So its line exists, and its column is one of that line or the next behind it. -/
theorem locations_marked (disk : Disk) (file : FileId) (name text : String) (strict keep : Bool) :
    ∀ span ∈ (completed disk (.ofText file name text) strict keep).locations,
      Lexical.Marked file text span ∧ Lexical.Inside text.toList span := by
  rw [locations_completed]
  intro span reported
  have read : scanSource disk (.ofText file name text) = _ := Lexical.scan_ofText file text
  have marked : Lexical.Marked file text span := by
    refine locations_process read ?_ ?_ strict span reported
    · intro t member
      obtain ⟨item, emitted, picked⟩ := List.mem_filterMap.mp member
      exact Lexical.marked_of_mem_emitted emitted (Lexical.span?_of_token? item t picked)
    · intro e member
      obtain ⟨item, emitted, picked⟩ := List.mem_filterMap.mp member
      exact Lexical.marked_of_mem_emitted emitted (Lexical.span?_of_error? item e picked)
  exact ⟨marked, marked.inside⟩

def repeatedName : String := "int n;\nint n; $"

theorem locations_marked_repeated :
    (completed (fun _ => .error .missing) (.ofText {} "" repeatedName) false false).locations =
        [⟨2, 8⟩, ⟨2, 1⟩, ⟨1, 1⟩] ∧
      Lexical.Marked {} repeatedName ⟨1, 1⟩ ∧ Lexical.Inside repeatedName.toList ⟨1, 1⟩ := by
  have read : scanSource (fun _ => .error .missing) (.ofText {} "" repeatedName) = _ :=
    Lexical.scan_ofText {} repeatedName
  have reported : (completed (fun _ => .error .missing) (.ofText {} "" repeatedName) false
      false).locations = [⟨2, 8⟩, ⟨2, 1⟩, ⟨1, 1⟩] := by
    rw [locations_completed, process_lenient read]
    decide +kernel
  have member : (⟨1, 1⟩ : Span) ∈ (completed (fun _ => .error .missing)
      (.ofText {} "" repeatedName) false false).locations := by
    rw [reported]
    decide
  exact ⟨reported, locations_marked _ _ _ _ _ _ _ member⟩

end CherryLang
