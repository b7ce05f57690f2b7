import CherryLang.Outcome.LifeCycle
import CherryLang.Proofs.Layout.Verdict
import CherryLang.Proofs.Lexical.Ending

namespace CherryLang

/-- The outcome of a file that no stage has seen yet. -/
def completed (disk : Disk) (source : SourceFile) (strict keepTokens : Bool) : Outcome :=
  ({ source, strict, keepTokens } : Pipeline).complete disk

theorem source_process (disk : Disk) (strict : Bool) (source : SourceFile) :
    (process disk strict source).source = source := by
  unfold process
  split
  · rfl
  · split <;> rfl

section

variable {disk : Disk} {source : SourceFile} {keep : Bool}

theorem result_completed (strict : Bool) :
    (completed disk source strict keep).result = (process disk strict source).result := rfl

theorem warnings_completed (strict : Bool) :
    (completed disk source strict keep).warnings = (process disk strict source).warnings := rfl

variable {scanned : Lexical.Scanned}

theorem tokens_process (read : scanSource disk source = .ok scanned) (strict : Bool) :
    (process disk strict source).tokens = scanned.tokens := by
  unfold process
  rw [read]
  dsimp only
  split <;> rfl

theorem process_lenient (read : scanSource disk source = .ok scanned) :
    process disk false source =
      ⟨source, scanned.tokens, scanned.errors, treeOfTokens scanned.tokens⟩ := by
  simp [process, read]

theorem process_strict (read : scanSource disk source = .ok scanned)
    (found : scanned.errors ≠ []) :
    process disk true source = ⟨source, scanned.tokens, [], .error (.lexical scanned.errors)⟩ := by
  simp [process, read, found]

theorem process_of_clean (read : scanSource disk source = .ok scanned)
    (clean : scanned.errors = []) (strict : Bool) :
    process disk strict source = ⟨source, scanned.tokens, [], treeOfTokens scanned.tokens⟩ := by
  simp [process, read, clean]

end

/-- Direct route and stages give the same answer behind a scan without errors. -/
inductive SameAnswer : Except TextError Tree → Except Failure Tree → Prop
  | accepted (tree : Tree) : SameAnswer (.ok tree) (.ok tree)
  | unparsed (e : Syntax.Error) : SameAnswer (.error (.unparsed e)) (.error (.unparsed e))
  | rejected (errors : List Scope.Error) :
    SameAnswer (.error (.rejected errors)) (.error (.rejected errors))

namespace SameAnswer

variable {direct : Except TextError Tree} {result : Except Failure Tree}

theorem accepted_iff (same : SameAnswer direct result) (tree : Tree) :
    direct = .ok tree ↔ result = .ok tree := by
  cases same <;> simp

theorem unparsed_iff (same : SameAnswer direct result) (e : Syntax.Error) :
    direct = .error (.unparsed e) ↔ result = .error (.unparsed e) := by
  cases same <;> simp

theorem rejected_iff (same : SameAnswer direct result) (errors : List Scope.Error) :
    direct = .error (.rejected errors) ↔ result = .error (.rejected errors) := by
  cases same <;> simp

theorem direct_ne_lexical (same : SameAnswer direct result) (e : Lexical.Error) :
    direct ≠ .error (.lexical e) := by
  cases same <;> simp

theorem result_ne_lexical (same : SameAnswer direct result) (errors : List Lexical.Error) :
    result ≠ .error (.lexical errors) := by
  cases same <;> simp

end SameAnswer

theorem sameAnswer_of_tokenize {text : String} {ts : List Token}
    (scanned : tokenize text = .ok ⟨ts, []⟩) :
    SameAnswer (parseText text) (treeOfTokens ts) := by
  rw [parseText_of_tokenize scanned, treeOfTokens]
  cases Syntax.parse ts with
  | error e => exact .unparsed e
  | ok tree =>
    cases found : Scope.check tree with
    | nil => simpa [found] using SameAnswer.accepted tree
    | cons e errors => simpa [found] using SameAnswer.rejected (e :: errors)

theorem parseText_of_lexical {text : String} {ts : List Token} {e : Lexical.Error}
    {more : List Lexical.Error} (scanned : tokenize text = .ok ⟨ts, e :: more⟩) :
    parseText text = .error (.lexical e) := by
  unfold parseText
  generalize tokenize text = result at scanned ⊢
  subst scanned
  rfl

/-- What the three routes say of one text: they accept the same tree, where the lenient one has to
have no warnings; the direct one fails with the first of the lexical errors with which the strict
one fails and of which the lenient one warns; and they fail to parse, or are rejected, together. -/
structure RoutesAgree (direct : Except TextError Tree) (strict lenient : Outcome) : Prop where
  accepted : ∀ tree, direct = .ok tree ↔ strict.result = .ok tree
  unwarned : ∀ tree, direct = .ok tree ↔ lenient.result = .ok tree ∧ lenient.warnings = []
  lexical : ∀ e, direct = .error (.lexical e) ↔
    ∃ more, strict.result = .error (.lexical (e :: more))
  warned : ∀ errors, strict.result = .error (.lexical errors) →
    strict.warnings = [] ∧ lenient.warnings = errors
  unparsed : ∀ e, direct = .error (.unparsed e) ↔
    strict.result = .error (.unparsed e) ∧ lenient.result = .error (.unparsed e)
  rejected : ∀ errors, direct = .error (.rejected errors) ↔
    strict.result = .error (.rejected errors) ∧ lenient.result = .error (.rejected errors)

namespace RoutesAgree

variable {direct : Except TextError Tree} {strict lenient : Outcome}

theorem of_sameAnswer (same : SameAnswer direct strict.result)
    (both : lenient.result = strict.result) (silent : lenient.warnings = []) :
    RoutesAgree direct strict lenient := by
  constructor
  case accepted => exact same.accepted_iff
  case unwarned =>
    intro tree
    rw [both, same.accepted_iff tree, and_iff_left silent]
  case lexical =>
    intro e
    constructor
    · intro stopped
      exact absurd stopped (same.direct_ne_lexical e)
    · rintro ⟨more, failed⟩
      exact absurd failed (same.result_ne_lexical (e :: more))
  case warned =>
    intro errors failed
    exact absurd failed (same.result_ne_lexical errors)
  case unparsed =>
    intro e
    rw [both, and_self_iff, same.unparsed_iff e]
  case rejected =>
    intro errors
    rw [both, and_self_iff, same.rejected_iff errors]

theorem of_lexical {e : Lexical.Error} {more : List Lexical.Error}
    (stopped : direct = .error (.lexical e))
    (failed : strict.result = .error (.lexical (e :: more))) (silent : strict.warnings = [])
    (warned : lenient.warnings = e :: more) : RoutesAgree direct strict lenient := by
  subst stopped
  constructor <;> simp [failed, silent, warned]

end RoutesAgree

theorem routesAgree_completed (disk : Disk) (name text : String) (keep keep' : Bool) :
    RoutesAgree (parseText text) (completed disk (.ofText {} name text) true keep)
      (completed disk (.ofText {} name text) false keep') := by
  obtain ⟨ts, errors, scanned⟩ : ∃ ts errors, tokenize text = .ok ⟨ts, errors⟩ :=
    ⟨_, _, Lexical.scan_ofText {} text⟩
  have read : scanSource disk (.ofText {} name text) = .ok ⟨ts, errors⟩ := scanned
  cases errors with
  | nil =>
    apply RoutesAgree.of_sameAnswer
    · rw [result_completed, process_of_clean read rfl]
      exact sameAnswer_of_tokenize scanned
    · rw [result_completed, result_completed, process_of_clean read rfl, process_of_clean read rfl]
    · rw [warnings_completed, process_of_clean read rfl]
  | cons e more =>
    apply RoutesAgree.of_lexical (parseText_of_lexical scanned)
    · rw [result_completed, process_strict read (by simp)]
    · rw [warnings_completed, process_strict read (by simp)]
    · rw [warnings_completed, process_lenient read]

namespace Lexical

theorem span?_of_error? (item : Item) (e : Error) (picked : item.error? = some e) :
    item.span? = some e.span := by
  cases item <;> cases picked
  rfl

theorem pairwise_before_errors (file : FileId) (text : List Char) :
    (((emitted file [] (pieces text)).filterMap Item.error?).map (·.span)).Pairwise Span.Before :=
  (pairwise_before_emitted file [] (laid_pieces text)).sublist (sublist_map_span span?_of_error? _)

theorem head?_file_emitted (file : FileId) (before : List Char) (pieces : List Piece) :
    ((emitted file before pieces).filterMap Item.token?).head?.map (·.file) = some file := by
  induction pieces generalizing before with
  | nil => rfl
  | cons piece pieces ih =>
    have further := ih (before ++ piece.text)
    cases piece with
    | token kind lexeme => rfl
    | blank c | line body closed | block body | error kind lexeme lost quoted => exact further

theorem head?_file_of_scan {file : FileId} {bytes : ByteArray} {scanned : Scanned}
    (ended : scan file (.ofBytes bytes) = .ok scanned) :
    scanned.tokens.head?.map (·.file) = some file := by
  have text := scan_ofText file (String.ofByteArray bytes (isValidUTF8_of_scan ended))
  have same := Except.ok.inj (ended.symm.trans text)
  rw [same]
  exact head?_file_emitted file [] _

end Lexical

theorem scan_of_scanSource {disk : Disk} {source : SourceFile} {scanned : Lexical.Scanned}
    (read : scanSource disk source = .ok scanned) :
    ∃ bytes, Lexical.scan source.id (.ofBytes bytes) = .ok scanned := by
  unfold scanSource at read
  split at read
  · next text _ => exact ⟨text.toUTF8, read⟩
  · split at read
    · cases read
    · next bytes _ => exact ⟨bytes, read⟩

theorem tokens_ne_nil {disk : Disk} {source : SourceFile} {scanned : Lexical.Scanned}
    (read : scanSource disk source = .ok scanned) : scanned.tokens ≠ [] := by
  obtain ⟨bytes, ended⟩ := scan_of_scanSource read
  have first := Lexical.head?_file_of_scan ended
  intro empty
  simp [empty] at first

theorem file_of_treeOfTokens {ts : List Token} {tree : Tree}
    (accepted : treeOfTokens ts = .ok tree) : tree.file = (ts.head?.map (·.file)).getD {} := by
  unfold treeOfTokens at accepted
  split at accepted
  · cases accepted
  · next parsed =>
    split at accepted
    · cases accepted
      unfold Syntax.parse at parsed
      split at parsed
      · cases parsed
      · cases parsed
        rfl
    · cases accepted

theorem exists_scan_of_accepted {disk : Disk} {source : SourceFile} {strict : Bool} {tree : Tree}
    (accepted : (process disk strict source).result = .ok tree) :
    ∃ scanned, scanSource disk source = .ok scanned ∧ treeOfTokens scanned.tokens = .ok tree := by
  unfold process at accepted
  split at accepted
  · cases accepted
  · next scanned read =>
    split at accepted
    · cases accepted
    · exact ⟨scanned, read, accepted⟩

theorem file_of_accepted {disk : Disk} {source : SourceFile} {strict : Bool} {tree : Tree}
    (accepted : (process disk strict source).result = .ok tree) : tree.file = source.id := by
  obtain ⟨scanned, read, made⟩ := exists_scan_of_accepted accepted
  obtain ⟨bytes, ended⟩ := scan_of_scanSource read
  rw [file_of_treeOfTokens made, Lexical.head?_file_of_scan ended, Option.getD_some]

/-- The routes agree on every text, with file zero as the direct route has it. For any file, the
lenient stages warn of every lexical error that the scan of the text emits, in the order of the
source, whatever their result; and a tree accepted from any source, strictly or not, bears the id of
that source. -/
theorem routes_agree (disk : Disk) (name text : String) :
    (∀ keep keep', RoutesAgree (parseText text) (completed disk (.ofText {} name text) true keep)
      (completed disk (.ofText {} name text) false keep')) ∧
    (∀ file keep, (completed disk (.ofText file name text) false keep).warnings =
        (Lexical.Scan.items { cursor := .ofText text, file }).filterMap Lexical.Item.error? ∧
      ((completed disk (.ofText file name text) false keep).warnings.map (·.span)).Pairwise
        Span.Before) ∧
    ∀ source strict keep tree, (completed disk source strict keep).result = .ok tree →
      tree.file = source.id := by
  refine ⟨routesAgree_completed disk name text, fun file keep => ?_, ?_⟩
  · have read : scanSource disk (.ofText file name text) = _ := Lexical.scan_ofText file text
    rw [warnings_completed, process_lenient read, Cursor.ofText_eq_standing]
    constructor
    · exact congrArg _ (Lexical.items_scanAt file [] text.toList false).symm
    · exact Lexical.pairwise_before_errors file text.toList
  · intro source strict keep tree accepted
    rw [result_completed] at accepted
    exact file_of_accepted accepted

end CherryLang
