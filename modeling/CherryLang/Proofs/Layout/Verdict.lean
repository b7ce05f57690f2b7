import CherryLang.Outcome.Text
import CherryLang.Proofs.Layout.Checking
import CherryLang.Proofs.Layout.Parsing
import CherryLang.Proofs.Layout.Spelling

/-! The verdict on a text depends on its lexemes only. Tokens of two texts with the same lexemes are
both those of one list, in which the number of a token stands for its place, moved to the places of
either text. Since places increase along a text, both moves keep the order of the numbers. -/
namespace CherryLang

section

variable {spans : List Span}

def lineBehind : List Span → Nat
  | [] => 0
  | span :: spans => span.line + 1 + lineBehind spans

theorem line_lt_lineBehind {span : Span} (member : span ∈ spans) :
    span.line < lineBehind spans := by
  induction spans with
  | nil => cases member
  | cons first spans ih =>
    unfold lineBehind
    cases member with
    | head => omega
    | tail _ later =>
      have further := ih later
      omega

/-- The place with the number `number.line`. Behind the last of `spans` every line is a place. -/
def placed (spans : List Span) (number : Span) : Span :=
  spans[number.line]?.getD ⟨lineBehind spans + number.line, 0⟩

theorem placed_before (increasing : spans.Pairwise Span.Before) {a b : Span}
    (earlier : a.line < b.line) : (placed spans a).Before (placed spans b) := by
  unfold placed
  by_cases inside : b.line < spans.length
  · have ordered := List.pairwise_iff_getElem.mp increasing a.line b.line (by omega) inside earlier
    rwa [List.getElem?_eq_getElem inside, List.getElem?_eq_getElem (by omega)]
  · rw [List.getElem?_eq_none (by omega : spans.length ≤ b.line)]
    by_cases first : a.line < spans.length
    · rw [List.getElem?_eq_getElem first]
      have bounded := line_lt_lineBehind (List.getElem_mem first)
      exact .inl (Nat.lt_add_right _ bounded)
    · rw [List.getElem?_eq_none (by omega : spans.length ≤ a.line)]
      exact .inl (by simpa using earlier)

theorem Span.Before.le {a b : Span} (before : a.Before b) : a.le b = true ∧ b.le a = false := by
  unfold Span.Before at before
  simp only [Span.le, Bool.or_eq_true, Bool.and_eq_true, Bool.or_eq_false_iff,
    Bool.and_eq_false_iff, decide_eq_true_eq, decide_eq_false_iff_not, beq_iff_eq,
    beq_eq_false_iff_ne]
  omega

theorem placed_le (increasing : spans.Pairwise Span.Before) (a b : Span) :
    (placed spans a).le (placed spans b) = decide (a.line ≤ b.line) := by
  obtain earlier | same | later := Nat.lt_trichotomy a.line b.line
  · rw [(placed_before increasing earlier).le.1, decide_eq_true (by omega)]
  · simp [placed, same, Span.le]
  · rw [(placed_before increasing later).le.2, decide_eq_false (by omega)]

end

def numbered (n : Nat) : List Token → List Token
  | [] => []
  | t :: ts => { t with span := ⟨n, 0⟩ } :: numbered (n + 1) ts

theorem map_numbered {α : Type} {g : Token → α} (blind : ∀ (t : Token) (span : Span),
    g { t with span := span } = g t) (n : Nat) (ts : List Token) :
    (numbered n ts).map g = ts.map g := by
  induction ts generalizing n with
  | nil => rfl
  | cons t ts ih => simp only [numbered, List.map_cons, blind, ih]

theorem spelled_numbered {ts : List Token} (spelled : Lexical.Spelled ts) (n : Nat) :
    Lexical.Spelled (numbered n ts) := by
  induction ts generalizing n with
  | nil => trivial
  | cons t ts ih =>
    obtain ⟨⟨called, kind, opens⟩, later⟩ := spelled
    refine ⟨⟨called, kind, fun call => ?_⟩, ih later (n + 1)⟩
    have kinds := congrArg List.head? (map_numbered (g := (·.kind)) (fun _ _ => rfl) (n + 1) ts)
    rw [List.head?_map, List.head?_map] at kinds
    rw [kinds]
    exact opens call

theorem map_span_numbered (n : Nat) (ts : List Token) :
    (numbered n ts).map (·.span) = (List.range' n ts.length).map (⟨·, 0⟩) := by
  induction ts generalizing n with
  | nil => rfl
  | cons t ts ih => simp [numbered, ih, List.range'_succ]

theorem map_placed_numbered {ts : List Token} {spans : List Span}
    (length : spans.length = ts.length) :
    (numbered 0 ts).map (fun t => placed spans t.span) = spans := by
  have split : (numbered 0 ts).map (fun t => placed spans t.span) =
      ((numbered 0 ts).map (·.span)).map (placed spans) := by simp
  rw [split, map_span_numbered, ← length]
  apply List.ext_getElem
  · simp
  · intro i _ inside
    simp [placed, inside]

namespace Lexical

theorem sublist_map_span {α : Type} {pick : Item → Option α} {span : α → Span}
    (own : ∀ item a, pick item = some a → item.span? = some (span a)) (items : List Item) :
    ((items.filterMap pick).map span).Sublist (items.filterMap Item.span?) := by
  induction items with
  | nil => exact .slnil
  | cons item items ih =>
    cases picked : pick item with
    | none =>
      rw [List.filterMap_cons_none picked]
      exact ih.trans ((List.sublist_cons_self item items).filterMap Item.span?)
    | some a =>
      rw [List.filterMap_cons_some picked, List.filterMap_cons_some (own item a picked)]
      exact ih.cons_cons (span a)

theorem span?_of_token? (item : Item) (t : Token) (picked : item.token? = some t) :
    item.span? = some t.span := by
  cases item <;> cases picked
  rfl

theorem pairwise_before_tokens (file : FileId) (text : List Char) :
    ((tokensBehind file [] text).map (·.span)).Pairwise Span.Before :=
  (pairwise_before_emitted file [] (laid_pieces text)).sublist (sublist_map_span span?_of_token? _)

theorem map_file_tokensBehind (file : FileId) (before text : List Char) :
    (tokensBehind file before text).map (·.file) =
      List.replicate (tokensBehind file before text).length file := by
  rw [List.eq_replicate_iff]
  refine ⟨List.length_map _, ?_⟩
  fun_induction pieces text generalizing before with
  | case1 => simp [tokensBehind_nil]
  | case2 c rest ih =>
    intro found member
    rw [tokensBehind_cons, List.map_append] at member
    obtain here | later := List.mem_append.mp member
    · cases piece : (front c rest).1 <;> simp_all [Piece.item?]
    · exact ih _ found later

theorem tokens_of_tokenize {text : String} {ts : List Token} {errors : List Error}
    (scanned : tokenize text = .ok ⟨ts, errors⟩) : ts = tokensBehind {} [] text.toList := by
  rw [tokenize, scan_ofText] at scanned
  cases scanned
  rfl

theorem tokenize_of_clean {text : String}
    (clean : (emitted {} [] (pieces text.toList)).filterMap Item.error? = []) :
    tokenize text = .ok ⟨tokensBehind {} [] text.toList, []⟩ := by
  rw [tokenize, scan_ofText, clean]
  rfl

end Lexical

/-- The same answer up to places: two trees, or two failures to parse, or the same errors in the
same order. -/
inductive SameVerdict : Except TextError Tree → Except TextError Tree → Prop
  | accepted {tree tree' : Tree} :
    tree.respan nowhere = tree'.respan nowhere → SameVerdict (.ok tree) (.ok tree')
  | unparsed {e e' : Syntax.Error} : SameVerdict (.error (.unparsed e)) (.error (.unparsed e'))
  | rejected {errors errors' : List Scope.Error} :
    errors.map (·.kind.respan nowhere) = errors'.map (·.kind.respan nowhere) →
    SameVerdict (.error (.rejected errors)) (.error (.rejected errors'))

theorem Tree.respan_nowhere (f : Span → Span) (tree : Tree) :
    (tree.respan f).respan nowhere = tree.respan nowhere := Tree.respan_respan f nowhere tree

theorem Scope.map_kind_respan (f : Span → Span) (errors : List Scope.Error) :
    (errors.map (Scope.Error.respan f)).map (·.kind.respan nowhere) =
      errors.map (·.kind.respan nowhere) := by
  rw [List.map_map]
  apply List.map_congr_left
  rintro ⟨kind, span⟩ _
  cases kind <;> rfl

theorem Scope.exists_check_respan {f h : Span → Span}
    (ordered : ∀ a b : Span, (f a).le (f b) = (h a).le (h b)) (tree : Tree) :
    ∃ errors : List Scope.Error, Scope.check (tree.respan f) = errors.map (Scope.Error.respan f) ∧
      Scope.check (tree.respan h) = errors.map (Scope.Error.respan h) := by
  refine ⟨_, Scope.check_respan f tree, ?_⟩
  simp only [ordered]
  exact Scope.check_respan h tree

theorem Lexical.Spelled.alike_numbered {ts us : List Token} (spelled : Lexical.Spelled ts)
    (spelled' : Lexical.Spelled us) (lexemes : ts.map (·.lexeme) = us.map (·.lexeme))
    (files : ts.map (·.file) = us.map (·.file)) :
    Syntax.Alike (placed (us.map (·.span))) (numbered 0 ts) us := by
  have length : us.length = ts.length := by simpa using congrArg List.length lexemes.symm
  apply (spelled_numbered spelled 0).alike spelled'
  · rw [map_numbered fun _ _ => rfl, lexemes]
  · rw [map_numbered fun _ _ => rfl, files]
  · exact map_placed_numbered (by rw [List.length_map, length])

theorem Lexical.tokensBehind_alike {ts us : List Token} {a b : List Char}
    (tokens : ts = Lexical.tokensBehind {} [] a) (tokens' : us = Lexical.tokensBehind {} [] b)
    (lexemes : ts.map (·.lexeme) = us.map (·.lexeme)) :
    Syntax.Alike (placed (us.map (·.span))) (numbered 0 ts) us := by
  have length : ts.length = us.length := by simpa using congrArg List.length lexemes
  have spelled := Lexical.spelled_tokensBehind {} [] a
  have spelled' := Lexical.spelled_tokensBehind {} [] b
  have files := Lexical.map_file_tokensBehind {} [] a
  have files' := Lexical.map_file_tokensBehind {} [] b
  rw [← tokens] at spelled files
  rw [← tokens'] at spelled' files'
  exact spelled.alike_numbered spelled' lexemes (by rw [files, files', length])

theorem parseText_of_tokenize {text : String} {ts : List Token}
    (scanned : tokenize text = .ok ⟨ts, []⟩) :
    parseText text = match Syntax.parse ts with
      | .error e => .error (.unparsed e)
      | .ok tree =>
        match Scope.check tree with
        | [] => .ok tree
        | errors => .error (.rejected errors) := by
  unfold parseText
  generalize tokenize text = result at scanned ⊢
  subst scanned
  rfl

/-- Two texts that scan without errors to the same lexemes get the same verdict, whatever stands
between the lexemes. -/
theorem parseText_layout {a b : String} {ts us : List Token} (scanned : tokenize a = .ok ⟨ts, []⟩)
    (scanned' : tokenize b = .ok ⟨us, []⟩) (lexemes : ts.map (·.lexeme) = us.map (·.lexeme)) :
    SameVerdict (parseText a) (parseText b) := by
  have tokens := Lexical.tokens_of_tokenize scanned
  have tokens' := Lexical.tokens_of_tokenize scanned'
  have alike := Lexical.tokensBehind_alike tokens tokens rfl
  have alike' := Lexical.tokensBehind_alike tokens tokens' lexemes
  rw [parseText_of_tokenize scanned, parseText_of_tokenize scanned']
  obtain ⟨tree, parsed, moved⟩ | ⟨e, e₁, failed, failed₁⟩ := Syntax.parse_alike alike
  · obtain ⟨tree', parsed', moved'⟩ | ⟨e', _, failed', _⟩ := Syntax.parse_alike alike'
    · obtain rfl : tree = tree' := Except.ok.inj (parsed.symm.trans parsed')
      have increasing := Lexical.pairwise_before_tokens {} a.toList
      have increasing' := Lexical.pairwise_before_tokens {} b.toList
      rw [← tokens] at increasing
      rw [← tokens'] at increasing'
      obtain ⟨errors, found, found'⟩ := Scope.exists_check_respan
        (fun a b => (placed_le increasing a b).trans (placed_le increasing' a b).symm) tree
      rw [moved, moved']
      simp only [found, found']
      cases errors with
      | nil =>
        apply SameVerdict.accepted
        rw [Tree.respan_nowhere, Tree.respan_nowhere]
      | cons e errors =>
        apply SameVerdict.rejected
        rw [Scope.map_kind_respan, Scope.map_kind_respan]
    · simp [parsed] at failed'
  · obtain ⟨tree', parsed', _⟩ | ⟨e', e₂, _, failed₂⟩ := Syntax.parse_alike alike'
    · simp [failed] at parsed'
    · rw [failed₁, failed₂]
      exact .unparsed

theorem parseText_layout_call :
    (Lexical.tokensBehind {} [] "int n=f(n);".toList).map (·.kind) ≠
        (Lexical.tokensBehind {} [] "int n = f\n( /* n */ n ) ;".toList).map (·.kind) ∧
      SameVerdict (parseText "int n=f(n);") (parseText "int n = f\n( /* n */ n ) ;") := by
  refine ⟨by decide +kernel, ?_⟩
  apply parseText_layout
  · exact Lexical.tokenize_of_clean (by decide +kernel)
  · exact Lexical.tokenize_of_clean (by decide +kernel)
  · decide +kernel

end CherryLang
