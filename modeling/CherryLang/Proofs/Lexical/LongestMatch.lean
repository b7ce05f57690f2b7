import CherryLang.Proofs.Layout.Spelling
import CherryLang.Proofs.Lexical.Operator
import CherryLang.Proofs.Text.Cut

namespace CherryLang

theorem Kind.mem_all (kind : Kind) : kind ∈ all := by
  have literals (form : Literal) : form ∈ Literal.all := by cases form <;> decide
  have primitives (type : Primitive) : type ∈ Primitive.all := by cases type <;> decide
  have modifiers (word : Modifier) : word ∈ Modifier.all := by cases word <;> decide
  have keywords (word : Keyword) : word ∈ Keyword.all := by cases word <;> decide
  have functions (f : MathFunction) : f ∈ MathFunction.all := by cases f <;> decide
  cases kind <;>
    simp [all, literals, primitives, modifiers, keywords, functions, Symbol.mem_all]

namespace Lexical
open InputClass (isLetter isSymbol)

/-- `lexeme` is the longest beginning of `text` of this form. -/
structure Longest (form : List Char → Prop) (text lexeme : List Char) : Prop where
  inside : lexeme <+: text
  formed : form lexeme
  longest : ∀ other, other <+: text → form other → other.length ≤ lexeme.length

def Run (first more : Char → Bool) : List Char → Prop
  | [] => False
  | c :: rest => first c = true ∧ ∀ d ∈ rest, more d = true

def IsWord : List Char → Prop := Run isLetter fun d => isLetter d || d.isDigit

def IsNumber : List Char → Prop := Run Char.isDigit fun d => isLetter d || d.isDigit || d == '.'

/-- The kind of a word in front of `left`: what is reserved stands for itself, and a name counts as
a method directly before a parenthesis. -/
structure WordClass (word left : List Char) (kind : Kind) : Prop where
  truth : String.ofList word = "true" ∨ String.ofList word = "false" → kind = .literal .boolean
  reserved : ∀ other : Kind, other.isReserved = true → other.surface = String.ofList word →
    kind = other
  name : String.ofList word ≠ "true" → String.ofList word ≠ "false" →
    (∀ other : Kind, other.isReserved = true → other.surface ≠ String.ofList word) →
    kind = if left.head? = some '(' then .methodIdentifier else .identifier

/-- A string or character literal begins with its quote. -/
def IsQuoted (lexeme : List Char) (kind : Kind) : Prop :=
  lexeme.head? = some '"' ∧ kind = .literal .string ∨
    lexeme.head? = some '\'' ∧ kind = .literal .character

/-- A token of this kind with this lexeme, and `left` behind it, is what the text `c :: rest`
begins with. -/
structure Classified (c : Char) (rest : List Char) (kind : Kind) (lexeme left : List Char) :
    Prop where
  text : lexeme ++ left = c :: rest
  defined : kind ≠ .undefined
  live : kind ≠ .endOfStream
  word : isLetter c = true → Longest IsWord (c :: rest) lexeme ∧ WordClass lexeme left kind
  number : c.isDigit = true → Longest IsNumber (c :: rest) lexeme ∧
    ∃ form, Number.classify? lexeme = some form ∧ kind = .literal form
  operator : isSymbol c = true ∨ c = '.' →
    ¬ ['/', '/'] <+: c :: rest ∧ ¬ ['/', '*'] <+: c :: rest ∧
      Longest IsOperator (c :: rest) lexeme ∧
      ∃ s : Symbol, kind = .symbol s ∧ s.surface.toList = lexeme
  quoted : isLetter c = false → c.isDigit = false → isSymbol c = false → c ≠ '.' →
    IsQuoted lexeme kind

theorem longest_run {first more : Char → Bool} {c : Char} (starts : first c = true)
    (rest : List Char) : Longest (Run first more) (c :: rest) (c :: rest.takeWhile more) where
  inside := (List.prefix_cons_inj c).mpr (List.takeWhile_prefix more)
  formed := ⟨starts, fun d member => List.all_eq_true.mp List.all_takeWhile d member⟩
  longest := by
    intro other inside formed
    cases other with
    | nil => exact absurd formed id
    | cons d tail =>
      obtain ⟨rfl, within⟩ := List.cons_prefix_cons.mp inside
      obtain ⟨left, rfl⟩ := within
      rw [List.takeWhile_append_of_pos formed.2]
      simp

theorem keeps_word (d : Char) : State.word.keeps d = (isLetter d || d.isDigit) := by
  simp only [State.keeps, InputClass.of]
  grind [State.next]

theorem keeps_number (d : Char) :
    State.number.keeps d = (isLetter d || d.isDigit || d == '.') := by
  simp only [State.keeps, InputClass.of]
  grind [State.next]

theorem class_digit {c : Char} (digit : c.isDigit = true) : InputClass.of c = .digit := by
  have other : isLetter c = false := by
    rw [InputClass.isLetter, Bool.or_eq_false_iff, beq_eq_false_iff_ne]
    constructor
    · change (decide ('0'.val ≤ c.val) && decide (c.val ≤ '9'.val)) = true at digit
      change (decide ('A'.val ≤ c.val ∧ c.val ≤ 'Z'.val) || c.isLower) = false
      change (_ || (decide ('a'.val ≤ c.val) && decide (c.val ≤ 'z'.val))) = false
      grind
    · rintro rfl
      exact absurd digit (by decide)
  simp [InputClass.of, other, digit]

theorem of_isSymbol {p : Char → Bool} {c : Char} (operator : isSymbol c = true ∨ c = '.')
    (all : ['.', '+', '-', '*', '/', '%', '=', '!', '<', '>', '&', '|', '^', '~', '(', ')', '\x7b',
      '\x7d', '[', ']', ';', ',', ':', '?'].all p = true) : p c = true := by
  obtain symbol | rfl := operator
  · exact List.all_eq_true.mp all c (.tail _ (List.contains_iff_mem.mp symbol))
  · exact List.all_eq_true.mp all _ (.head _)

theorem class_operator {c : Char} (operator : isSymbol c = true ∨ c = '.') :
    InputClass.of c = .dot ∨ InputClass.of c = .symbol := by
  have sort : decide (InputClass.of c = .dot ∨ InputClass.of c = .symbol) = true :=
    of_isSymbol (p := fun d => decide (InputClass.of d = .dot ∨ InputClass.of d = .symbol))
      operator (by decide)
  exact of_decide_eq_true sort

theorem isOperator_singleton {c : Char} (operator : isSymbol c = true ∨ c = '.') :
    IsOperator [c] := by
  have spelled : Symbol.all.any (fun s => s.surface.toList == [c]) = true :=
    of_isSymbol (p := fun d => Symbol.all.any fun s => s.surface.toList == [d]) operator
      (by decide +kernel)
  obtain ⟨s, -, same⟩ := List.any_eq_true.mp spelled
  exact ⟨s, by simpa using same⟩

theorem keyword?_surface_all : ∀ kind ∈ Kind.all, kind.isReserved = true →
    Kind.keyword? kind.surface = some kind := by
  decide +kernel

theorem wordClass_wordKind (word left : List Char) :
    WordClass word left (wordKind word left.head?) where
  truth := by
    intro truth
    simp [wordKind, Kind.keyword?, truth]
  reserved := by
    intro other reserved spelled
    rw [wordKind, ← spelled, keyword?_surface_all other (Kind.mem_all other) reserved]
    rfl
  name := by
    intro true' false' unreserved
    have unknown : Kind.keyword? (String.ofList word) = none := by
      simp only [Kind.keyword?, beq_iff_eq, true', false', if_false, or_self, Bool.or_eq_true,
        Option.filter_eq_none_iff]
      intro other listed reserved
      exact unreserved other reserved (by simpa using List.find?_some listed)
    rw [wordKind, unknown]
    rfl

section

variable {c : Char} {rest lexeme : List Char} {kind : Kind}

theorem front_word (letter : isLetter c = true) (found : (front c rest).1 = .token kind lexeme) :
    Longest IsWord (c :: rest) lexeme ∧ WordClass lexeme (front c rest).2 kind := by
  have sort : InputClass.of c = .letter := by simp [InputClass.of, letter]
  have keeps : State.word.keeps = fun d => isLetter d || d.isDigit := funext keeps_word
  simp only [front, sort, wordPiece, Piece.token.injEq] at found ⊢
  obtain ⟨rfl, rfl⟩ := found
  refine ⟨?_, wordClass_wordKind _ _⟩
  rw [keeps]
  exact longest_run letter rest

theorem front_number (digit : c.isDigit = true) (found : (front c rest).1 = .token kind lexeme) :
    Longest IsNumber (c :: rest) lexeme ∧
      ∃ form, Number.classify? lexeme = some form ∧ kind = .literal form := by
  have keeps : State.number.keeps = fun d => isLetter d || d.isDigit || d == '.' :=
    funext keeps_number
  simp only [front, class_digit digit, numberPiece] at found
  split at found
  · next form classified =>
    cases found
    refine ⟨?_, form, classified, rfl⟩
    rw [keeps]
    exact longest_run digit rest
  · cases found

theorem longest_operator {run left : List Char} (known : Known run)
    (stops : ∀ d ∈ left.head?, ¬ Known (run ++ [d])) (line : run ≠ ['/', '/'])
    (block : run ≠ ['/', '*']) :
    ¬ ['/', '/'] <+: run ++ left ∧ ¬ ['/', '*'] <+: run ++ left ∧
      Longest IsOperator (run ++ left) run := by
  have short : ∀ other, other <+: run ++ left → Known other → other.length ≤ run.length := by
    intro other inside formed
    refine Nat.le_of_not_lt fun longer => ?_
    -- The other one has the next character, and would be known as far as that.
    obtain ⟨more, rfl⟩ := List.prefix_of_prefix_length_le (List.prefix_append run left) inside
      (Nat.le_of_lt longer)
    cases more with
    | nil => simp at longer
    | cons d more =>
      have next : left.head? = some d := by
        obtain ⟨tail, rfl⟩ := (List.prefix_append_right_inj run).mp inside
        rfl
      exact stops d next (formed.of_prefix (by simp) (by simp))
  have closed : ∀ opening, opening = ['/', '/'] ∨ opening = ['/', '*'] → run ≠ opening →
      ¬ opening <+: run ++ left := by
    intro opening comment other inside
    have length := short opening inside (.inr comment)
    have within := List.prefix_of_prefix_length_le inside (List.prefix_append run left) length
    exact other (known.eq_of_comment comment within)
  refine ⟨closed _ (.inl rfl) line, closed _ (.inr rfl) block, List.prefix_append run left, ?_,
    fun other inside operator => short other inside (.inl operator)⟩
  obtain operator | rfl | rfl := known
  · exact operator
  · exact absurd rfl line
  · exact absurd rfl block

theorem front_operator (operator : isSymbol c = true ∨ c = '.')
    (found : (front c rest).1 = .token kind lexeme) :
    ¬ ['/', '/'] <+: c :: rest ∧ ¬ ['/', '*'] <+: c :: rest ∧
      Longest IsOperator (c :: rest) lexeme ∧
      ∃ s : Symbol, kind = .symbol s ∧ s.surface.toList = lexeme := by
  have piece : (front c rest) = symbolPiece (c :: symbolRun [c] rest)
      (rest.drop (symbolRun [c] rest).length) := by
    obtain sort | sort := class_operator operator <;> simp only [front, sort]
  rw [piece] at found
  generalize run_eq : c :: symbolRun [c] rest = run at found
  generalize left_eq : rest.drop (symbolRun [c] rest).length = left at found
  have text : run ++ left = c :: rest := by
    rw [← run_eq, ← left_eq, List.cons_append, symbolRun_append_drop]
  have known : Known run := by
    rw [← run_eq]
    exact known_append_symbolRun rest (.inl (isOperator_singleton operator))
  have stops : ∀ d ∈ left.head?, ¬ Known (run ++ [d]) := by
    intro d next
    obtain ⟨tail, rfl⟩ := List.head?_eq_some_iff.mp next
    have stop : ¬ Known ([c] ++ symbolRun [c] rest ++ [d]) :=
      not_known_of_symbolRun (by rw [← left_eq, symbolRun_append_drop])
    rwa [← run_eq]
  obtain ⟨rfl, kinded⟩ := kind_symbolPiece found
  unfold symbolPiece at found
  split at found
  · cases found
  · next line =>
    split at found
    · split at found <;> cases found
    · next block =>
      have longest := longest_operator known stops line block
      rw [text] at longest
      obtain ⟨s, spelled⟩ := longest.2.2.formed
      refine ⟨longest.1, longest.2.1, longest.2.2, s, ?_, spelled⟩
      rw [kinded, symbolKind, symbol?_eq_some_iff.mpr ⟨s, rfl, spelled⟩]
      rfl

theorem front_quoted (found : (front c rest).1 = .token kind lexeme) (letter : isLetter c = false)
    (digit : c.isDigit = false) (symbol : isSymbol c = false) (dot : c ≠ '.') :
    IsQuoted lexeme kind := by
  by_cases quote : c = '"' ∨ c = '\''
  · have sort : InputClass.of c = .quote := by obtain rfl | rfl := quote <;> decide
    simp only [front, sort] at found
    obtain ⟨⟨more, rfl⟩, rfl⟩ := kind_literalPiece found
    obtain rfl | rfl := quote
    · exact .inl ⟨rfl, rfl⟩
    · exact .inr ⟨rfl, rfl⟩
  · have sort : InputClass.of c = .whitespace ∨ InputClass.of c = .newline ∨
        InputClass.of c = .other := by
      grind [InputClass.of]
    obtain sort | sort | sort := sort <;> simp [front, sort] at found

theorem WordClass.sorts {word left : List Char} (sort : WordClass word left kind) :
    kind = .literal .boolean ∨ kind.isReserved = true ∨ kind.isName = true := by
  by_cases truth : String.ofList word = "true" ∨ String.ofList word = "false"
  · exact .inl (sort.truth truth)
  · by_cases reserved : ∃ other : Kind, other.isReserved = true ∧ other.surface = String.ofList word
    · obtain ⟨other, known, spelled⟩ := reserved
      rw [sort.reserved other known spelled]
      exact .inr (.inl known)
    · have named := sort.name (fun same => truth (.inl same)) (fun same => truth (.inr same))
        fun other known spelled => reserved ⟨other, known, spelled⟩
      rw [named]
      split <;> simp [Kind.isName]

theorem front_kind (found : (front c rest).1 = .token kind lexeme) :
    (∃ form, kind = .literal form) ∨ kind.isReserved = true ∨ kind.isName = true ∨
      ∃ s : Symbol, kind = .symbol s ∧ s.surface.toList = lexeme := by
  by_cases letter : isLetter c = true
  · obtain truth | reserved | name := (front_word letter found).2.sorts
    · exact .inl ⟨_, truth⟩
    · exact .inr (.inl reserved)
    · exact .inr (.inr (.inl name))
  · by_cases digit : c.isDigit = true
    · obtain ⟨-, form, -, same⟩ := front_number digit found
      exact .inl ⟨form, same⟩
    · by_cases operator : isSymbol c = true ∨ c = '.'
      · exact .inr (.inr (.inr (front_operator operator found).2.2.2))
      · obtain ⟨symbol, dot⟩ := not_or.mp operator
        obtain ⟨-, same⟩ | ⟨-, same⟩ := front_quoted found (Bool.eq_false_iff.mpr letter)
          (Bool.eq_false_iff.mpr digit) (Bool.eq_false_iff.mpr symbol) dot
        · exact .inl ⟨_, same⟩
        · exact .inl ⟨_, same⟩

theorem classified_front (found : (front c rest).1 = .token kind lexeme) :
    Classified c rest kind lexeme (front c rest).2 where
  text := by
    have text := text_front c rest
    rwa [found] at text
  live := by
    have fits := fits_front c rest
    rw [found] at fits
    exact fits.1
  defined := by
    rintro rfl
    simpa [Kind.isReserved_iff, Kind.isName] using front_kind found
  word := fun letter => front_word letter found
  number := fun digit => front_number digit found
  operator := fun operator => front_operator operator found
  quoted := front_quoted found

end

/-- `later` are the tokens behind `t`, which comes out in front of `ahead`. -/
def Heads (file : FileId) (before ahead : List Char) (t : Token) (later : List Token) : Prop :=
  match ahead with
  | [] => t.kind = .endOfStream ∧ t.lexeme = "" ∧ later = []
  | c :: rest => (front c rest).1 = .token t.kind t.lexeme.toList ∧
      later = tokensBehind file (before ++ t.lexeme.toList) (front c rest).2

theorem tokensBehind_split {file : FileId} {before text : List Char} {done later : List Token}
    {t : Token} (split : tokensBehind file before text = done ++ t :: later) :
    ∃ more ahead, more ++ ahead = text ∧ t.span = place (before ++ more) ∧
      Heads file (before ++ more) ahead t later := by
  fun_induction pieces text generalizing before done with
  | case1 =>
    rw [tokensBehind_nil] at split
    cases done with
    | nil =>
      obtain ⟨rfl, rfl⟩ := List.cons.inj split
      exact ⟨[], [], rfl, by simp, rfl, rfl, rfl⟩
    | cons u done => simp at split
  | case2 c rest ih =>
    have text := text_front c rest
    have further : ∀ done, tokensBehind file (before ++ (front c rest).1.text) (front c rest).2 =
        done ++ t :: later → ∃ more ahead, more ++ ahead = c :: rest ∧
          t.span = place (before ++ more) ∧ Heads file (before ++ more) ahead t later := by
      intro done behind
      obtain ⟨more, ahead, inside, span, heads⟩ := ih behind
      refine ⟨(front c rest).1.text ++ more, ahead, ?_, ?_, ?_⟩
      · rw [List.append_assoc, inside, text]
      · rwa [← List.append_assoc]
      · rwa [← List.append_assoc]
    rw [tokensBehind_cons] at split
    cases found : (front c rest).1 with
    | token kind lexeme =>
      rw [found] at split further
      cases done with
      | nil =>
        obtain ⟨rfl, rfl⟩ := List.cons.inj split
        exact ⟨[], c :: rest, rfl, by simp, by simp [found], by simp [Piece.text]⟩
      | cons u done => exact further done (List.cons.inj split).2
    | blank d | line body closed | block body | error kind lexeme lost quoted =>
      rw [found] at split further
      exact further done split

theorem place_append_flat (before : List Char) {word : List Char} (flat : '\n' ∉ word) :
    place (before ++ word) = ⟨(place before).line, (place before).column + word.length⟩ := by
  have none : word.count '\n' = 0 := List.count_eq_zero.mpr flat
  simp only [place, List.count_append, none, List.reverse_append,
    Text.takeWhile_append_of_flat (mt List.mem_reverse.mp flat), List.length_append,
    List.length_reverse, Nat.add_zero, Span.mk.injEq, true_and]
  omega

theorem eq_nil_of_place_eq {before more : List Char}
    (same : place (before ++ more) = place before) : more = [] := by
  cases more with
  | nil => rfl
  | cons d more =>
    have later := place_before_append before (List.cons_ne_nil d more)
    rw [same] at later
    unfold Span.Before at later
    omega

/-- Whether a parenthesis follows `t` without a gap. -/
def Touches (t : Token) (next : Option Token) : Prop :=
  ∃ paren, next = some paren ∧ paren.kind = .symbol .leftParen ∧
    paren.span = ⟨t.span.line, t.span.column + t.lexeme.length⟩

theorem IsWord.flat {word : List Char} (formed : IsWord word) : '\n' ∉ word := by
  cases word with
  | nil => exact absurd formed id
  | cons c rest =>
    intro member
    obtain rfl | inside := List.mem_cons.mp member
    · exact absurd formed.1 (by decide)
    · exact absurd (formed.2 _ inside) (by decide)

theorem touches_iff {file : FileId} {before left : List Char} {t : Token}
    (span : t.span = place before) (flat : '\n' ∉ t.lexeme.toList) :
    left.head? = some '(' ↔
      Touches t (tokensBehind file (before ++ t.lexeme.toList) left).head? := by
  have there : (⟨t.span.line, t.span.column + t.lexeme.length⟩ : Span) =
      place (before ++ t.lexeme.toList) := by
    rw [place_append_flat before flat, span, String.length_toList]
  unfold Touches
  rw [there]
  constructor
  · intro opens
    obtain ⟨rest, rfl⟩ := List.head?_eq_some_iff.mp opens
    exact ⟨⟨.symbol .leftParen, "(", file, place (before ++ t.lexeme.toList)⟩,
      by simp [tokensBehind_cons, front_paren, Piece.item?], rfl, rfl⟩
  · rintro ⟨paren, next, kind, near⟩
    obtain ⟨later, split⟩ := List.head?_eq_some_iff.mp next
    rw [← List.nil_append (paren :: later)] at split
    obtain ⟨more, ahead, rfl, span', heads⟩ := tokensBehind_split split
    rw [near] at span'
    obtain rfl := eq_nil_of_place_eq span'.symm
    cases ahead with
    | nil => exact absurd (kind.symm.trans heads.1) (by simp)
    | cons c rest =>
      have spelled : ['('] = paren.lexeme.toList := by
        simpa [kind, Kind.isReserved_iff, Kind.isName, Symbol.surface] using
          front_kind heads.1
      have text := (classified_front heads.1).text
      rw [← spelled] at text
      simp [← (List.cons.inj text).1]

/-- What the token `t` is that comes out in front of `ahead`, with `next` as the one behind it. -/
def Matches (ahead : List Char) (t : Token) (next : Option Token) : Prop :=
  match ahead with
  | [] => t.kind = .endOfStream ∧ t.lexeme = ""
  | c :: rest => ∃ left, Classified c rest t.kind t.lexeme.toList left ∧
      (isLetter c = true → (left.head? = some '(' ↔ Touches t next))

/-- Every token of a scan comes out in front of an end of the text, at the place where that begins,
and is the longest match there: a word, a number, an operator, a literal in quotes, or the end of
the stream at the end of the text. A name counts as a method exactly if a parenthesis follows
without a gap, which the next token shows as well. -/
theorem scan_longest_match (file : FileId) (text : String) :
    ∃ scanned, scan file (.ofText text) = .ok scanned ∧
      ∀ done t later, scanned.tokens = done ++ t :: later →
        ∃ before ahead, before ++ ahead = text.toList ∧ t.span = place before ∧
          Matches ahead t later.head? := by
  refine ⟨_, scan_ofText file text, fun done t later split => ?_⟩
  obtain ⟨before, ahead, inside, span, heads⟩ := tokensBehind_split split
  rw [List.nil_append] at span heads
  refine ⟨before, ahead, inside, span, ?_⟩
  cases ahead with
  | nil => exact ⟨heads.1, heads.2.1⟩
  | cons c rest =>
    obtain ⟨found, rfl⟩ := heads
    have classified := classified_front found
    refine ⟨(front c rest).2, classified, fun letter => ?_⟩
    exact touches_iff span (classified.word letter).1.formed.flat

end Lexical

end CherryLang
