import CherryLang.Proofs.Lexical.LongestMatch
import CherryLang.Proofs.Lexical.Quotation

/-! Numerals by their grammar. A run of letters, digits, underscores and dots behind a digit is
classified by its first two characters and then by splitting it at marks; what comes out is what the
grammar says of it, and a run that it does not know is discarded as a whole. -/
namespace CherryLang.Lexical

namespace Number

def Between (low high c : Char) : Prop := low ≤ c ∧ c ≤ high

def Digits (sort : Char → Prop) (text : List Char) : Prop := text ≠ [] ∧ ∀ c ∈ text, sort c

def Hexadecimal : List Char → Prop :=
  Digits fun c => Between '0' '9' c ∨ Between 'a' 'f' c ∨ Between 'A' 'F' c

def Octal : List Char → Prop := Digits (Between '0' '7')

def Binary : List Char → Prop := Digits fun c => c = '0' ∨ c = '1'

def Decimal : List Char → Prop := Digits (Between '0' '9')

inductive Exponent : List Char → Prop
  | mk {mark : Char} {digits : List Char} : mark = 'e' ∨ mark = 'E' → Decimal digits →
    Exponent (mark :: digits)

inductive Mantissa : List Char → Prop
  | mk {whole fraction : List Char} : Decimal whole → Decimal fraction →
    Mantissa (whole ++ '.' :: fraction)

/-- The grammar of numerals. -/
inductive Numeral : Literal → List Char → Prop
  | hex {mark : Char} {digits : List Char} : mark = 'x' ∨ mark = 'X' → Hexadecimal digits →
    Numeral .hex ('0' :: mark :: digits)
  | octal {digits : List Char} : Octal digits → Numeral .octal ('0' :: 'o' :: digits)
  | binary {digits : List Char} : Binary digits → Numeral .binary ('0' :: 'b' :: digits)
  | integer {digits : List Char} : Decimal digits → Numeral .integer digits
  | fraction {mantissa : List Char} : Mantissa mantissa → Numeral .real mantissa
  | scaledFraction {mantissa exponent : List Char} : Mantissa mantissa → Exponent exponent →
    Numeral .real (mantissa ++ exponent)
  | scaled {whole exponent : List Char} : Decimal whole → Exponent exponent →
    Numeral .real (whole ++ exponent)

theorem isDigits_iff {valid : Char → Bool} {sort : Char → Prop}
    (same : ∀ c, valid c = true ↔ sort c) {text : List Char} :
    isDigits valid text = true ↔ Digits sort text := by
  simp [isDigits, Digits, same]

theorem isDigit_iff (c : Char) : c.isDigit = true ↔ Between '0' '9' c := by
  simp [Char.isDigit, Between, Char.le_def, UInt32.le_iff_toNat_le]

theorem isDecimal_iff {text : List Char} : isDigits Char.isDigit text = true ↔ Decimal text :=
  isDigits_iff isDigit_iff

theorem isHexadecimal_iff {text : List Char} :
    isDigits isHexDigit text = true ↔ Hexadecimal text :=
  isDigits_iff fun c => by simp [isHexDigit, isDigit_iff, Between, or_assoc]

theorem isOctal_iff {text : List Char} : isDigits isOctalDigit text = true ↔ Octal text :=
  isDigits_iff fun c => by simp [isOctalDigit, Between]

theorem isBinary_iff {text : List Char} : isDigits isBinaryDigit text = true ↔ Binary text :=
  isDigits_iff fun c => by simp [isBinaryDigit]

theorem split?_append {separator : Char → Bool} {c : Char} {before : List Char}
    (clean : ∀ d ∈ before, separator d = false) (separates : separator c = true)
    (behind : List Char) :
    split? separator (before ++ c :: behind) = some (before, behind) := by
  induction before with
  | nil => simp [split?, separates]
  | cons d before ih =>
    obtain ⟨first, others⟩ := List.forall_mem_cons.mp clean
    simp [split?, first, ih others]

theorem split?_eq_none {separator : Char → Bool} {text : List Char}
    (clean : ∀ d ∈ text, separator d = false) : split? separator text = none := by
  induction text with
  | nil => rfl
  | cons d text ih =>
    obtain ⟨first, others⟩ := List.forall_mem_cons.mp clean
    simp [split?, first, ih others]

theorem split?_eq_some {separator : Char → Bool} {text before behind : List Char}
    (found : split? separator text = some (before, behind)) :
    ∃ c, separator c = true ∧ text = before ++ c :: behind := by
  induction text generalizing before with
  | nil => cases found
  | cons d text ih =>
    rw [split?] at found
    split at found
    · next separates =>
      cases found
      exact ⟨d, separates, rfl⟩
    · obtain ⟨⟨inner, behind⟩, later, same⟩ := Option.map_eq_some_iff.mp found
      cases same
      obtain ⟨c, separates, rfl⟩ := ih later
      exact ⟨c, separates, rfl⟩

theorem isExponentMark_iff {c : Char} : isExponentMark c = true ↔ c = 'e' ∨ c = 'E' := by
  simp [isExponentMark]

theorem Decimal.plain {text : List Char} (digits : Decimal text) :
    ∀ c ∈ text, c ≠ '.' ∧ isExponentMark c = false := by
  intro c member
  have digit := (isDigit_iff c).mpr (digits.2 c member)
  constructor
  · rintro rfl
    cases digit
  · cases marked : isExponentMark c with
    | false => rfl
    | true =>
      obtain rfl | rfl := isExponentMark_iff.mp marked <;> cases digit

theorem Mantissa.unmarked {text : List Char} (mantissa : Mantissa text) :
    ∀ c ∈ text, isExponentMark c = false := by
  obtain ⟨whole, fraction⟩ := mantissa
  intro c member
  obtain before | rfl | behind := by simpa using member
  · exact (whole.plain c before).2
  · rfl
  · exact (fraction.plain c behind).2

theorem split?_mantissa {text : List Char} (mantissa : Mantissa text) :
    ∃ whole fraction, split? (· == '.') text = some (whole, fraction) ∧
      Decimal whole ∧ Decimal fraction := by
  obtain ⟨whole, fraction⟩ := mantissa
  refine ⟨_, _, split?_append (fun d member => ?_) rfl _, whole, fraction⟩
  simpa using (whole.plain d member).1

theorem split?_decimal {text : List Char} (digits : Decimal text) :
    split? (· == '.') text = none :=
  split?_eq_none fun d member => by simpa using (digits.plain d member).1

theorem split?_scaled {mantissa exponent : List Char}
    (unmarked : ∀ c ∈ mantissa, isExponentMark c = false) (scale : Exponent exponent) :
    ∃ digits, split? isExponentMark (mantissa ++ exponent) = some (mantissa, digits) ∧
      Decimal digits := by
  obtain ⟨mark, digits⟩ := scale
  exact ⟨_, split?_append unmarked (isExponentMark_iff.mpr mark) _, digits⟩

theorem Mantissa.of_split? {text whole fraction : List Char}
    (found : split? (· == '.') text = some (whole, fraction))
    (digits : (isDigits Char.isDigit whole && isDigits Char.isDigit fraction) = true) :
    Mantissa text := by
  obtain ⟨c, dot, rfl⟩ := split?_eq_some found
  obtain rfl : c = '.' := by simpa using dot
  obtain ⟨before, behind⟩ := Bool.and_eq_true_iff.mp digits
  exact .mk (isDecimal_iff.mp before) (isDecimal_iff.mp behind)

theorem isReal_iff {text : List Char} : isReal text = true ↔ Numeral .real text := by
  constructor
  · intro real
    unfold isReal at real
    dsimp only at real
    split at real
    · next mantissa digits scaled =>
      obtain ⟨mark, marked, rfl⟩ := split?_eq_some scaled
      obtain ⟨accepted, scale⟩ := Bool.and_eq_true_iff.mp real
      have exponent : Exponent (mark :: digits) :=
        .mk (isExponentMark_iff.mp marked) (isDecimal_iff.mp scale)
      split at accepted
      · next found => exact .scaledFraction (.of_split? found accepted) exponent
      · exact .scaled (isDecimal_iff.mp accepted) exponent
    · split at real
      · next found => exact .fraction (.of_split? found real)
      · cases real
  · intro numeral
    cases numeral with
    | fraction mantissa =>
      obtain ⟨whole, fraction, found, before, behind⟩ := split?_mantissa mantissa
      simp [isReal, split?_eq_none mantissa.unmarked, found, isDecimal_iff, before, behind]
    | scaledFraction mantissa scale =>
      obtain ⟨digits, scaled, exponent⟩ := split?_scaled mantissa.unmarked scale
      obtain ⟨whole, fraction, found, before, behind⟩ := split?_mantissa mantissa
      simp [isReal, scaled, found, isDecimal_iff, before, behind, exponent]
    | scaled whole scale =>
      obtain ⟨digits, scaled, exponent⟩ :=
        split?_scaled (fun c member => (whole.plain c member).2) scale
      simp [isReal, scaled, split?_decimal whole, isDecimal_iff, whole, exponent]

theorem Mantissa.dot_mem {text : List Char} (mantissa : Mantissa text) : '.' ∈ text := by
  obtain ⟨-, -⟩ := mantissa
  simp

theorem Exponent.exists_mark {text : List Char} (scale : Exponent text) :
    ∃ c ∈ text, isExponentMark c = true := by
  obtain ⟨mark, -⟩ := scale
  exact ⟨_, .head _, isExponentMark_iff.mpr mark⟩

theorem Decimal.not_real {text : List Char} (digits : Decimal text) : ¬ Numeral .real text := by
  have dotless : '.' ∉ text := fun member => (digits.plain '.' member).1 rfl
  intro numeral
  cases numeral with
  | fraction mantissa => exact dotless mantissa.dot_mem
  | scaledFraction mantissa scale => exact dotless (List.mem_append_left _ mantissa.dot_mem)
  | scaled whole scale =>
    obtain ⟨c, member, mark⟩ := scale.exists_mark
    simp [(digits.plain c (List.mem_append_right _ member)).2] at mark

/-- What a decimal numeral is made of. No letter of a base is among it. -/
def IsPart (c : Char) : Prop := Between '0' '9' c ∨ c = '.' ∨ c = 'e' ∨ c = 'E'

theorem Decimal.parts {text : List Char} (digits : Decimal text) : ∀ c ∈ text, IsPart c :=
  fun c member => .inl (digits.2 c member)

theorem Mantissa.parts {text : List Char} (mantissa : Mantissa text) : ∀ c ∈ text, IsPart c := by
  obtain ⟨whole, fraction⟩ := mantissa
  exact List.forall_mem_append.mpr
    ⟨whole.parts, List.forall_mem_cons.mpr ⟨.inr (.inl rfl), fraction.parts⟩⟩

theorem Exponent.parts {text : List Char} (scale : Exponent text) : ∀ c ∈ text, IsPart c := by
  obtain ⟨mark, digits⟩ := scale
  exact List.forall_mem_cons.mpr ⟨.inr (.inr mark), digits.parts⟩

theorem Numeral.parts_of_real {text : List Char} (numeral : Numeral .real text) :
    ∀ c ∈ text, IsPart c := by
  cases numeral with
  | fraction mantissa => exact mantissa.parts
  | scaledFraction mantissa scale => exact List.forall_mem_append.mpr ⟨mantissa.parts, scale.parts⟩
  | scaled whole scale => exact List.forall_mem_append.mpr ⟨whole.parts, scale.parts⟩

theorem classify?_of_parts {text : List Char} (parts : ∀ c ∈ text, IsPart c) :
    classify? text =
      if isDigits Char.isDigit text then some .integer
      else if isReal text then some .real
      else none := by
  have other : ∀ letter digits, text = '0' :: letter :: digits → IsPart letter := by
    rintro letter digits rfl
    exact parts letter (.tail _ (.head _))
  unfold classify?
  split
  · exact absurd (other _ _ rfl) (by unfold IsPart Between; decide)
  · exact absurd (other _ _ rfl) (by unfold IsPart Between; decide)
  · exact absurd (other _ _ rfl) (by unfold IsPart Between; decide)
  · exact absurd (other _ _ rfl) (by unfold IsPart Between; decide)
  · rfl

theorem classify?_eq_some_iff {run : List Char} {form : Literal} :
    classify? run = some form ↔ Numeral form run := by
  constructor
  · intro found
    unfold classify? at found
    split at found
    · obtain ⟨digits, ⟨⟩⟩ := Option.ite_none_right_eq_some.mp found
      exact .hex (.inl rfl) (isHexadecimal_iff.mp digits)
    · obtain ⟨digits, ⟨⟩⟩ := Option.ite_none_right_eq_some.mp found
      exact .hex (.inr rfl) (isHexadecimal_iff.mp digits)
    · obtain ⟨digits, ⟨⟩⟩ := Option.ite_none_right_eq_some.mp found
      exact .octal (isOctal_iff.mp digits)
    · obtain ⟨digits, ⟨⟩⟩ := Option.ite_none_right_eq_some.mp found
      exact .binary (isBinary_iff.mp digits)
    · split at found
      · next digits =>
        cases found
        exact .integer (isDecimal_iff.mp digits)
      · obtain ⟨real, ⟨⟩⟩ := Option.ite_none_right_eq_some.mp found
        exact isReal_iff.mp real
  · intro numeral
    have real (numeral : Numeral .real run) : classify? run = some .real := by
      have other : ¬ isDigits Char.isDigit run = true :=
        fun digits => (isDecimal_iff.mp digits).not_real numeral
      rw [classify?_of_parts numeral.parts_of_real, if_neg other, if_pos (isReal_iff.mpr numeral)]
    cases numeral with
    | hex mark digits =>
      obtain rfl | rfl := mark <;> simp [classify?, isHexadecimal_iff.mpr digits]
    | octal digits => simp [classify?, isOctal_iff.mpr digits]
    | binary digits => simp [classify?, isBinary_iff.mpr digits]
    | integer digits => rw [classify?_of_parts digits.parts, if_pos (isDecimal_iff.mpr digits)]
    | fraction mantissa => exact real (.fraction mantissa)
    | scaledFraction mantissa scale => exact real (.scaledFraction mantissa scale)
    | scaled whole scale => exact real (.scaled whole scale)

example : classify? ['1', '2', '.', '5', 'e', '3'] = some .real := by decide

example : classify? ['0', 'x', '1', 'e', '3'] = some .hex := by decide

example : classify? ['1', 'e', '2', '.', '5'] = none := by decide

end Number

open Number

/-- The piece that a run of a number makes: a literal of the form that its grammar gives it, or an
error that discards it. -/
structure Numbered (run : List Char) (piece : Piece) : Prop where
  numeral : ∀ form, Numeral form run → piece = .token (.literal form) run
  malformed : (∀ form, ¬ Numeral form run) →
    ∃ quoted, piece = .error .malformedNumber run [] quoted

theorem numbered_numberPiece (run left : List Char) : Numbered run (numberPiece run left) := by
  constructor
  · intro form numeral
    rw [numberPiece, classify?_eq_some_iff.mpr numeral]
  · intro unknown
    have none : classify? run = none :=
      Option.eq_none_iff_forall_ne_some.mpr fun form found =>
        unknown form (classify?_eq_some_iff.mp found)
    rw [numberPiece, none]
    exact ⟨_, rfl⟩

/-- A run is classified exactly by the grammar of numerals. Wherever a lexeme of a text begins with
a digit, the scan takes the longest run of letters, digits, underscores and dots. It emits a literal
of its form, or if it has none an error with the whole run as its lexeme, and goes on behind it. -/
theorem scan_numerals (file : FileId) (text : String) :
    (∀ run form, classify? run = some form ↔ Numeral form run) ∧
      ∃ pieces : List Piece,
        pieces.flatMap Piece.text = text.toList ∧
          Scan.items { cursor := .ofText text, file := file } = emitted file [] pieces ∧
          ∀ done piece later c rest, pieces = done ++ piece :: later →
            (piece :: later).flatMap Piece.text = c :: rest → c.isDigit = true →
            ∃ run, Longest IsNumber (c :: rest) run ∧
              run ++ later.flatMap Piece.text = c :: rest ∧ Numbered run piece := by
  refine ⟨fun _ _ => classify?_eq_some_iff, pieces text.toList, flatMap_text_pieces _, ?_, ?_⟩
  · rw [Cursor.ofText_eq_standing]
    exact items_scanAt file [] text.toList false
  · intro done piece later c rest split begins digit
    obtain ⟨d, tail, -, rfl, rfl⟩ := pieces_split split
    rw [List.flatMap_cons, flatMap_text_pieces, text_front] at begins
    obtain ⟨rfl, rfl⟩ := List.cons.inj begins
    have keeps : State.number.keeps = fun e => InputClass.isLetter e || e.isDigit || e == '.' :=
      funext keeps_number
    have found : front d tail =
        (numberPiece (d :: tail.takeWhile State.number.keeps) (tail.dropWhile State.number.keeps),
          tail.dropWhile State.number.keeps) := by
      simp only [front, class_digit digit]
    refine ⟨d :: tail.takeWhile State.number.keeps, ?_, ?_, ?_⟩
    · rw [keeps]
      exact longest_run digit tail
    · rw [flatMap_text_pieces, found, List.cons_append, List.takeWhile_append_dropWhile]
    · rw [found]
      exact numbered_numberPiece _ _

end CherryLang.Lexical
