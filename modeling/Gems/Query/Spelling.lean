import Gems.Query.Printing

set_option autoImplicit false

namespace Gems.Query

open Lib

section Spelling

variable (unicode : Unicode)

def White (gap : List Char) : Prop := ∀ c ∈ gap, isWhitespace c = true

def Lexable (s : String) : Prop :=
  ∃ c rest, s.toList = c :: rest ∧ Lexer.identStart unicode c = true ∧ ∀ d ∈ rest, Lexer.identPart unicode d = true

def quoteChar (c : Char) : List Char := if c = '\'' then ['\'', '\''] else [c]

inductive Spelling : Token → List Char → Prop
  | ident {s : String} (lexable : Lexable unicode s) : Spelling (.ident s) s.toList
  | str {s : String} : Spelling (.str s) ('\'' :: (s.toList.flatMap quoteChar ++ ['\'']))
  | num {n : ℕ} : Spelling (.num (.ofInt n)) (decimal n)
  | comma : Spelling .comma [',']
  | lParen : Spelling .lParen ['(']
  | rParen : Spelling .rParen [')']
  | dot : Spelling .dot ['.']
  | star : Spelling .star ['*']
  | eq : Spelling .eq ['=']
  | neq : Spelling .neq ['!', '=']
  | lt : Spelling .lt ['<']
  | lte : Spelling .lte ['<', '=']
  | gt : Spelling .gt ['>']
  | gte : Spelling .gte ['>', '=']

def extends_ : Token → Char → Bool
  | .ident _, c => Lexer.identPart unicode c
  | .num _, c => Lexer.numberPart c
  | .str _, c => c == '\''
  | .lt, c => c == '='
  | .gt, c => c == '='
  | _, _ => false

/-- Tokens with white space around them: any amount where the next character would not make the token before
it longer. -/
inductive Spelled : List Token → List Char → Prop
  | done {gap : List Char} (white : White gap) : Spelled [] gap
  | token {t : Token} {tokens : List Token} {gap word text : List Char} (white : White gap)
    (spelling : Spelling unicode t word) (apart : text.head?.any (extends_ unicode t) = false)
    (more : Spelled tokens text) : Spelled (t :: tokens) (gap ++ (word ++ text))

end Spelling

namespace Lexer

open Scanner

variable {unicode : Unicode}

section Words

variable {gap text rest : List Char} {c : Char} {size : Nat} {chars : List Char}

theorem dropWhile_white (white : White gap) (solid : isWhitespace c = false) :
    (gap ++ c :: text).dropWhile isWhitespace = c :: text := by
  rw [List.dropWhile_append_of_pos white, List.dropWhile_cons_of_neg]
  rw [solid]
  exact Bool.false_ne_true

theorem nextToken_white (white : White gap) : nextToken unicode size gap = .ok (.eof, []) := by
  have all : (gap ++ []).dropWhile isWhitespace = [].dropWhile isWhitespace := List.dropWhile_append_of_pos white
  rw [List.append_nil] at all
  rw [nextToken, takeWhile_bind, all]
  rfl

-- What the first character of a word decides.
theorem nextToken_head (white : White gap) (solid : isWhitespace c = false) :
    nextToken unicode size (gap ++ c :: text) =
      (if c = '\'' then lexString else if c.isDigit then lexNumber else if identStart unicode c then lexIdent unicode
        else lexSymbol (size - (encodeChars (c :: text)).length) c) (c :: text) := by
  rw [nextToken, takeWhile_bind, dropWhile_white white solid]
  rfl

theorem identStart_spec (start : identStart unicode c = true) :
    isWhitespace c = false ∧ c ≠ '\'' ∧ c.isDigit = false ∧ identPart unicode c = true := by
  have cases_start : unicode.isAlphabetic c = true ∨ c = '_' := by
    simpa [identStart] using start
  rcases cases_start with alphabetic | rfl
  next =>
    have known := unicode.ascii_alphabetic c
    refine ⟨?_, ?_, ?_, by rw [identPart, alphabetic]; rfl⟩
    next =>
      cases blank : isWhitespace c with
      | false => rfl
      | true =>
        rw [(unicode.white c blank).1] at alphabetic
        cases alphabetic
    next =>
      rintro rfl
      rw [known (by decide)] at alphabetic
      cases alphabetic
    next =>
      cases digit : c.isDigit with
      | false => rfl
      | true =>
        have bounds := isDigit_iff.mp digit
        rw [known (by omega)] at alphabetic
        have char := Char.ofNat_toNat c
        generalize c.toNat = code at bounds char
        subst char
        obtain ⟨low, high⟩ := bounds
        interval_cases code <;> cases alphabetic
  next => exact ⟨rfl, by decide, rfl, by simp [identPart]⟩

theorem nextToken_ident (white : White gap) {s : String} (lexable : Lexable unicode s)
    (apart : text.head?.any (identPart unicode) = false) :
    nextToken unicode size (gap ++ (s.toList ++ text)) = .ok (.ident s, text) := by
  obtain ⟨c, rest, shape, start, parts⟩ := lexable
  obtain ⟨solid, quote, digit, part⟩ := identStart_spec start
  have all : ∀ d ∈ s.toList, identPart unicode d = true := by
    rw [shape]
    exact List.forall_mem_cons.mpr ⟨part, parts⟩
  have taken := takeWhile_append (E := LexError) all apart
  rw [shape, List.cons_append] at taken
  rw [shape, List.cons_append, nextToken_head white solid, if_neg quote, digit, if_neg Bool.false_ne_true, start,
    if_pos rfl, lexIdent, bind_ok taken, ← shape, String.ofList_toList]
  rfl

theorem stringChars_quoted (apart : text.head?.any (· == '\'') = false) :
    stringChars (chars.flatMap quoteChar ++ '\'' :: text) = .ok (chars, text) := by
  induction chars with
  | nil =>
    cases text with
    | nil => rfl
    | cons c text =>
      have other : c ≠ '\'' := by simpa using apart
      simp [stringChars, other]
  | cons c chars ih =>
    rw [List.flatMap_cons, List.append_assoc, quoteChar]
    split
    next same =>
      rw [same]
      simp [stringChars, ih, bind, Except.bind, pure, Except.pure]
    next other => simp [stringChars, other, ih, bind, Except.bind, pure, Except.pure]

theorem nextToken_str (white : White gap) {s : String} (apart : text.head?.any (· == '\'') = false) :
    nextToken unicode size (gap ++ (('\'' :: (s.toList.flatMap quoteChar ++ ['\''])) ++ text)) =
      .ok (.str s, text) := by
  have read : (stringChars : Lexer (List Char)) (s.toList.flatMap quoteChar ++ '\'' :: text) = .ok (s.toList, text) :=
    stringChars_quoted apart
  rw [List.cons_append, List.append_assoc, List.singleton_append,
    nextToken_head white rfl, if_pos rfl, lexString, next_bind,
    List.tail_cons, bind_ok read, String.ofList_toList]
  rfl

theorem nextToken_num (white : White gap) {n : ℕ} (apart : text.head?.any numberPart = false) :
    nextToken unicode size (gap ++ (decimal n ++ text)) = .ok (.num (.ofInt n), text) := by
  have parts : ∀ d ∈ decimal n, numberPart d = true := by
    intro d mem
    rw [numberPart, decimal_isDigit mem]
    rfl
  have taken := takeWhile_append (E := LexError) parts apart
  have read := parseF64_decimal (n := n)
  have digits : ∀ d ∈ decimal n, d.isDigit = true := fun d mem => decimal_isDigit mem
  cases shape : decimal n with
  | nil => exact absurd shape decimal_ne_nil
  | cons c rest =>
    rw [shape] at taken read digits
    have digit := digits c List.mem_cons_self
    have quote : c ≠ '\'' := by
      rintro rfl
      cases digit
    rw [List.cons_append] at taken ⊢
    rw [nextToken_head white (not_isWhitespace_of_digit digit), if_neg quote,
      digit, if_pos rfl, lexNumber, bind_ok taken,
      read, F64.ofInt_natCast]
    rfl

theorem nextToken_symbol (white : White gap) (solid : isWhitespace c = false)
    (quote : c ≠ '\'') (digit : c.isDigit = false)
    (ascii : c.toNat < 128) (other : c.isAlpha = false) (line : c ≠ '_') :
    nextToken unicode size (gap ++ c :: text) = lexSymbol (size - (encodeChars (c :: text)).length) c (c :: text) := by
  have start : identStart unicode c = false := by
    rw [identStart, unicode.ascii_alphabetic c ascii, other]
    simpa using line
  rw [nextToken_head white solid, if_neg quote, digit, start]
  rfl

theorem withEquals_short {long short : Token} (apart : text.head?.any (· == '=') = false) :
    withEquals long short text = .ok (short, text) := by
  have other : text.head? ≠ some '=' := by
    intro head
    rw [head] at apart
    cases apart
  rw [withEquals, peek_bind, if_neg other]
  rfl

theorem nextToken_spelled (size : Nat) (white : White gap) {t : Token}
    {word : List Char} (spelling : Spelling unicode t word)
    (apart : text.head?.any (extends_ unicode t) = false) :
    nextToken unicode size (gap ++ (word ++ text)) = .ok (t, text) ∧ t ≠ .eof ∧ word ≠ [] := by
  cases spelling with
  | @ident s lexable =>
    refine ⟨nextToken_ident white lexable apart, by simp, ?_⟩
    obtain ⟨c, rest, shape, -⟩ := lexable
    rw [shape]
    exact List.cons_ne_nil _ _
  | str => exact ⟨nextToken_str white apart, by simp, List.cons_ne_nil _ _⟩
  | num => exact ⟨nextToken_num white apart, by simp, decimal_ne_nil⟩
  | lt =>
    refine ⟨(nextToken_symbol white rfl (by decide) rfl (by decide) rfl (by decide)).trans ?_, by decide,
      List.cons_ne_nil _ _⟩
    exact withEquals_short apart
  | gt =>
    refine ⟨(nextToken_symbol white rfl (by decide) rfl (by decide) rfl (by decide)).trans ?_, by decide,
      List.cons_ne_nil _ _⟩
    exact withEquals_short apart
  | _ => exact ⟨nextToken_symbol white rfl (by decide) rfl (by decide) rfl (by decide), by decide, List.cons_ne_nil _ _⟩

theorem tokens_spelled (size : Nat) {tokens : List Token} {text : List Char}
    (spelled : Spelled unicode tokens text) {fuel : Nat}
    (enough : text.length < fuel) : Lexer.tokens unicode size fuel text = .ok (tokens ++ [.eof], []) := by
  induction spelled generalizing fuel with
  | done white =>
    cases fuel with
    | zero => cases enough
    | succ fuel =>
      rw [Lexer.tokens, bind_ok (nextToken_white white)]
      rfl
  | @token t tokens gap word text white spelling apart more ih =>
    cases fuel with
    | zero => cases enough
    | succ fuel =>
      obtain ⟨read, not_eof, nonempty⟩ := nextToken_spelled size white spelling apart
      have positive := List.length_pos_iff.mpr nonempty
      rw [List.length_append, List.length_append] at enough
      rw [Lexer.tokens, bind_ok read, if_neg not_eof, bind_ok (ih (by omega))]
      rfl

end Words

end Lexer

section Names

variable {unicode : Unicode}

def Letters (s : String) : Prop := s.toList ≠ [] ∧ ∀ c ∈ s.toList, c.toNat < 128 ∧ c.isAlpha = true

instance : DecidablePred Letters := fun _ => inferInstanceAs (Decidable (_ ∧ _))

theorem Letters.lexable {s : String} (letters : Letters s) : Lexable unicode s := by
  have parts : ∀ c ∈ s.toList, unicode.isAlphabetic c = true := by
    intro c inside
    obtain ⟨ascii, letter⟩ := letters.2 c inside
    rw [unicode.ascii_alphabetic c ascii, letter]
  cases shape : s.toList with
  | nil => exact absurd shape letters.1
  | cons c rest =>
    rw [shape] at parts
    refine ⟨c, rest, shape, ?_, ?_⟩
    next => simp [Lexer.identStart, parts c List.mem_cons_self]
    next =>
      intro d inside
      simp [Lexer.identPart, parts d (List.mem_cons_of_mem _ inside)]

end Names

theorem parse_printed (unicode : Unicode) (q : Query) (tokens : List Token)
    (printed : QueryTokens q tokens) (text : List Char)
    (spelled : Spelled unicode tokens text) : parse unicode (String.ofList text) = .ok q := by
  have lexed := Lexer.tokens_spelled (utf8 (String.ofList text)).length spelled (Nat.lt_succ_self _)
  have tokenized : tokenize unicode (String.ofList text) = .ok (tokens ++ [.eof]) := by
    rw [tokenize, String.toList_ofList, lexed]
    rfl
  rw [parse, tokenized]
  dsimp only
  rw [Parser.parseAll_reads printed]
  rfl

end Gems.Query
