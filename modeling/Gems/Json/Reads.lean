import Gems.Json.Grammar
import Mathlib.Data.List.DropRight

set_option autoImplicit false

namespace Gems.Json.Parser

open Lib Scanner

variable {A B : Type}

/-- The parser reads `a` and leaves `rest`, unless it meets a surrogate. -/
def Gives (m : Parser A) (text : List Char) (a : A) (rest : List Char) (pairs : Bool) : Prop :=
  if pairs then ∃ hex, m text = .error (.notStandalone hex) else m text = .ok (a, rest)

-- What may stand behind a value.
def Ends (rest : List Char) : Prop := ∀ c ∈ rest.head?, isGap c = true ∨ c = ',' ∨ c = ']' ∨ c = '}'

section Rules

variable {m : Parser A} {f : A → Parser B} {a : A} {b : B} {text mid rest : List Char} {pairs pairs' : Bool}

theorem Gives.ok (run : m text = .ok (a, rest)) : Gives m text a rest false := run

theorem Gives.bind (first : Gives m text a mid pairs) (next : Gives (f a) mid b rest pairs') :
    Gives (m >>= f) text b rest (pairs || pairs') := by
  cases pairs with
  | false =>
    rw [Bool.false_or, Gives, bind_ok first]
    exact next
  | true =>
    obtain ⟨hex, failed⟩ := first
    exact ⟨hex, bind_error failed⟩

theorem Gives.after (first : m text = .ok (a, mid)) (next : Gives (f a) mid b rest pairs) :
    Gives (m >>= f) text b rest pairs := by
  rw [Gives, bind_ok first]
  exact next

theorem Gives.result (first : Gives m text a rest pairs) (g : A → B) :
    Gives (m >>= fun a => pure (g a)) text (g a) rest pairs := by
  have last : Gives (pure (g a)) rest (g a) rest false := .ok rfl
  have whole := first.bind (f := fun a => pure (g a)) last
  rwa [Bool.or_false] at whole

end Rules

section Space

variable {gap rest : List Char} {c : Char}

theorem isWhitespace_of_isGap (gap : isGap c = true) : isWhitespace c = true := by
  simp only [isGap, Bool.or_eq_true, beq_iff_eq] at gap
  rcases gap with ((rfl | rfl) | rfl) | rfl <;> rfl

theorem dropWhile_gap (space : Gap gap) : (gap ++ rest).dropWhile isWhitespace = rest.dropWhile isWhitespace :=
  List.dropWhile_append_of_pos fun c mem => isWhitespace_of_isGap (space c mem)

theorem skipWhitespace_gap (space : Gap gap) (stop : rest.head?.all (fun c => !isWhitespace c) = true) :
    skipWhitespace (gap ++ rest) = .ok ((), rest) := by
  change Except.ok ((), (gap ++ rest).dropWhile isWhitespace) = _
  rw [dropWhile_gap space]
  cases rest with
  | nil => rfl
  | cons c rest =>
    have solid : isWhitespace c = false := by simpa using stop
    rw [List.dropWhile_cons_of_neg]
    rw [solid]
    exact Bool.false_ne_true

theorem ends_gap (space : Gap gap) (ends : Ends rest) : Ends (gap ++ rest) := by
  cases gap with
  | nil => exact ends
  | cons c gap =>
    intro d head
    cases head
    exact .inl (space c List.mem_cons_self)

theorem expect_cons : expect c (c :: rest) = .ok ((), rest) := by simp [expect]

end Space

section Strings

variable {text body chars hex rest : List Char} {c : Char} {code fuel : Nat} {pairs : Bool}

theorem takeFour_append (n : Nat) (size : hex.length = n) : takeFour n (hex ++ rest) = .ok (hex, rest) := by
  induction n generalizing hex with
  | zero =>
    rw [List.length_eq_zero_iff.mp size]
    rfl
  | succ n ih =>
    cases hex with
    | nil => cases size
    | cons c hex =>
      have more := ih (Nat.succ.inj size)
      simp only [takeFour, next_bind, List.cons_append, List.head?_cons, List.tail_cons]
      rw [bind_ok more]
      rfl

theorem parseUnicodeEscape_quad (quad : Quad hex code) : parseUnicodeEscape (hex ++ rest) =
    if surrogate code then .error (.notStandalone hex) else .ok (Char.ofNat code, rest) := by
  rw [parseUnicodeEscape, bind_ok (takeFour_append 4 quad.four), quad.read]
  have valid := quad.isValidChar_iff
  cases half : surrogate code with
  | true =>
    have invalid : ¬code.isValidChar := by simp [valid, half]
    simp [invalid]
  | false =>
    have scalar : code.isValidChar := valid.mpr half
    simp [scalar]

theorem parseEscape_short {e : Char} (escape : (e, c) ∈ escapes) : parseEscape (e :: rest) = .ok (c, rest) := by
  simp only [escapes, List.mem_cons, Prod.mk.injEq, List.not_mem_nil, or_false] at escape
  rcases escape with ⟨rfl, rfl⟩ | ⟨rfl, rfl⟩ | ⟨rfl, rfl⟩ | ⟨rfl, rfl⟩ |
    ⟨rfl, rfl⟩ | ⟨rfl, rfl⟩ | ⟨rfl, rfl⟩ | ⟨rfl, rfl⟩
  all_goals rfl

theorem parseEscape_unicode : parseEscape ('u' :: rest) = parseUnicodeEscape rest := rfl

theorem parseChars_plain (quote : c ≠ '"') (slash : c ≠ '\\') :
    parseChars (fuel + 1) (c :: rest) = (parseChars fuel >>= fun chars => pure (c :: chars)) rest := by
  simp [parseChars]

theorem parseChars_escape : parseChars (fuel + 1) ('\\' :: rest) =
    (parseEscape >>= fun c => parseChars fuel >>= fun chars => pure (c :: chars)) rest := by
  simp [parseChars]

-- One character, in whatever way it is written.
theorem charText_gives (first : CharText text c pairs) {chars : List Char} {pairs' : Bool}
    (more : Gives (parseChars fuel) body chars rest pairs') :
    Gives (parseChars (fuel + 1)) (text ++ body) (c :: chars) rest (pairs || pairs') := by
  have later := more.result (c :: ·)
  cases first with
  | plain printed quote slash =>
    rw [List.singleton_append, Bool.false_or, Gives, parseChars_plain quote slash]
    exact later
  | short escape =>
    rw [Bool.false_or, Gives]
    simp only [List.cons_append, List.nil_append, parseChars_escape]
    rw [bind_ok (parseEscape_short escape)]
    exact later
  | code quad scalar =>
    rw [Bool.false_or, Gives]
    simp only [List.cons_append, parseChars_escape]
    rw [bind_ok (by rw [parseEscape_unicode, parseUnicodeEscape_quad quad, scalar]; rfl)]
    exact later
  | @pair hex hex' high low quad quad' is_high is_low =>
    have half : surrogate high = true := by
      simp only [surrogate, Bool.and_eq_true, decide_eq_true_eq]
      omega
    refine ⟨hex, ?_⟩
    simp only [List.cons_append, List.append_assoc, parseChars_escape]
    exact bind_error (by rw [parseEscape_unicode, parseUnicodeEscape_quad quad, half]; rfl)
  | @lone hex code quad half =>
    refine ⟨hex, ?_⟩
    simp only [List.cons_append, parseChars_escape]
    exact bind_error (by rw [parseEscape_unicode, parseUnicodeEscape_quad quad, half]; rfl)

theorem charText_ne_nil (written : CharText text c pairs) : 0 < text.length := by
  cases written <;> simp

theorem charsText_length (inside : CharsText body chars pairs) : chars.length ≤ body.length := by
  induction inside with
  | nil => exact le_refl _
  | cons first more ih =>
    have positive := charText_ne_nil first
    rw [List.length_cons, List.length_append]
    omega

theorem parseChars_gives (inside : CharsText body chars pairs) (enough : chars.length < fuel) :
    Gives (parseChars fuel) (body ++ '"' :: rest) chars rest pairs := by
  induction inside generalizing fuel with
  | nil =>
    cases fuel with
    | zero => cases enough
    | succ fuel => exact Gives.ok (by simp [parseChars])
  | cons first more ih =>
    cases fuel with
    | zero => cases enough
    | succ fuel =>
      rw [List.append_assoc]
      exact charText_gives first (ih (by simpa using enough))

theorem parseString_gives (rest : List Char) {s : String} (quoted : StringText text s pairs) :
    Gives parseString (text ++ rest) s rest pairs := by
  cases quoted with
  | @quoted body chars pairs inside =>
    have short := charsText_length inside
    have enough : chars.length < (body ++ '"' :: rest).length + 1 := by
      rw [List.length_append]
      omega
    rw [List.cons_append, List.append_assoc, List.singleton_append]
    apply Gives.after expect_cons
    exact Gives.result (parseChars_gives inside enough) String.ofList

end Strings

section Numbers

variable {text whole fraction part exponent rest : List Char} {c : Char} {e : ℤ} {n : F64} {p : Char → Bool}

theorem optional_none (other : text.head?.any p = false) : optional p text = .ok ([], text) := by
  simp [optional, other]

theorem optional_some (taken : p c = true) : optional p (c :: rest) = .ok ([c], rest) := by
  simp only [optional, peek_bind, List.head?_cons, Option.any_some, taken, if_true]
  rfl

theorem digit_ne {d : Char} (digit : c.isDigit = true) (other : d.isDigit = false) : c ≠ d := by
  rintro rfl
  rw [digit] at other
  cases other

theorem digits_head (all : Digits whole) (nonempty : whole ≠ []) (none : ∀ c, c.isDigit = true → p c = false) :
    (whole ++ rest).head?.any p = false := by
  cases whole with
  | nil => exact absurd rfl nonempty
  | cons c whole => exact none c (all c List.mem_cons_self)

theorem digits_append (all : Digits whole) (stop : rest.head?.any Char.isDigit = false) :
    digits (whole ++ rest) = .ok (whole, rest) :=
  takeWhile_append all stop

theorem Ends.head (ends : Ends rest) (none : ∀ c, isGap c = true ∨ c = ',' ∨ c = ']' ∨ c = '}' → p c = false) :
    rest.head?.any p = false := by
  cases rest with
  | nil => rfl
  | cons c rest => exact none c (ends c rfl)

theorem not_numeric (behind : isGap c = true ∨ c = ',' ∨ c = ']' ∨ c = '}') :
    c.isDigit = false ∧ c ≠ '.' ∧ c ≠ 'e' ∧ c ≠ 'E' := by
  simp only [isGap, Bool.or_eq_true, beq_iff_eq] at behind
  rcases behind with (((rfl | rfl) | rfl) | rfl) | rfl | rfl | rfl
  all_goals decide

theorem exponentPart_append (raised : Exponent exponent e) (ends : Ends rest) :
    exponentPart (exponent ++ rest) = .ok (exponent, rest) := by
  have stop : rest.head?.any Char.isDigit = false := ends.head fun c behind => (not_numeric behind).1
  cases raised with
  | none =>
    have other : rest.head?.any (fun c => c == 'e' || c == 'E') = false :=
      ends.head fun c behind => by simp [(not_numeric behind).2.2]
    rw [List.nil_append, exponentPart, bind_ok (optional_none other)]
    rfl
  | @plain mark ds letter all nonempty =>
    have taken : (mark == 'e' || mark == 'E') = true := by simpa using letter
    have unsigned : (ds ++ rest).head?.any (fun c => c == '+' || c == '-') = false :=
      digits_head all nonempty fun c digit => by
        simp [digit_ne digit (show '+'.isDigit = false by rfl), digit_ne digit (show '-'.isDigit = false by rfl)]
    rw [List.cons_append, exponentPart, bind_ok (optional_some taken)]
    simp only [List.cons_ne_nil, if_false]
    rw [bind_ok (optional_none unsigned), bind_ok (digits_append all stop)]
    rfl
  | @plus mark ds letter all nonempty =>
    have taken : (mark == 'e' || mark == 'E') = true := by simpa using letter
    simp only [List.cons_append, exponentPart]
    rw [bind_ok (optional_some taken)]
    simp only [List.cons_ne_nil, if_false]
    rw [bind_ok (optional_some rfl), bind_ok (digits_append all stop)]
    rfl
  | @minus mark ds letter all nonempty =>
    have taken : (mark == 'e' || mark == 'E') = true := by simpa using letter
    simp only [List.cons_append, exponentPart]
    rw [bind_ok (optional_some taken)]
    simp only [List.cons_ne_nil, if_false]
    rw [bind_ok (optional_some rfl), bind_ok (digits_append all stop)]
    rfl

-- No exponent goes on with the digits before it.
theorem exponent_head (raised : Exponent exponent e) (ends : Ends rest)
    (none : ∀ c, isGap c = true ∨ c = ',' ∨ c = ']' ∨ c = '}' → p c = false)
    (mark : p 'e' = false) (mark' : p 'E' = false) :
    (exponent ++ rest).head?.any p = false := by
  cases raised with
  | none => exact ends.head none
  | plain letter all nonempty => rcases letter with rfl | rfl <;> assumption
  | plus letter all nonempty => rcases letter with rfl | rfl <;> assumption
  | minus letter all nonempty => rcases letter with rfl | rfl <;> assumption

theorem fractionPart_append (pointed : Fraction fraction part) (stop : rest.head?.any Char.isDigit = false)
    (no_point : rest.head?.any (· == '.') = false) : fractionPart (fraction ++ rest) = .ok (fraction, rest) := by
  cases pointed with
  | none =>
    rw [List.nil_append, fractionPart, bind_ok (optional_none no_point)]
    rfl
  | some all nonempty =>
    simp only [List.cons_append, fractionPart]
    rw [bind_ok (optional_some rfl)]
    simp only [List.cons_ne_nil, if_false]
    rw [bind_ok (digits_append all stop)]
    rfl

theorem parseExponent_spelled (raised : Exponent exponent e) : parseExponent exponent = some e := by
  cases raised with
  | none => rfl
  | @plain mark ds letter all nonempty =>
    cases ds with
    | nil => exact absurd rfl nonempty
    | cons d ds =>
      have not_plus := digit_ne (all d List.mem_cons_self) (show '+'.isDigit = false by rfl)
      have not_minus := digit_ne (all d List.mem_cons_self) (show '-'.isDigit = false by rfl)
      have every : ∀ c ∈ ds, c.isDigit = true := fun c mem => all c (List.mem_cons_of_mem d mem)
      simp [parseExponent, unsigned, letter, not_plus, not_minus, all d List.mem_cons_self, List.all_eq_true.mpr every]
  | @plus mark ds letter all nonempty =>
    simp [parseExponent, unsigned, letter, nonempty, List.all_eq_true.mpr all]
  | @minus mark ds letter all nonempty =>
    simp [parseExponent, unsigned, letter, nonempty, List.all_eq_true.mpr all]

theorem parseDecimal_spelled (digits : Whole whole) (pointed : Fraction fraction part) (raised : Exponent exponent e) :
    parseDecimal (whole ++ (fraction ++ exponent)) = some (numeral whole part e) := by
  have read := parseExponent_spelled raised
  cases pointed with
  | none => exact parseDecimal_whole digits.1 digits.2.1 read
  | some all nonempty => exact parseDecimal_pointed digits.1 all digits.2.1 read

theorem parseNumber_parts (sign : List Char) (digits : Whole whole) (pointed : Fraction fraction part)
    (raised : Exponent exponent e) (ends : Ends rest)
    (signed : optional (· == '-') (sign ++ (whole ++ (fraction ++ (exponent ++ rest)))) =
      .ok (sign, whole ++ (fraction ++ (exponent ++ rest))))
    (read : parseF64 (sign ++ (whole ++ (fraction ++ exponent))) = some n) :
    parseNumber (sign ++ (whole ++ (fraction ++ (exponent ++ rest)))) = .ok (.number n, rest) := by
  have stop : (exponent ++ rest).head?.any Char.isDigit = false :=
    exponent_head raised ends (fun c behind => (not_numeric behind).1) rfl rfl
  have no_point : (exponent ++ rest).head?.any (· == '.') = false :=
    exponent_head raised ends (fun c behind => by simp [(not_numeric behind).2.1]) rfl rfl
  have stop' : (fraction ++ (exponent ++ rest)).head?.any Char.isDigit = false := by
    cases pointed with
    | none => exact stop
    | some all nonempty => rfl
  rw [parseNumber, bind_ok signed, bind_ok (digits_append digits.1 stop'),
    bind_ok (fractionPart_append pointed stop no_point), bind_ok (exponentPart_append raised ends)]
  simp [read]

theorem parseNumber_append (numeral : NumberText text n) (ends : Ends rest) :
    parseNumber (text ++ rest) = .ok (.number n, rest) := by
  cases numeral with
  | @positive whole fraction part exponent e digits pointed raised =>
    have signed : optional (· == '-') (whole ++ (fraction ++ (exponent ++ rest))) = .ok ([], whole ++ _) :=
      optional_none (digits_head digits.1 digits.2.1 fun c digit => by
        simp [digit_ne digit (show '-'.isDigit = false by rfl)])
    have value := parseDecimal_spelled digits pointed raised
    rw [List.append_assoc, List.append_assoc]
    apply parseNumber_parts [] digits pointed raised ends signed
    cases whole with
    | nil => exact absurd rfl digits.2.1
    | cons c whole =>
      rw [List.nil_append, List.cons_append, parseF64_digit (digits.1 c List.mem_cons_self), ← List.cons_append, value]
      rfl
  | @negative whole fraction part exponent e digits pointed raised =>
    have value := parseDecimal_spelled digits pointed raised
    rw [List.cons_append, List.append_assoc, List.append_assoc]
    apply parseNumber_parts ['-'] digits pointed raised ends (optional_some rfl)
    cases whole with
    | nil => exact absurd rfl digits.2.1
    | cons c whole =>
      rw [List.singleton_append, List.cons_append, parseF64_minus (digits.1 c List.mem_cons_self),
        ← List.cons_append, value]
      rfl

end Numbers

section Items

variable {E : Type} {item : Parser A} {text after : E → List Char} {value : E → A} {pairs : E → Bool} {close : Char}
  {gap rest : List Char} {fuel : Nat}

theorem count_commaSeparated (texts : List (List Char)) : texts.length ≤ (commaSeparated texts).count ',' + 1 := by
  induction texts with
  | nil => exact Nat.zero_le _
  | cons t texts ih =>
    cases texts with
    | nil => simp
    | cons t' texts =>
      rw [commaSeparated, List.count_append, List.count_cons_self]
      next =>
        rw [List.length_cons]
        omega
      next => exact List.cons_ne_nil _ _

theorem count_dropWhile (text : List Char) : (text.dropWhile isWhitespace).count ',' = text.count ',' := by
  have split := List.takeWhile_append_dropWhile (p := isWhitespace) (l := text)
  have none : (text.takeWhile isWhitespace).count ',' = 0 := by
    rw [List.count_eq_zero]
    intro mem
    cases List.all_eq_true.mp List.all_takeWhile ',' mem
  rw [← congrArg (List.count ',') split, List.count_append, none, Nat.zero_add]

theorem solid_cons {c : Char} (solid : isWhitespace c = false) :
    (c :: rest).head?.all (fun c => !isWhitespace c) = true := by
  simp [solid]

-- Each item, the space behind it, and a comma or the closing bracket.
theorem parseItems_gives (rest : List Char) (bracket : close = ']' ∨ close = '}')
    (items : List E) (nonempty : items ≠ [])
    (space : ∀ e ∈ items, Gap (after e))
    (each : ∀ e ∈ items, ∀ rest, Ends rest → Gives item (text e ++ rest) (value e) rest (pairs e))
    (enough : items.length ≤ fuel) :
    Gives (parseItems item close fuel)
      (commaSeparated (items.map fun e => text e ++ after e) ++ close :: rest)
      (items.map value) rest (items.any pairs) := by
  have closing : isWhitespace close = false := by
    rcases bracket with rfl | rfl <;> rfl
  have no_comma : close ≠ ',' := by
    rcases bracket with rfl | rfl <;> decide
  have closes : Ends (close :: rest) := by
    intro c head
    cases head
    exact .inr (.inr bracket)
  induction items generalizing fuel with
  | nil => exact absurd rfl nonempty
  | cons e items ih =>
    cases fuel with
    | zero => cases enough
    | succ fuel =>
      have space' := space e List.mem_cons_self
      have first := each e List.mem_cons_self
      rw [parseItems]
      cases items with
      | nil =>
        have whole := first (after e ++ close :: rest) (ends_gap space' closes)
        simp only [List.map_cons, List.map_nil, commaSeparated, List.append_assoc, List.any_cons, List.any_nil]
        apply Gives.bind whole
        apply Gives.after (skipWhitespace_gap space' (solid_cons closing))
        exact Gives.ok (by simp [no_comma])
      | cons e' items =>
        have comma : Ends (',' :: (commaSeparated ((e' :: items).map fun e => text e ++ after e) ++
          close :: rest)) := by
          intro c head
          cases head
          exact .inr (.inl rfl)
        have whole := first _ (ends_gap space' comma)
        have more := ih (List.cons_ne_nil _ _) (fun e mem => space e (List.mem_cons_of_mem _ mem))
          (fun e mem => each e (List.mem_cons_of_mem _ mem)) (Nat.le_of_succ_le_succ enough)
        rw [List.map_cons, List.map_cons, commaSeparated, List.append_assoc, List.append_assoc, List.cons_append,
          List.map_cons, List.any_cons]
        apply Gives.bind whole
        apply Gives.after (skipWhitespace_gap space' (solid_cons rfl))
        exact Gives.after rfl (more.result (value e :: ·))
        exact List.cons_ne_nil _ _

theorem parseBracketed_empty {opening : Char} (bracket : close = ']' ∨ close = '}') (space : Gap gap) :
    parseBracketed opening close item (opening :: (gap ++ close :: rest)) = .ok ([], rest) := by
  have closing : isWhitespace close = false := by
    rcases bracket with rfl | rfl <;> rfl
  rw [parseBracketed, bind_ok expect_cons, bind_ok (skipWhitespace_gap space (solid_cons closing))]
  rw [peek_bind, List.head?_cons, if_pos rfl]
  rfl

theorem commaSeparated_cons (t : List Char) (texts : List (List Char)) :
    ∃ more, commaSeparated (t :: texts) = t ++ more := by
  cases texts with
  | nil => exact ⟨[], (List.append_nil t).symm⟩
  | cons t' texts => exact ⟨_, rfl⟩

theorem parseItems_dropWhile (ignores : ∀ text, item (text.dropWhile isWhitespace) = item text) (text : List Char) :
    parseItems item close (fuel + 1) (text.dropWhile isWhitespace) = parseItems item close (fuel + 1) text := by
  rw [parseItems]
  change StateT.bind item _ _ = StateT.bind item _ _
  rw [StateT.bind, ignores]
  rfl

def Starts (close : Char) (text : List Char) : Prop :=
  ∃ gap c more, text = gap ++ c :: more ∧ Gap gap ∧ isWhitespace c = false ∧ c ≠ close

theorem parseBracketed_gives (opening : Char) (rest : List Char) (bracket : close = ']' ∨ close = '}')
    (ignores : ∀ text, item (text.dropWhile isWhitespace) = item text) (items : List E) (nonempty : items ≠ [])
    (space : ∀ e ∈ items, Gap (after e)) (starts : ∀ e ∈ items, Starts close (text e))
    (each : ∀ e ∈ items, ∀ rest, Ends rest → Gives item (text e ++ rest) (value e) rest (pairs e)) :
    Gives (parseBracketed opening close item)
      (opening :: (commaSeparated (items.map fun e => text e ++ after e) ++ close :: rest))
      (items.map value) rest (items.any pairs) := by
  have bodies := count_commaSeparated (items.map fun e => text e ++ after e)
  have commas := count_dropWhile (commaSeparated (items.map fun e => text e ++ after e) ++ close :: rest)
  have enough : items.length ≤
      ((commaSeparated (items.map fun e => text e ++ after e) ++ close :: rest).dropWhile isWhitespace).length + 1 := by
    rw [List.count_append] at commas
    rw [List.length_map] at bodies
    have inside := List.count_le_length (a := ',')
      (l := (commaSeparated (items.map fun e => text e ++ after e) ++ close :: rest).dropWhile isWhitespace)
    omega
  have opens : ((commaSeparated (items.map fun e => text e ++ after e) ++ close :: rest).dropWhile isWhitespace).head? ≠
      some close := by
    cases items with
    | nil => exact absurd rfl nonempty
    | cons e items =>
      obtain ⟨gap, c, more, shape, blank, solid, other⟩ := starts e List.mem_cons_self
      obtain ⟨behind, all⟩ := commaSeparated_cons (text e ++ after e) (items.map fun e => text e ++ after e)
      rw [List.map_cons, all, shape]
      simp only [List.append_assoc, List.cons_append]
      rw [dropWhile_gap blank, List.dropWhile_cons_of_neg (by rw [solid]; exact Bool.false_ne_true)]
      intro head
      exact other (Option.some.inj head)
  have items_read := parseItems_gives rest bracket items nonempty space each enough
  rw [Gives, ← parseItems_dropWhile ignores] at items_read
  rw [parseBracketed]
  apply Gives.after expect_cons
  apply Gives.after rfl
  rw [Gives, peek_bind, if_neg opens]
  exact items_read

end Items

section Values

variable {text body gap rest : List Char} {v : Value} {n : F64} {pairs : Bool} {room : Nat}
  {inner : Option (Parser Value)}

theorem skipWhitespace_dropWhile {f : Unit → Parser A} :
    (skipWhitespace >>= f) (text.dropWhile isWhitespace) = (skipWhitespace >>= f) text := by
  change f () ((text.dropWhile isWhitespace).dropWhile isWhitespace) = f () (text.dropWhile isWhitespace)
  rw [List.dropWhile_idempotent]

theorem parseValue_eq (room : Nat) : ∃ inner, parseValue room = parseAny inner := by
  cases room with
  | zero => exact ⟨none, rfl⟩
  | succ room => exact ⟨some (parseValue room), rfl⟩

theorem parseValue_dropWhile : parseValue room (text.dropWhile isWhitespace) = parseValue room text := by
  obtain ⟨inner, is⟩ := parseValue_eq room
  rw [is]
  exact skipWhitespace_dropWhile

theorem parseValue_gap (space : Gap gap) : parseValue room (gap ++ text) = parseValue room text := by
  rw [← parseValue_dropWhile, dropWhile_gap space, parseValue_dropWhile]

theorem parseAny_numeric {c : Char} (numeric : c = '-' ∨ c.isDigit = true) :
    isWhitespace c = false ∧ parseAny inner (c :: text) = parseNumber (c :: text) := by
  rcases numeric with rfl | digit
  next => exact ⟨rfl, rfl⟩
  next =>
    have bounds := isDigit_iff.mp digit
    have char := Char.ofNat_toNat c
    generalize c.toNat = code at bounds char
    subst char
    obtain ⟨low, high⟩ := bounds
    interval_cases code <;> exact ⟨rfl, rfl⟩

theorem numberText_head (numeral : NumberText text n) : ∃ c more, text = c :: more ∧ (c = '-' ∨ c.isDigit = true) := by
  cases numeral with
  | @positive whole fraction part exponent e digits pointed raised =>
    cases whole with
    | nil => exact absurd rfl digits.2.1
    | cons c whole => exact ⟨c, _, rfl, .inr (digits.1 c List.mem_cons_self)⟩
  | negative digits pointed raised => exact ⟨'-', _, rfl, .inl rfl⟩

theorem parseAny_number (numeral : NumberText text n) (ends : Ends rest) :
    parseAny inner (text ++ rest) = .ok (.number n, rest) := by
  have read := parseNumber_append numeral ends
  obtain ⟨c, more, rfl, numeric⟩ := numberText_head numeral
  rw [List.cons_append, (parseAny_numeric numeric).2]
  exact read

theorem valueText_starts (written : ValueText room body v pairs) {close : Char} (bracket : close = ']' ∨ close = '}')
    (space : Gap gap) : Starts close (gap ++ body) := by
  have solid {c : Char} {more : List Char} (whole : body = c :: more) (ink : isWhitespace c = false)
      (other : c ≠ ']' ∧ c ≠ '}') : Starts close (gap ++ body) := by
    refine ⟨gap, c, more, by rw [whole], space, ink, ?_⟩
    rcases bracket with rfl | rfl
    next => exact other.1
    next => exact other.2
  cases written with
  | null => exact solid rfl rfl (by decide)
  | true => exact solid rfl rfl (by decide)
  | false => exact solid rfl rfl (by decide)
  | number numeral =>
    obtain ⟨c, more, rfl, numeric⟩ := numberText_head numeral
    apply solid rfl (@parseAny_numeric [] none c numeric).1
    rcases numeric with rfl | digit
    next => decide
    next => exact ⟨digit_ne digit rfl, digit_ne digit rfl⟩
  | string quoted =>
    cases quoted with
    | quoted inside => exact solid rfl rfl (by decide)
  | emptyArray space => exact solid rfl rfl (by decide)
  | array nonempty spaced each => exact solid rfl rfl (by decide)
  | emptyObject space => exact solid rfl rfl (by decide)
  | object nonempty spaced each => exact solid rfl rfl (by decide)

theorem stringText_head {s : String} (quoted : StringText text s pairs) : ∃ more, text = '"' :: more := by
  cases quoted with
  | quoted inside => exact ⟨_, rfl⟩

theorem parseMember_gives {m : Member} {value : Parser Value} (spaced : m.Spaced)
    (each : Gives value (m.element.before ++ (m.element.body ++ rest)) m.element.value rest m.element.pairs) :
    Gives (parseMember value)
      (m.before ++ (m.keyText ++ (m.between ++ ':' :: (m.element.before ++ (m.element.body ++ rest))))) m.entry rest
      (m.keyPairs || m.element.pairs) := by
  obtain ⟨more, quote⟩ := stringText_head spaced.key
  have ink : (m.keyText ++ (m.between ++ ':' :: (m.element.before ++ (m.element.body ++ rest)))).head?.all
      (fun c => !isWhitespace c) = true := by
    rw [quote]
    rfl
  rw [parseMember]
  apply Gives.after (skipWhitespace_gap spaced.before ink)
  apply Gives.bind (parseString_gives _ spaced.key)
  apply Gives.after (skipWhitespace_gap spaced.between (solid_cons rfl))
  apply Gives.after expect_cons
  exact each.result fun value => (m.key, value)

theorem parseValue_gives (written : ValueText room body v pairs) (ends : Ends rest) :
    Gives (parseValue room) (body ++ rest) v rest pairs := by
  induction written generalizing rest with
  | @null room =>
    obtain ⟨inner, is⟩ := parseValue_eq room
    rw [is]
    exact Gives.ok rfl
  | @true room =>
    obtain ⟨inner, is⟩ := parseValue_eq room
    rw [is]
    exact Gives.ok rfl
  | @false room =>
    obtain ⟨inner, is⟩ := parseValue_eq room
    rw [is]
    exact Gives.ok rfl
  | @number room text n numeral =>
    obtain ⟨inner, is⟩ := parseValue_eq room
    rw [is]
    exact Gives.ok (parseAny_number numeral ends)
  | @string room text s pairs quoted =>
    obtain ⟨inner, is⟩ := parseValue_eq room
    have read := parseString_gives rest quoted
    cases quoted with
    | quoted inside =>
      rw [is]
      exact read.result Value.string
  | @emptyArray room gap space =>
    rw [List.cons_append, List.append_assoc, List.singleton_append]
    have read : parseBracketed '[' ']' (parseValue room) ('[' :: (gap ++ ']' :: rest)) = .ok ([], rest) :=
      parseBracketed_empty (.inl rfl) space
    exact Gives.result (Gives.ok read) Value.array
  | @array room items nonempty spaced each ih =>
    have starts : ∀ e ∈ items, Starts ']' (e.before ++ e.body) := fun e mem =>
      valueText_starts (each e mem) (.inl rfl) (spaced e mem).before
    have reads : ∀ e ∈ items, ∀ rest, Ends rest →
        Gives (parseValue room) (e.before ++ e.body ++ rest) e.value rest e.pairs := by
      intro e mem rest ends
      rw [List.append_assoc, Gives, parseValue_gap (spaced e mem).before]
      exact ih e mem ends
    have read := parseBracketed_gives '[' rest (.inl rfl) (fun _ => parseValue_dropWhile) items
      nonempty (fun e mem => (spaced e mem).after) starts reads
    have texts : (items.map fun e => e.before ++ e.body ++ e.after) = items.map Element.text := by
      simp [Element.text]
    rw [texts] at read
    rw [List.cons_append, List.append_assoc, List.singleton_append]
    exact read.result Value.array
  | @emptyObject room gap space =>
    rw [List.cons_append, List.append_assoc, List.singleton_append]
    have read : parseBracketed '{' '}' (parseMember (parseValue room)) ('{' :: (gap ++ '}' :: rest)) = .ok ([], rest) :=
      parseBracketed_empty (.inr rfl) space
    exact Gives.result (Gives.ok read) Value.object
  | @object room members nonempty spaced each ih =>
    have starts : ∀ m ∈ members,
        Starts '}' (m.before ++ (m.keyText ++ (m.between ++ ':' :: (m.element.before ++ m.element.body)))) := by
      intro m mem
      obtain ⟨more, quote⟩ := stringText_head (spaced m mem).key
      exact ⟨m.before, '"', _, by rw [quote, List.cons_append], (spaced m mem).before, rfl, by decide⟩
    have reads : ∀ m ∈ members, ∀ rest, Ends rest → Gives (parseMember (parseValue room))
        (m.before ++ (m.keyText ++ (m.between ++ ':' :: (m.element.before ++ m.element.body))) ++ rest) m.entry rest
        (m.keyPairs || m.element.pairs) := by
      intro m mem rest ends
      have inside : Gives (parseValue room) (m.element.before ++ (m.element.body ++ rest)) m.element.value rest
          m.element.pairs := by
        rw [Gives, parseValue_gap (spaced m mem).element.before]
        exact ih m mem ends
      have whole := parseMember_gives (spaced m mem) inside
      simpa only [List.append_assoc, List.cons_append] using whole
    have read := parseBracketed_gives '{' rest (.inr rfl)
      (fun _ => skipWhitespace_dropWhile) members nonempty (fun m mem => (spaced m mem).element.after) starts reads
    have texts : (members.map fun m => m.before ++ (m.keyText ++ (m.between ++ ':' :: (m.element.before ++
        m.element.body))) ++ m.element.after) = members.map Member.text := by
      simp [Member.text, Element.text]
    rw [texts] at read
    rw [List.cons_append, List.append_assoc, List.singleton_append]
    exact read.result Value.object

theorem parseAll_gives (written : JsonText text v pairs) : Gives parseAll text v [] pairs := by
  cases written with
  | @spaced before body after v pairs gap gap' value =>
    have ends : Ends (after ++ []) := ends_gap gap' fun _ head => nomatch head
    have first : Gives (parseValue maxNestingDepth)
      ((before ++ (body ++ after)).dropWhile isWhitespace) v after pairs := by
      rw [Gives, parseValue_dropWhile, parseValue_gap gap]
      exact parseValue_gives value (by rwa [List.append_nil] at ends)
    have last : skipWhitespace after = .ok ((), []) := by
      have skipped : skipWhitespace (after ++ []) = .ok ((), []) := skipWhitespace_gap gap' rfl
      rwa [List.append_nil] at skipped
    rw [parseAll, ← Bool.or_false pairs]
    apply Gives.after rfl
    apply Gives.bind first
    apply Gives.after last
    exact Gives.ok rfl

end Values

section Escapes

variable {chars hex rest : List Char} {c : Char} {n : Nat}

/-- What is read as a `\u` escape has four hexadecimal digits. -/
def HexOnly (chars : List Char) : Prop :=
  ∀ c rest, parseUnicodeEscape chars = .ok (c, rest) → ∃ hex code, chars = hex ++ rest ∧ Quad hex code

def SignedHex (chars : List Char) : Prop :=
  ∃ hex rest code, chars = '+' :: (hex ++ rest) ∧ hex.length = 3 ∧ hexFrom 0 hex = some code

theorem of_takeFour (run : takeFour n chars = .ok (hex, rest)) : chars = hex ++ rest ∧ hex.length = n := by
  induction n generalizing chars hex with
  | zero =>
    cases run
    exact ⟨rfl, rfl⟩
  | succ n ih =>
    cases chars with
    | nil => cases run
    | cons c chars =>
      simp only [takeFour, next_bind, List.head?_cons, List.tail_cons] at run
      obtain ⟨more, mid, taken, made⟩ := of_bind_ok run
      cases made
      obtain ⟨rfl, size⟩ := ih taken
      exact ⟨rfl, by rw [List.length_cons, size]⟩

theorem of_parseUnicodeEscape (run : parseUnicodeEscape chars = .ok (c, rest)) :
    (∃ hex code, chars = hex ++ rest ∧ Quad hex code) ∨ SignedHex chars := by
  rw [parseUnicodeEscape] at run
  obtain ⟨hex, mid, taken, made⟩ := of_bind_ok run
  obtain ⟨rfl, four⟩ := of_takeFour taken
  cases read : fromStrRadix16 32 (encodeChars hex) with
  | none =>
    rw [read] at made
    cases made
  | some code =>
    rw [read] at made
    have consumed : mid = rest := by
      by_cases valid : code.isValidChar
      next =>
        simp only [valid, if_true] at made
        cases made
        rfl
      next =>
        simp only [valid, if_false] at made
        cases made
    cases hex with
    | nil => cases four
    | cons d hex =>
      rcases (fromStrRadix16_iff.mp read).2 with spelled | ⟨rfl, -, spelled⟩
      next => exact .inl ⟨d :: hex, code, by rw [consumed], four, spelled⟩
      next => exact .inr ⟨hex, mid, code, rfl, Nat.succ.inj four, spelled⟩

theorem signedHex_read (signed : SignedHex chars) : ¬HexOnly chars := by
  obtain ⟨hex, rest, code, rfl, three, spelled⟩ := signed
  intro only
  have small := hexFrom_bounds spelled
  rw [three] at small
  have nonempty : hex ≠ [] := by
    rintro rfl
    cases three
  have read : fromStrRadix16 32 (encodeChars ('+' :: hex)) = some code :=
    fromStrRadix16_iff.mpr ⟨by omega, .inr ⟨rfl, nonempty, spelled⟩⟩
  have valid : code.isValidChar := .inl (by omega)
  have run : parseUnicodeEscape ('+' :: hex ++ rest) = .ok (Char.ofNat code, rest) := by
    rw [parseUnicodeEscape, bind_ok (takeFour_append 4 (by rw [List.length_cons, three])), read]
    simp [valid]
  obtain ⟨hex', code', shape, quad⟩ := only _ _ run
  have same : '+' :: hex = hex' := List.append_cancel_right (show ('+' :: hex) ++ rest = hex' ++ rest from shape)
  have digits := quad.spelled
  rw [← same, hexFrom_cons] at digits
  cases digits

end Escapes

end Gems.Json.Parser

namespace Gems.Json

open Lib

theorem parse_of_gives {text : List Char} {v : Value} {pairs : Bool} (written : JsonText text v pairs) :
    parse (String.ofList text) = .ok v ↔ pairs = false := by
  have read := Parser.parseAll_gives written
  rw [parse, String.toList_ofList]
  cases pairs with
  | true =>
    obtain ⟨hex, failed⟩ := read
    rw [failed]
    constructor <;> intro no <;> cases no
  | false =>
    rw [Parser.Gives, if_neg Bool.false_ne_true] at read
    rw [read]
    exact ⟨fun _ => rfl, fun _ => rfl⟩

/-- Every text of RFC 8259 is read as what it stands for unless it writes a character as surrogates,
and an escape has four hexadecimal digits unless a sign stands for the first. -/
theorem parse_strings (text chars : List Char) (v : Value) (pairs : Bool) :
    (JsonText text v pairs → (parse (String.ofList text) = .ok v ↔ pairs = false)) ∧
      (Parser.HexOnly chars ↔ ¬Parser.SignedHex chars) := by
  constructor
  next =>
    intro written
    exact parse_of_gives written
  next =>
    constructor
    next =>
      intro only signed
      exact Parser.signedHex_read signed only
    next =>
      intro unsigned c rest run
      exact (Parser.of_parseUnicodeEscape run).resolve_right unsigned

theorem parse_strings_code : parse (String.ofList "\"\\u0041\"".toList) = .ok (.string "A") := by
  have gap : Gap [] := fun _ mem => absurd mem List.not_mem_nil
  have first : CharText "\\u0041".toList 'A' false := .code ⟨rfl, rfl⟩ rfl
  have written : JsonText "\"\\u0041\"".toList (.string "A") false :=
    .spaced gap gap (.string (.quoted (.cons first .nil)))
  exact ((parse_strings _ [] _ _).1 written).mpr rfl

theorem surrogates_rejected : JsonText "\"\\ud83d\\ude00\"".toList (.string "😀") true ∧
    parse "\"\\ud83d\\ude00\"" = .error (.notStandalone "d83d".toList) ∧
    parse "\"\\u+041\"" = .ok (.string "A") := by
  have gap : Gap [] := fun _ mem => absurd mem List.not_mem_nil
  have high : Quad "d83d".toList 0xD83D := ⟨rfl, rfl⟩
  have low : Quad "de00".toList 0xDE00 := ⟨rfl, rfl⟩
  have quoted := StringText.quoted (.cons (.pair high low (by decide) (by decide)) .nil)
  have face : String.ofList [Char.ofNat (0x10000 + (0xD83D - 0xD800) * 0x400 + (0xDE00 - 0xDC00))] = "😀" := by decide
  rw [face] at quoted
  exact ⟨.spaced gap gap (.string quoted), rfl, rfl⟩

end Gems.Json
