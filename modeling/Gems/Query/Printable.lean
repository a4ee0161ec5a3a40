import Gems.Query.Spelling

set_option autoImplicit false

namespace Gems.Query

open Lib

section Printable

variable (unicode : Unicode)

def Name (s : String) : Prop := Lexable unicode s ∧ Free s

def Path (field : String) : Prop := ∃ names, names ≠ [] ∧ (∀ s ∈ names, Name unicode s) ∧ field = ".".intercalate names

def Literal.Printable : Literal → Prop
  | .str _ => True
  | .num bits => ∃ n : ℕ, n < 2 ^ 53 ∧ bits = (F64.ofInt n).bits
  | .bool _ => True
  | .ident s => Name unicode s ∧ eqIgnoreAsciiCase s "true" = false ∧ eqIgnoreAsciiCase s "false" = false

def Expr.Printable : Expr → Prop
  | .and a b => a.Printable ∧ b.Printable
  | .or a b => a.Printable ∧ b.Printable
  | .not e => e.Printable
  | .compare field _ value => Path unicode field ∧ value.Printable unicode
  | .in_ field values => Path unicode field ∧ values ≠ [] ∧ ∀ value ∈ values, value.Printable unicode

def SelectList.Printable : SelectList → Prop
  | .all => True
  | .fields names => names ≠ [] ∧ ∀ field ∈ names, Path unicode field

/-- How deep `NOT` and the parentheses that are needed nest. -/
def Expr.nesting : Expr → Level → Nat
  | .or a b, .or => max (a.nesting .or) (b.nesting .and)
  | .or a b, _ => max (a.nesting .or) (b.nesting .and) + 1
  | .and a b, .unary => max (a.nesting .and) (b.nesting .unary) + 1
  | .and a b, _ => max (a.nesting .and) (b.nesting .unary)
  | .not e, _ => e.nesting .unary + 1
  | .compare _ _ _, _ => 0
  | .in_ _ _, _ => 0

/-- The queries that have a text. -/
structure Printable (q : Query) : Prop where
  select : q.select.Printable unicode
  from_ : Name unicode q.from_
  filter : ∀ e, q.filter = some e → e.Printable unicode ∧ e.nesting .or ≤ maxExprDepth
  orderBy : ∀ item ∈ q.orderBy, Path unicode item.field
  limit : ∀ n, q.limit = some n → n.toNat < 2 ^ 53

def Writable (tokens : List Token) : Prop := ∀ t ∈ tokens, ∃ word, Spelling unicode t word

end Printable

section Prints

variable {A : Type} {unicode : Unicode} {R : A → List Token → Prop} {a : A} {separator : Token}

variable (unicode R) in
def Prints (a : A) : Prop := ∃ tokens, R a tokens ∧ Writable unicode tokens

theorem Writable.append {ts us : List Token} (left : Writable unicode ts) (right : Writable unicode us) :
    Writable unicode (ts ++ us) := List.forall_mem_append.mpr ⟨left, right⟩

theorem Writable.cons {t : Token} {ts : List Token} {word : List Char} (first : Spelling unicode t word)
    (later : Writable unicode ts) : Writable unicode (t :: ts) := List.forall_mem_cons.mpr ⟨⟨word, first⟩, later⟩

theorem Writable.nil : Writable unicode [] := fun _ no => absurd no List.not_mem_nil

theorem Prints.separated {items : List A} {word : List Char} (some : items ≠ [])
    (each : ∀ a ∈ items, Prints unicode R a)
    (plain : Spelling unicode separator word) : Prints unicode (Separated separator R) items := by
  induction items with
  | nil => exact absurd rfl some
  | cons a items ih =>
    obtain ⟨tokens, first, writable⟩ := each a List.mem_cons_self
    cases items with
    | nil => exact ⟨tokens, .one first, writable⟩
    | cons b items =>
      obtain ⟨rest, later, writable'⟩ := ih (List.cons_ne_nil _ _) fun c mem => each c (List.mem_cons_of_mem _ mem)
      exact ⟨_, .more first later, writable.append (.cons plain writable')⟩

end Prints

section Words

variable {unicode : Unicode}

theorem keyword_spelling {kw : String} (mem : kw ∈ keywords) : Spelling unicode (.ident kw) kw.toList := by
  have letters : ∀ kw ∈ keywords, Letters kw := by simp [keywords, Letters]
  exact .ident (letters kw mem).lexable

theorem keyword_self (kw : String) : Keyword kw (.ident kw) := by
  simp [Keyword, Parser.isKeyword, eqIgnoreAsciiCase]

theorem writable_keyword {kw : String} (mem : kw ∈ keywords) {ts : List Token} (later : Writable unicode ts) :
    Writable unicode (.ident kw :: ts) := .cons (keyword_spelling mem) later

theorem opToken_spelling (op : CompareOp) : ∃ word, Spelling unicode (opToken op) word := by
  cases op with
  | eq => exact ⟨_, .eq⟩
  | neq => exact ⟨_, .neq⟩
  | lt => exact ⟨_, .lt⟩
  | lte => exact ⟨_, .lte⟩
  | gt => exact ⟨_, .gt⟩
  | gte => exact ⟨_, .gte⟩

end Words

section Printing

variable {unicode : Unicode} {field : String} {e : Expr} {level : Level}

theorem name_prints {s : String} (name : Name unicode s) : Prints unicode NameTokens s :=
  ⟨_, .name name.2, .cons (.ident name.1) .nil⟩

theorem path_prints (path : Path unicode field) : Prints unicode FieldTokens field := by
  obtain ⟨names, some, each, rfl⟩ := path
  obtain ⟨tokens, dotted, writable⟩ := Prints.separated some (fun s mem => name_prints (each s mem)) Spelling.dot
  exact ⟨tokens, .path dotted, writable⟩

theorem literal_prints {value : Literal} (printable : value.Printable unicode) :
    Prints unicode LiteralTokens value := by
  have letters : Letters "true" ∧ Letters "false" := by simp [Letters]
  cases value with
  | str s => exact ⟨_, .str, .cons .str .nil⟩
  | num bits =>
    obtain ⟨n, -, rfl⟩ := printable
    exact ⟨_, .num, .cons .num .nil⟩
  | bool b =>
    cases b with
    | true => exact ⟨_, .true rfl, .cons (.ident letters.1.lexable) .nil⟩
    | false => exact ⟨_, .false rfl, .cons (.ident letters.2.lexable) .nil⟩
  | ident s =>
    obtain ⟨name, no_true, no_false⟩ := printable
    exact ⟨_, .ident name.2 no_true no_false, .cons (.ident name.1) .nil⟩

theorem paren_prints {room : Nat} (inside : Prints unicode (ExprTokens .or room) e) :
    Prints unicode (ExprTokens .unary (room + 1)) e := by
  obtain ⟨ts, printed, writable⟩ := inside
  exact ⟨_, .paren printed, .cons .lParen (writable.append (.cons .rParen .nil))⟩

theorem Prints.raise {room : Nat} (inside : Prints unicode (ExprTokens .unary room) e) (level : Level) :
    Prints unicode (ExprTokens level room) e := by
  obtain ⟨ts, printed, writable⟩ := inside
  cases level with
  | or => exact ⟨ts, .and_or (.unary_and printed), writable⟩
  | and => exact ⟨ts, .unary_and printed, writable⟩
  | unary => exact ⟨ts, printed, writable⟩

theorem or_prints {room : Nat} {a b : Expr} (left : Prints unicode (ExprTokens .or room) a)
    (right : Prints unicode (ExprTokens .and room) b) : Prints unicode (ExprTokens .or room) (.or a b) := by
  obtain ⟨ts, printed, writable⟩ := left
  obtain ⟨us, printed', writable'⟩ := right
  exact ⟨_, .or printed (keyword_self "OR") printed', writable.append (writable_keyword (by decide) writable')⟩

theorem and_prints {room : Nat} {a b : Expr} (left : Prints unicode (ExprTokens .and room) a)
    (right : Prints unicode (ExprTokens .unary room) b) : Prints unicode (ExprTokens .and room) (.and a b) := by
  obtain ⟨ts, printed, writable⟩ := left
  obtain ⟨us, printed', writable'⟩ := right
  exact ⟨_, .and printed (keyword_self "AND") printed', writable.append (writable_keyword (by decide) writable')⟩

theorem and_or_prints {room : Nat} (inside : Prints unicode (ExprTokens .and room) e) :
    Prints unicode (ExprTokens .or room) e := by
  obtain ⟨ts, printed, writable⟩ := inside
  exact ⟨ts, .and_or printed, writable⟩

-- What does not fit the level is put in parentheses.
theorem expr_prints (printable : e.Printable unicode) {room : Nat} (fits : e.nesting level ≤ room) :
    Prints unicode (ExprTokens level room) e := by
  induction e generalizing level room with
  | or a b ih ih' =>
    have plain {room : Nat} (fits : max (a.nesting .or) (b.nesting .and) ≤ room) :
        Prints unicode (ExprTokens .or room) (.or a b) :=
      or_prints (ih printable.1 ((Nat.le_max_left _ _).trans fits))
        (ih' printable.2 ((Nat.le_max_right _ _).trans fits))
    have inside {level : Level} {room : Nat} (fits : max (a.nesting .or) (b.nesting .and) + 1 ≤ room) :
        Prints unicode (ExprTokens level room) (.or a b) := by
      cases room with
      | zero => cases fits
      | succ room => exact (paren_prints (plain (Nat.le_of_succ_le_succ fits))).raise level
    cases level with
    | or => exact plain fits
    | and => exact inside fits
    | unary => exact inside fits
  | and a b ih ih' =>
    have plain {room : Nat} (fits : max (a.nesting .and) (b.nesting .unary) ≤ room) :
        Prints unicode (ExprTokens .and room) (.and a b) :=
      and_prints (ih printable.1 ((Nat.le_max_left _ _).trans fits))
        (ih' printable.2 ((Nat.le_max_right _ _).trans fits))
    cases level with
    | or => exact and_or_prints (plain fits)
    | and => exact plain fits
    | unary =>
      cases room with
      | zero => cases fits
      | succ room => exact paren_prints (and_or_prints (plain (Nat.le_of_succ_le_succ fits)))
  | not e ih =>
    cases room with
    | zero => cases fits
    | succ room =>
      obtain ⟨ts, printed, writable⟩ := ih printable (Nat.le_of_succ_le_succ fits)
      apply Prints.raise
      exact ⟨_, .not (keyword_self "NOT") printed, writable_keyword (by decide) writable⟩
  | compare field op value =>
    obtain ⟨ts, printed, writable⟩ := path_prints printable.1
    obtain ⟨us, printed', writable'⟩ := literal_prints printable.2
    have known : ∃ word, Spelling unicode (opToken op) word := opToken_spelling op
    obtain ⟨word, spelling⟩ := known
    apply Prints.raise
    exact ⟨_, .compare printed printed', writable.append (.cons spelling writable')⟩
  | in_ field values =>
    obtain ⟨path, some, each⟩ := printable
    obtain ⟨ts, printed, writable⟩ := path_prints path
    obtain ⟨us, printed', writable'⟩ := Prints.separated some
      (fun value mem => literal_prints (each value mem)) Spelling.comma
    apply Prints.raise
    exact ⟨_, .in_ printed (keyword_self "IN") printed',
      writable.append (writable_keyword (by decide) (.cons .lParen (writable'.append (.cons .rParen .nil))))⟩

end Printing

section Queries

variable {unicode : Unicode} {q : Query}

theorem select_prints {select : SelectList} (printable : select.Printable unicode) :
    Prints unicode SelectTokens select := by
  cases select with
  | all => exact ⟨_, .all, .cons .star .nil⟩
  | fields names =>
    obtain ⟨ts, list, writable⟩ := Prints.separated printable.1 (fun field mem => path_prints (printable.2 field mem))
      Spelling.comma
    exact ⟨ts, .fields list, writable⟩

theorem filter_prints {filter : Option Expr}
    (printable : ∀ e, filter = some e → e.Printable unicode ∧ e.nesting .or ≤ maxExprDepth) :
    Prints unicode FilterTokens filter := by
  cases filter with
  | none => exact ⟨[], .none, .nil⟩
  | some e =>
    obtain ⟨whole, fits⟩ := printable e rfl
    obtain ⟨ts, printed, writable⟩ := expr_prints whole fits
    exact ⟨_, .some (keyword_self "WHERE") printed, writable_keyword (by decide) writable⟩

theorem orderItem_prints {item : OrderItem} (path : Path unicode item.field) : Prints unicode OrderItemTokens item := by
  obtain ⟨field, descending⟩ := item
  obtain ⟨ts, printed, writable⟩ := path_prints path
  cases descending with
  | false => exact ⟨ts, .plain printed, writable⟩
  | true => exact ⟨_, .desc printed (keyword_self "DESC"), writable.append (writable_keyword (by decide) .nil)⟩

theorem order_prints {orderBy : List OrderItem} (paths : ∀ item ∈ orderBy, Path unicode item.field) :
    Prints unicode OrderTokens orderBy := by
  cases orderBy with
  | nil => exact ⟨[], .none, .nil⟩
  | cons item items =>
    obtain ⟨ts, printed, writable⟩ := Prints.separated (List.cons_ne_nil item items)
      (fun item mem => orderItem_prints (paths item mem)) Spelling.comma
    exact ⟨_, .some (keyword_self "ORDER") (keyword_self "BY") printed,
      writable_keyword (by decide) (writable_keyword (by decide) writable)⟩

theorem limit_prints {limit : Option UInt64} (small : ∀ n, limit = some n → n.toNat < 2 ^ 53) :
    Prints unicode LimitTokens limit := by
  cases limit with
  | none => exact ⟨[], .none, .nil⟩
  | some n =>
    exact ⟨_, .some (keyword_self "LIMIT") (small n rfl), writable_keyword (by decide) (.cons .num .nil)⟩

theorem Printable.prints (printable : Printable unicode q) : Prints unicode QueryTokens q := by
  obtain ⟨ts, select, writable⟩ := select_prints printable.select
  obtain ⟨us, filter, writable'⟩ := filter_prints printable.filter
  obtain ⟨vs, order, writable''⟩ := order_prints printable.orderBy
  obtain ⟨ws, limit, writable'''⟩ := limit_prints printable.limit
  refine ⟨_, .query (keyword_self "SELECT") select (keyword_self "FROM") printable.from_.2 filter order limit, ?_⟩
  have name : Writable unicode (.ident q.from_ :: (us ++ (vs ++ ws))) :=
    .cons (.ident printable.from_.1) (writable'.append (writable''.append writable'''))
  exact writable_keyword (by decide) (writable.append (writable_keyword (by decide) name))

theorem Writable.spelled {tokens : List Token} (writable : Writable unicode tokens) :
    ∃ text, Spelled unicode tokens text ∧ (text = [] ∨ text.head? = some ' ') := by
  induction tokens with
  | nil => exact ⟨[], .done (by simp [White]), .inl rfl⟩
  | cons t tokens ih =>
    obtain ⟨⟨word, spelling⟩, later⟩ := List.forall_mem_cons.mp writable
    obtain ⟨text, spelled, head⟩ := ih later
    have blank : ∀ c, c = ' ' → extends_ unicode t c = false := by
      rintro c rfl
      cases spelling with
      | ident lexable =>
        obtain ⟨letter, number⟩ := unicode.white ' ' rfl
        simp [extends_, Lexer.identPart, letter, number]
      | _ => rfl
    have apart : text.head?.any (extends_ unicode t) = false := by
      rcases head with rfl | head
      next => rfl
      next =>
        rw [head]
        exact blank ' ' rfl
    exact ⟨[' '] ++ (word ++ text), .token (by simp [White, isWhitespace]) spelling apart spelled, .inr rfl⟩

theorem Printable.parsed (printable : Printable unicode q) : ∃ text, parse unicode (String.ofList text) = .ok q := by
  obtain ⟨tokens, printed, writable⟩ := printable.prints
  obtain ⟨text, spelled, -⟩ := writable.spelled
  exact ⟨text, parse_printed unicode q tokens printed text spelled⟩

/-- A query of the domain has a text, and each of its texts is parsed to it. -/
theorem parse_inverts_print (unicode : Unicode) (q : Query) (printable : Printable unicode q) :
    (∃ tokens text, QueryTokens q tokens ∧ Spelled unicode tokens text) ∧
      ∀ tokens text, QueryTokens q tokens → Spelled unicode tokens text →
        parse unicode (String.ofList text) = .ok q := by
  obtain ⟨tokens, printed, writable⟩ := printable.prints
  obtain ⟨text, spelled, -⟩ := writable.spelled
  refine ⟨⟨tokens, text, printed, spelled⟩, ?_⟩
  intro tokens text printed spelled
  exact parse_printed unicode q tokens printed text spelled

theorem parse_inverts_print_not : ∃ text, parse .ascii (String.ofList text) =
    .ok { select := .all, from_ := "t", filter := some (.not (.compare "x" .eq (.str "it's"))),
          orderBy := [], limit := none } := by
  have letters : Letters "x" ∧ Letters "t" := by simp [Letters]
  have free : ∀ kw ∈ keywords, eqIgnoreAsciiCase "x" kw = false ∧ eqIgnoreAsciiCase "t" kw = false := by decide
  have x : Name .ascii "x" := ⟨letters.1.lexable, fun kw mem => (free kw mem).1⟩
  have t : Name .ascii "t" := ⟨letters.2.lexable, fun kw mem => (free kw mem).2⟩
  have path : Path .ascii "x" := ⟨["x"], by simp, by simpa using x, rfl⟩
  have printable : Printable .ascii
      { select := .all, from_ := "t", filter := some (.not (.compare "x" .eq (.str "it's"))),
        orderBy := [], limit := none } :=
    { select := trivial
      from_ := t
      filter := by
        rintro e ⟨⟩
        exact ⟨⟨path, trivial⟩, by decide⟩
      orderBy := by simp
      limit := by simp }
  obtain ⟨⟨tokens, text, printed, spelled⟩, reads⟩ := parse_inverts_print .ascii _ printable
  exact ⟨text, reads tokens text printed spelled⟩

end Queries

end Gems.Query
