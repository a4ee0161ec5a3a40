import Gems.Query.Parser

set_option autoImplicit false

namespace Gems.Query

open Lib

section Tokens

variable {A : Type}

def keywords : List String :=
  ["SELECT", "FROM", "WHERE", "ORDER", "BY", "LIMIT", "AND", "OR", "NOT", "IN", "ASC", "DESC"]

def Keyword (kw : String) (token : Token) : Prop := Parser.isKeyword kw token = true

def Free (s : String) : Prop := ∀ kw ∈ keywords, eqIgnoreAsciiCase s kw = false

inductive Separated (separator : Token) (R : A → List Token → Prop) : List A → List Token → Prop
  | one {a : A} {tokens : List Token} (last : R a tokens) : Separated separator R [a] tokens
  | more {a : A} {items : List A} {tokens rest : List Token} (first : R a tokens)
    (later : Separated separator R items rest) : Separated separator R (a :: items) (tokens ++ separator :: rest)

inductive NameTokens : String → List Token → Prop
  | name {s : String} (free : Free s) : NameTokens s [.ident s]

inductive FieldTokens : String → List Token → Prop
  | path {names : List String} {tokens : List Token} (dotted : Separated .dot NameTokens names tokens) :
    FieldTokens (".".intercalate names) tokens

inductive LiteralTokens : Literal → List Token → Prop
  | str {s : String} : LiteralTokens (.str s) [.str s]
  | num {n : ℕ} : LiteralTokens (.num (F64.ofInt n).bits) [.num (.ofInt n)]
  | true {s : String} (letters : eqIgnoreAsciiCase s "true" = true) : LiteralTokens (.bool true) [.ident s]
  | false {s : String} (letters : eqIgnoreAsciiCase s "false" = true) : LiteralTokens (.bool false) [.ident s]
  | ident {s : String} (free : Free s) (no_true : eqIgnoreAsciiCase s "true" = false)
    (no_false : eqIgnoreAsciiCase s "false" = false) : LiteralTokens (.ident s) [.ident s]

def opToken : CompareOp → Token
  | .eq => .eq
  | .neq => .neq
  | .lt => .lt
  | .lte => .lte
  | .gt => .gt
  | .gte => .gte

inductive Level where
  | or
  | and
  | unary

/-- An expression as an operand of `OR`, of `AND`, or of `NOT`: chains lean to the left, and what
does not fit an operand is in parentheses. `NOT` and parentheses nest at most `room` deep. -/
inductive ExprTokens : Level → Nat → Expr → List Token → Prop
  | or {room : Nat} {a b : Expr} {t : Token} {ts us : List Token}
      (left : ExprTokens .or room a ts) (kw : Keyword "OR" t)
    (right : ExprTokens .and room b us) : ExprTokens .or room (.or a b) (ts ++ t :: us)
  | and_or {room : Nat} {e : Expr} {ts : List Token} (inside : ExprTokens .and room e ts) : ExprTokens .or room e ts
  | and {room : Nat} {a b : Expr} {t : Token} {ts us : List Token} (left : ExprTokens .and room a ts)
    (kw : Keyword "AND" t) (right : ExprTokens .unary room b us) : ExprTokens .and room (.and a b) (ts ++ t :: us)
  | unary_and {room : Nat} {e : Expr} {ts : List Token} (inside : ExprTokens .unary room e ts) :
      ExprTokens .and room e ts
  | not {room : Nat} {e : Expr} {t : Token} {ts : List Token} (kw : Keyword "NOT" t)
    (inside : ExprTokens .unary room e ts) : ExprTokens .unary (room + 1) (.not e) (t :: ts)
  | paren {room : Nat} {e : Expr} {ts : List Token} (inside : ExprTokens .or room e ts) :
    ExprTokens .unary (room + 1) e (.lParen :: (ts ++ [.rParen]))
  | compare {room : Nat} {field : String} {op : CompareOp} {value : Literal} {ts us : List Token}
    (path : FieldTokens field ts) (literal : LiteralTokens value us) :
    ExprTokens .unary room (.compare field op value) (ts ++ opToken op :: us)
  | in_ {room : Nat} {field : String} {values : List Literal} {t : Token} {ts us : List Token}
    (path : FieldTokens field ts) (kw : Keyword "IN" t) (literals : Separated .comma LiteralTokens values us) :
    ExprTokens .unary room (.in_ field values) (ts ++ t :: .lParen :: (us ++ [.rParen]))

inductive SelectTokens : SelectList → List Token → Prop
  | all : SelectTokens .all [.star]
  | fields {names : List String} {tokens : List Token} (list : Separated .comma FieldTokens names tokens) :
    SelectTokens (.fields names) tokens

inductive FilterTokens : Option Expr → List Token → Prop
  | none : FilterTokens none []
  | some {e : Expr} {t : Token} {ts : List Token} (kw : Keyword "WHERE" t) (expr : ExprTokens .or maxExprDepth e ts) :
    FilterTokens (some e) (t :: ts)

inductive OrderItemTokens : OrderItem → List Token → Prop
  | plain {field : String} {ts : List Token} (path : FieldTokens field ts) : OrderItemTokens ⟨field, false⟩ ts
  | asc {field : String} {t : Token} {ts : List Token} (path : FieldTokens field ts) (kw : Keyword "ASC" t) :
    OrderItemTokens ⟨field, false⟩ (ts ++ [t])
  | desc {field : String} {t : Token} {ts : List Token} (path : FieldTokens field ts) (kw : Keyword "DESC" t) :
    OrderItemTokens ⟨field, true⟩ (ts ++ [t])

inductive OrderTokens : List OrderItem → List Token → Prop
  | none : OrderTokens [] []
  | some {items : List OrderItem} {t u : Token} {ts : List Token} (kw : Keyword "ORDER" t) (kw' : Keyword "BY" u)
    (list : Separated .comma OrderItemTokens items ts) : OrderTokens items (t :: u :: ts)

inductive LimitTokens : Option UInt64 → List Token → Prop
  | none : LimitTokens none []
  | some {n : UInt64} {t : Token} (kw : Keyword "LIMIT" t) (small : n.toNat < 2 ^ 53) :
    LimitTokens (some n) [t, .num (.ofInt n.toNat)]

/-- The ways to print a query, as tokens. -/
inductive QueryTokens : Query → List Token → Prop
  | query {q : Query} {t u : Token} {ts us vs ws : List Token}
      (kw : Keyword "SELECT" t) (select : SelectTokens q.select ts)
    (kw' : Keyword "FROM" u) (free : Free q.from_) (filter : FilterTokens q.filter us)
    (order : OrderTokens q.orderBy vs) (limit : LimitTokens q.limit ws) :
    QueryTokens q (t :: (ts ++ u :: .ident q.from_ :: (us ++ (vs ++ ws))))

end Tokens

namespace Parser

open Scanner

variable {A : Type}

/-- The parser reads `a` from the tokens when the one behind them follows. -/
def Reads (m : Parser A) (tokens : List Token) (a : A) (follows : Token → Prop) : Prop :=
  ∀ next rest, follows next → m (tokens ++ next :: rest) = .ok (a, next :: rest)

section Steps

variable {m : Parser A} {token next : Token} {tokens rest : List Token} {kw kw' : String} {s : String}

theorem advance_ok (more : rest ≠ []) : advance (token :: rest) = .ok (token, rest) := by
  cases rest with
  | nil => exact absurd rfl more
  | cons next rest => rfl

theorem eatKeyword_yes (is : Keyword kw token) (more : rest ≠ []) :
    eatKeyword kw (token :: rest) = .ok (true, rest) := by
  rw [Keyword] at is
  rw [eatKeyword, peek_bind, if_pos is, bind_ok (advance_ok more)]
  rfl

theorem eatKeyword_no (other : ¬Keyword kw token) : eatKeyword kw (token :: rest) = .ok (false, token :: rest) := by
  rw [Keyword] at other
  simp [eatKeyword, other]

theorem expectKeyword_ok (is : Keyword kw token) (more : rest ≠ []) :
    expectKeyword kw (token :: rest) = .ok ((), rest) := by
  rw [expectKeyword, bind_ok (eatKeyword_yes is more)]
  rfl

theorem expect_ok (more : rest ≠ []) : expect token (token :: rest) = .ok ((), rest) := by
  rw [expect, peek_bind, if_pos rfl, bind_ok (advance_ok more)]
  rfl

theorem parseIdent_ok (more : rest ≠ []) : parseIdent (.ident s :: rest) = .ok (s, rest) := by
  rw [parseIdent, bind_ok (advance_ok more)]
  rfl

theorem not_eqIgnoreAsciiCase (is : eqIgnoreAsciiCase s kw = true) (other : eqIgnoreAsciiCase kw kw' = false) :
    eqIgnoreAsciiCase s kw' = false := by
  rw [eqIgnoreAsciiCase, beq_iff_eq] at is
  rwa [eqIgnoreAsciiCase, is]

theorem Keyword.ne (is : Keyword kw token) (other : eqIgnoreAsciiCase kw kw' = false) : ¬Keyword kw' token := by
  cases token with
  | ident s =>
    rw [Keyword, isKeyword, not_eqIgnoreAsciiCase is other]
    exact Bool.false_ne_true
  | _ => cases is

theorem not_keyword_op {op : CompareOp} : ¬Keyword kw (opToken op) := by
  cases op <;> exact Bool.false_ne_true

end Steps

section Lists

variable {R : A → List Token → Prop} {item : Parser A} {separator : Token} {follows : Token → Prop} {items : List A}
  {tokens : List Token} {fuel : Nat}

theorem Separated.length (list : Separated separator R items tokens) : items.length ≤ tokens.length + 1 := by
  induction list with
  | one last => exact Nat.succ_le_succ (Nat.zero_le _)
  | more first later ih =>
    rw [List.length_cons, List.length_append, List.length_cons]
    omega

theorem moreSeparated_reads (each : ∀ a ts, R a ts → Reads item ts a follows) (behind : follows separator)
    (list : Separated separator R items tokens) (enough : items.length ≤ fuel) {next : Token} (rest : List Token)
    (ends : follows next) (other : next ≠ separator) :
    moreSeparated separator item fuel (separator :: (tokens ++ next :: rest)) = .ok (items, next :: rest) := by
  have stop (fuel : Nat) : moreSeparated separator item fuel (next :: rest) = .ok ([], next :: rest) := by
    cases fuel with
    | zero => rfl
    | succ fuel => simp [moreSeparated, other]
  induction list generalizing fuel with
  | @one a tokens last =>
    cases fuel with
    | zero => cases enough
    | succ fuel =>
      rw [moreSeparated, peek_bind, if_pos rfl, bind_ok (advance_ok (by simp)),
        bind_ok (each a tokens last next rest ends),
        bind_ok (stop fuel)]
      rfl
  | @more a items tokens later_tokens first later ih =>
    cases fuel with
    | zero => cases enough
    | succ fuel =>
      have read := each a tokens first separator (later_tokens ++ next :: rest) behind
      rw [moreSeparated, peek_bind, if_pos rfl, bind_ok (advance_ok (by simp)),
        List.append_assoc, List.cons_append, bind_ok read,
        bind_ok (ih (Nat.le_of_succ_le_succ enough))]
      rfl

theorem separated_reads (each : ∀ a ts, R a ts → Reads item ts a follows) (behind : follows separator)
    (list : Separated separator R items tokens) :
    Reads (separated separator item) tokens items fun t => follows t ∧ t ≠ separator := by
  intro next rest ends
  have stop (fuel : Nat) : moreSeparated separator item fuel (next :: rest) = .ok ([], next :: rest) := by
    cases fuel with
    | zero => rfl
    | succ fuel => simp [moreSeparated, ends.2]
  rw [separated, get_bind]
  cases list with
  | @one a tokens last =>
    rw [bind_ok (each a tokens last next rest ends.1), bind_ok (stop _)]
    rfl
  | @more a items tokens later_tokens first later =>
    have read := each a tokens first separator (later_tokens ++ next :: rest) behind
    have short := Separated.length later
    have enough : items.length ≤ (tokens ++ separator :: later_tokens ++ next :: rest).length := by
      rw [List.length_append, List.length_append, List.length_cons]
      omega
    have more := moreSeparated_reads each behind later enough rest ends.1 ends.2
    rw [List.append_assoc, List.cons_append] at more ⊢
    rw [bind_ok read, bind_ok more]
    rfl

end Lists

section Operands

variable {field : String} {value : Literal} {op : CompareOp} {tokens : List Token} {s : String}

theorem parseIdent_reads (s : String) (tokens : List Token) (name : NameTokens s tokens) :
    Reads parseIdent tokens s fun _ => True := by
  cases name with
  | name free =>
    intro next rest _
    exact parseIdent_ok (List.cons_ne_nil _ _)

theorem parseField_reads (path : FieldTokens field tokens) : Reads parseField tokens field (· ≠ .dot) := by
  cases path with
  | path dotted =>
    intro next rest ends
    have read := separated_reads parseIdent_reads trivial dotted next rest ⟨trivial, ends⟩
    rw [parseField, bind_ok read]
    rfl

theorem parseLiteral_reads (value : Literal) (tokens : List Token) (literal : LiteralTokens value tokens) :
    Reads parseLiteral tokens value fun _ => True := by
  intro next rest _
  have more : next :: rest ≠ [] := List.cons_ne_nil _ _
  cases literal with
  | str => exact bind_ok (advance_ok more)
  | num => exact bind_ok (advance_ok more)
  | true letters =>
    refine (bind_ok (advance_ok more)).trans ?_
    simp [letters]
  | false letters =>
    refine (bind_ok (advance_ok more)).trans ?_
    simp [letters, not_eqIgnoreAsciiCase letters (show eqIgnoreAsciiCase "false" "true" = false by rfl)]
  | ident free no_true no_false =>
    refine (bind_ok (advance_ok more)).trans ?_
    simp [no_true, no_false]

theorem fieldTokens_head (path : FieldTokens field tokens) :
    ∃ s more, tokens = .ident s :: more ∧ Free s := by
  cases path with
  | path dotted =>
    cases dotted with
    | one last =>
      cases last with
      | name free => exact ⟨_, _, rfl, free⟩
    | more first later =>
      cases first with
      | name free => exact ⟨_, _, rfl, free⟩

theorem compareOp_opToken (op : CompareOp) : compareOp (opToken op) = some op := by
  cases op <;> rfl

theorem parsePredicate_compare (op : CompareOp) {us : List Token}
    (path : FieldTokens field tokens) (literal : LiteralTokens value us) :
    Reads parsePredicate (tokens ++ opToken op :: us) (.compare field op value) fun _ => True := by
  intro next rest _
  have no_dot : opToken op ≠ .dot := by cases op <;> decide
  have read := parseLiteral_reads value us literal next rest trivial
  rw [List.append_assoc, List.cons_append, parsePredicate, bind_ok (parseField_reads path _ _ no_dot),
    bind_ok (eatKeyword_no not_keyword_op), if_neg Bool.false_ne_true,
      bind_ok (advance_ok (by simp)), compareOp_opToken]
  dsimp only
  rw [bind_ok read]
  rfl

theorem parsePredicate_in {values : List Literal} {t : Token} {us : List Token} (path : FieldTokens field tokens)
    (kw : Keyword "IN" t) (literals : Separated .comma LiteralTokens values us) :
    Reads parsePredicate (tokens ++ t :: .lParen :: (us ++ [.rParen])) (.in_ field values) fun _ => True := by
  intro next rest _
  have no_dot : t ≠ .dot := by
    rintro rfl
    cases kw
  have list := separated_reads parseLiteral_reads trivial literals .rParen (next :: rest) ⟨trivial, by decide⟩
  simp only [List.append_assoc, List.cons_append, List.nil_append]
  rw [parsePredicate, bind_ok (parseField_reads path _ _ no_dot), bind_ok (eatKeyword_yes kw (by simp)), if_pos rfl,
    bind_ok (expect_ok (by simp)), bind_ok list, bind_ok (expect_ok (by simp))]
  rfl

end Operands

section Chains

variable {item : Parser A} {join : A → A → A} {kw : String} {tokens us : List Token} {a b : A} {t : Token}
  {follows : Token → Prop}

def Chain (kw : String) (join : A → A → A) (item : Parser A) (tokens : List Token) (a : A) (follows : Token → Prop) :
    Prop :=
  ∃ n ≤ tokens.length, ∀ k next rest, follows next →
    (item >>= moreChained kw join item (n + k)) (tokens ++ next :: rest) = moreChained kw join item k a (next :: rest)

theorem Chain.first (read : Reads item tokens a follows) : Chain kw join item tokens a follows := by
  refine ⟨0, Nat.zero_le _, ?_⟩
  intro k next rest ends
  rw [bind_ok (read next rest ends), Nat.zero_add]

theorem Chain.more (left : Chain kw join item tokens a follows) (is : Keyword kw t) (behind : follows t)
    (right : Reads item us b follows) : Chain kw join item (tokens ++ t :: us) (join a b) follows := by
  obtain ⟨n, short, reads⟩ := left
  refine ⟨n + 1, ?_, ?_⟩
  next =>
    rw [List.length_append, List.length_cons]
    omega
  next =>
    intro k next rest ends
    rw [List.append_assoc, List.cons_append, Nat.add_assoc, reads (1 + k) t _ behind, Nat.add_comm, moreChained,
      bind_ok (eatKeyword_yes is (by simp)), if_pos rfl, bind_ok (right next rest ends)]

theorem Chain.reads (chain : Chain kw join item tokens a follows) :
    Reads (chained kw join item) tokens a fun t => follows t ∧ ¬Keyword kw t := by
  obtain ⟨n, short, reads⟩ := chain
  intro next rest ends
  have stop (k : Nat) : moreChained kw join item k a (next :: rest) = .ok (a, next :: rest) := by
    cases k with
    | zero => rfl
    | succ k =>
      rw [moreChained, bind_ok (eatKeyword_no ends.2)]
      rfl
  have fuel : (tokens ++ next :: rest).length = n + ((tokens ++ next :: rest).length - n) := by
    rw [List.length_append]
    omega
  rw [chained, get_bind, fuel, reads _ next rest ends.1, stop]

end Chains

section Expressions

variable {room : Nat} {level : Level} {e : Expr} {tokens : List Token}

-- What may stand behind an operand.
def Behind : Level → Token → Prop
  | .or, t => ¬Keyword "AND" t ∧ ¬Keyword "OR" t
  | .and, t => ¬Keyword "AND" t
  | .unary, _ => True

def ReadsAt (room : Nat) (e : Expr) (tokens : List Token) : Level → Prop
  | .or => Chain "OR" .or (parseAndExpr (parseUnaryExpr room)) tokens e fun t => ¬Keyword "AND" t
  | .and => Chain "AND" .and (parseUnaryExpr room) tokens e fun _ => True
  | .unary => Reads (parseUnaryExpr room) tokens e fun _ => True

theorem parseAndExpr_reads (chain : ReadsAt room e tokens .and) :
    Reads (parseAndExpr (parseUnaryExpr room)) tokens e fun t => ¬Keyword "AND" t := by
  intro next rest ends
  exact Chain.reads chain next rest ⟨trivial, ends⟩

theorem parseUnary_predicate (inner : Option (Parser Expr)) {s : String} {rest : List Token} (free : Free s) :
    parseUnary inner (.ident s :: rest) = parsePredicate (.ident s :: rest) := by
  have no_not : isKeyword "NOT" (.ident s) = false := free "NOT" (by decide)
  simp [parseUnary.eq_def, no_not]

theorem parseUnaryExpr_eq (room : Nat) : ∃ inner, parseUnaryExpr room = parseUnary inner := by
  cases room with
  | zero => exact ⟨none, rfl⟩
  | succ room => exact ⟨some (parseUnaryExpr room), rfl⟩

theorem exprTokens_reads (printed : ExprTokens level room e tokens) : ReadsAt room e tokens level := by
  induction printed with
  | or left kw right ih ih' =>
    apply Chain.more ih kw (Keyword.ne kw rfl)
    exact parseAndExpr_reads ih'
  | and_or inside ih => exact Chain.first (parseAndExpr_reads ih)
  | and left kw right ih ih' => exact Chain.more ih kw trivial ih'
  | unary_and inside ih => exact Chain.first ih
  | not kw inside ih =>
    intro next rest _
    rw [Keyword] at kw
    rw [List.cons_append, parseUnaryExpr, parseUnary, peek_bind, if_pos kw]
    rw [bind_ok (advance_ok (by simp)), bind_ok (ih next rest trivial)]
    rfl
  | paren inside ih =>
    intro next rest _
    have no_and : ¬Keyword "AND" .rParen := Bool.false_ne_true
    have no_or : ¬Keyword "OR" .rParen := Bool.false_ne_true
    have read := Chain.reads ih .rParen (next :: rest) ⟨no_and, no_or⟩
    rw [List.cons_append, List.append_assoc, List.singleton_append, parseUnaryExpr,
      parseUnary, peek_bind, if_neg (by decide),
      if_pos rfl, bind_ok (advance_ok (by simp)), parseOrExpr, bind_ok read, bind_ok (expect_ok (by simp))]
    rfl
  | @compare room field op value ts us path literal =>
    intro next rest _
    have read := parsePredicate_compare op path literal next rest trivial
    obtain ⟨inner, is⟩ := parseUnaryExpr_eq room
    obtain ⟨s, more, rfl, free⟩ := fieldTokens_head path
    rw [is]
    exact (parseUnary_predicate inner free).trans read
  | @in_ room field values t ts us path kw literals =>
    intro next rest _
    have read := parsePredicate_in path kw literals next rest trivial
    obtain ⟨inner, is⟩ := parseUnaryExpr_eq room
    obtain ⟨s, more, rfl, free⟩ := fieldTokens_head path
    rw [is]
    exact (parseUnary_predicate inner free).trans read

theorem parseOrExpr_reads (printed : ExprTokens .or room e tokens) :
    Reads (parseOrExpr (parseUnaryExpr room)) tokens e (Behind .or) :=
  Chain.reads (exprTokens_reads printed)

end Expressions

section Clauses

variable {tokens us vs ws : List Token} {next t : Token} {rest : List Token}

-- What comes behind a filter, and behind an order.
def BeforeOrder (t : Token) : Prop := Keyword "ORDER" t ∨ Keyword "LIMIT" t ∨ t = .eof

def BeforeLimit (t : Token) : Prop := Keyword "LIMIT" t ∨ t = .eof

theorem not_keyword_beforeOrder {kw : String} (before : BeforeOrder t) (order : eqIgnoreAsciiCase "ORDER" kw = false)
    (limit : eqIgnoreAsciiCase "LIMIT" kw = false) : ¬Keyword kw t := by
  rcases before with is | is | rfl
  next => exact Keyword.ne is order
  next => exact Keyword.ne is limit
  next => exact Bool.false_ne_true

theorem not_symbol_keyword {kw : String} (is : Keyword kw t) : ∃ s, t = .ident s := by
  cases t with
  | ident s => exact ⟨s, rfl⟩
  | _ => cases is

theorem parseSelectList_reads {select : SelectList} (list : SelectTokens select tokens) :
    Reads parseSelectList tokens select fun t => t ≠ .dot ∧ t ≠ .comma := by
  intro next rest ends
  cases list with
  | all =>
    rw [List.singleton_append, parseSelectList, peek_bind, if_pos rfl, bind_ok (advance_ok (by simp))]
    rfl
  | fields list =>
    have read := separated_reads (fun _ _ => parseField_reads) (by decide) list next rest ends
    have head : ∃ s more, tokens = .ident s :: more := by
      cases list with
      | one last =>
        obtain ⟨s, more, rfl, -⟩ := fieldTokens_head last
        exact ⟨s, more, rfl⟩
      | more first later =>
        obtain ⟨s, more, rfl, -⟩ := fieldTokens_head first
        exact ⟨s, _, rfl⟩
    obtain ⟨s, more, rfl⟩ := head
    rw [List.cons_append] at read ⊢
    rw [parseSelectList, peek_bind, if_neg (by simp), bind_ok read]
    rfl

theorem parseOrderItem_reads (item : OrderItem) (tokens : List Token) (printed : OrderItemTokens item tokens) :
    Reads parseOrderItem tokens item fun t => t ≠ .dot ∧ ¬Keyword "DESC" t ∧ ¬Keyword "ASC" t := by
  intro next rest ends
  cases printed with
  | plain path =>
    rw [parseOrderItem, bind_ok (parseField_reads path next rest ends.1), bind_ok (eatKeyword_no ends.2.1),
      if_neg Bool.false_ne_true, bind_ok (eatKeyword_no ends.2.2)]
    rfl
  | asc path kw =>
    obtain ⟨s, rfl⟩ := not_symbol_keyword kw
    have no_desc : ¬Keyword "DESC" (.ident s) := Keyword.ne kw rfl
    rw [List.append_assoc, List.singleton_append, parseOrderItem, bind_ok (parseField_reads path _ _ (by simp)),
      bind_ok (eatKeyword_no no_desc), if_neg Bool.false_ne_true, bind_ok (eatKeyword_yes kw (by simp))]
    rfl
  | desc path kw =>
    obtain ⟨s, rfl⟩ := not_symbol_keyword kw
    rw [List.append_assoc, List.singleton_append, parseOrderItem, bind_ok (parseField_reads path _ _ (by simp)),
      bind_ok (eatKeyword_yes kw (by simp)), if_pos rfl]
    rfl

theorem parseFilter_reads {filter : Option Expr} (printed : FilterTokens filter tokens) :
    Reads parseFilter tokens filter BeforeOrder := by
  intro next rest before
  cases printed with
  | none =>
    rw [List.nil_append, parseFilter, bind_ok (eatKeyword_no (not_keyword_beforeOrder before rfl rfl))]
    rfl
  | some kw expr =>
    have read := parseOrExpr_reads expr next rest
      ⟨not_keyword_beforeOrder before rfl rfl, not_keyword_beforeOrder before rfl rfl⟩
    rw [List.cons_append, parseFilter, bind_ok (eatKeyword_yes kw (by simp)), if_pos rfl, bind_ok read]
    rfl

theorem parseOrderBy_reads {orderBy : List OrderItem} (printed : OrderTokens orderBy tokens) :
    Reads parseOrderBy tokens orderBy BeforeLimit := by
  intro next rest before
  have before' : BeforeOrder next := .inr before
  have symbol : next ≠ .dot ∧ next ≠ .comma := by
    rcases before with is | rfl
    next =>
      obtain ⟨s, rfl⟩ := not_symbol_keyword is
      simp
    next => decide
  cases printed with
  | none =>
    have no_order : ¬Keyword "ORDER" next := by
      rcases before with is | rfl
      next => exact Keyword.ne is rfl
      next => exact Bool.false_ne_true
    rw [List.nil_append, parseOrderBy, bind_ok (eatKeyword_no no_order)]
    rfl
  | some kw kw' list =>
    have behind : ¬Keyword "DESC" next ∧ ¬Keyword "ASC" next :=
      ⟨not_keyword_beforeOrder before' rfl rfl, not_keyword_beforeOrder before' rfl rfl⟩
    have comma : Token.comma ≠ .dot ∧ ¬Keyword "DESC" .comma ∧ ¬Keyword "ASC" .comma :=
      ⟨by decide, Bool.false_ne_true, Bool.false_ne_true⟩
    have read := separated_reads parseOrderItem_reads comma list next rest ⟨⟨symbol.1, behind⟩, symbol.2⟩
    rw [List.cons_append, List.cons_append, parseOrderBy, bind_ok (eatKeyword_yes kw (by simp)), if_pos rfl,
      bind_ok (expectKeyword_ok kw' (by simp)), read]

theorem parseLimitClause_reads {limit : Option UInt64} (printed : LimitTokens limit tokens) :
    Reads parseLimitClause tokens limit (· = .eof) := by
  rintro next rest rfl
  cases printed with
  | none =>
    have no_limit : ¬Keyword "LIMIT" .eof := Bool.false_ne_true
    rw [List.nil_append, parseLimitClause, bind_ok (eatKeyword_no no_limit)]
    rfl
  | @some n t kw small =>
    have nonneg : F64.le (.ofInt 0) (.ofInt n.toNat) = true :=
      (F64.le_ofInt_iff (n := 0) (by decide)).mpr (Nat.zero_le _)
    have read : parseLimit (.num (.ofInt n.toNat) :: .eof :: rest) = .ok (n, .eof :: rest) := by
      rw [parseLimit, bind_ok (advance_ok (by simp))]
      dsimp only
      rw [nonneg, F64.isWhole_ofInt small, F64.toU64_ofInt small, UInt64.ofNat_toNat]
      rfl
    rw [List.cons_append, List.singleton_append, parseLimitClause, bind_ok (eatKeyword_yes kw (by simp)), if_pos rfl,
      bind_ok read]
    rfl

theorem limit_head {limit : Option UInt64} (printed : LimitTokens limit ws) :
    ∃ next rest, ws ++ [.eof] = next :: rest ∧ BeforeLimit next := by
  cases printed with
  | none => exact ⟨_, _, rfl, .inr rfl⟩
  | some kw small => exact ⟨_, _, rfl, .inl kw⟩

theorem order_head {orderBy : List OrderItem} {limit : Option UInt64} (order : OrderTokens orderBy vs)
    (printed : LimitTokens limit ws) : ∃ next rest, vs ++ (ws ++ [.eof]) = next :: rest ∧ BeforeOrder next := by
  cases order with
  | none =>
    obtain ⟨next, rest, is, before⟩ := limit_head printed
    exact ⟨next, rest, is, .inr before⟩
  | some kw kw' list => exact ⟨_, _, rfl, .inl kw⟩

theorem parseAll_reads {q : Query} (printed : QueryTokens q tokens) :
    parseAll (tokens ++ [.eof]) = .ok (q, [.eof]) := by
  cases printed with
  | @query t u ts us vs ws kw select kw' free filter order limit =>
    obtain ⟨s, rfl⟩ := not_symbol_keyword kw'
    obtain ⟨next, rest, is, before⟩ := order_head order limit
    obtain ⟨next', rest', is', before'⟩ := limit_head limit
    have filter_read := parseFilter_reads filter next rest before
    have order_read := parseOrderBy_reads order next' rest' before'
    have limit_read := parseLimitClause_reads limit .eof [] rfl
    rw [← is] at filter_read
    rw [← is'] at order_read
    have query : parseQuery ((t :: (ts ++ .ident s :: .ident q.from_ :: (us ++ (vs ++ ws)))) ++ [.eof]) =
      .ok (q, [.eof]) := by
      simp only [List.cons_append, List.append_assoc]
      rw [parseQuery, bind_ok (expectKeyword_ok kw (by simp)), bind_ok (parseSelectList_reads select _ _ (by simp)),
        bind_ok (expectKeyword_ok kw' (by simp)), bind_ok (parseIdent_ok (by simp)), bind_ok filter_read,
        bind_ok order_read, bind_ok limit_read]
      rfl
    rw [parseAll, bind_ok query]
    rfl

end Clauses

end Parser

end Gems.Query
