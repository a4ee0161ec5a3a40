import Gems.Query.Printable
import Mathlib.Data.Set.Basic

set_option autoImplicit false

namespace Gems.Query

open Lib

section Measures

namespace Expr

def height : Expr → Nat
  | .and a b => max a.height b.height + 1
  | .or a b => max a.height b.height + 1
  | .not e => e.height + 1
  | .compare _ _ _ => 1
  | .in_ _ _ => 1

def predicates : Expr → Nat
  | .and a b => a.predicates + b.predicates
  | .or a b => a.predicates + b.predicates
  | .not e => e.predicates
  | .compare _ _ _ => 1
  | .in_ _ _ => 1

theorem predicates_le (e : Expr) : e.predicates ≤ 2 ^ e.height := by
  have double {a b m : Nat} (left : a ≤ 2 ^ m) (right : b ≤ 2 ^ m) : a + b ≤ 2 ^ (m + 1) := by
    rw [Nat.pow_succ]
    omega
  induction e with
  | and a b ih ih' =>
    exact double (ih.trans (Nat.pow_le_pow_right (by decide) (Nat.le_max_left _ _)))
      (ih'.trans (Nat.pow_le_pow_right (by decide) (Nat.le_max_right _ _)))
  | or a b ih ih' =>
    exact double (ih.trans (Nat.pow_le_pow_right (by decide) (Nat.le_max_left _ _)))
      (ih'.trans (Nat.pow_le_pow_right (by decide) (Nat.le_max_right _ _)))
  | not e ih => exact ih.trans (Nat.pow_le_pow_right (by decide) (Nat.le_succ _))
  | compare field op value => exact Nat.one_le_two_pow
  | in_ field values => exact Nat.one_le_two_pow

end Expr

-- Comparison operators and opening parentheses.
def isMark : Token → Bool
  | .lParen => true
  | token => (Parser.compareOp token).isSome

def marks (tokens : List Token) : Nat := tokens.countP isMark

end Measures

def mark (token : Token) : Nat := if isMark token then 1 else 0

def Ended (tokens : List Token) : Prop := ∃ front, tokens = front ++ [.eof] ∧ .eof ∉ front

theorem Ended.cons {tokens : List Token} (ended : Ended tokens) : ∃ token rest, tokens = token :: rest := by
  obtain ⟨front, rfl, -⟩ := ended
  cases front with
  | nil => exact ⟨_, _, rfl⟩
  | cons t front => exact ⟨_, _, rfl⟩

theorem marks_cons (t : Token) (tokens : List Token) : marks (t :: tokens) = mark t + marks tokens := by
  rw [marks, List.countP_cons, mark, marks, Nat.add_comm]

namespace Parser

open Scanner

variable {A B : Type}

/-- Whatever the parser reads, the tokens it takes have so many marks. -/
def Takes (m : Parser A) (cost : A → Nat → Prop) : Prop :=
  ∀ tokens a rest, Ended tokens → m tokens = .ok (a, rest) → Ended rest ∧ ∃ n, marks tokens = n + marks rest ∧ cost a n

section Rules

variable {m : Parser A} {f : A → Parser B} {cost : A → Nat → Prop} {cost' : B → Nat → Prop} {a : A} {kw : String}
  {token : Token} {rest : List Token}

theorem Takes.pure (holds : cost a 0) : Takes (Pure.pure a : Parser A) cost := by
  intro tokens a' rest ended run
  cases run
  exact ⟨ended, 0, (Nat.zero_add _).symm, holds⟩

theorem Takes.fail (e : ParseError) : Takes (Scanner.fail e : Parser A) cost := by
  intro tokens a rest ended run
  cases run

theorem Takes.bind (first : Takes m cost) (next : ∀ a n, cost a n → Takes (f a) fun b k => cost' b (n + k)) :
    Takes (m >>= f) cost' := by
  intro tokens b rest ended run
  obtain ⟨a, mid, run', later⟩ := of_bind_ok run
  obtain ⟨ended', n, size, holds⟩ := first tokens a mid ended run'
  obtain ⟨ended'', k, size', holds'⟩ := next a n holds mid b rest ended' later
  exact ⟨ended'', n + k, by omega, holds'⟩

theorem Takes.imp {cost' : A → Nat → Prop} (takes : Takes m cost) (imp : ∀ a n, cost a n → cost' a n) :
    Takes m cost' := by
  intro tokens a rest ended run
  obtain ⟨ended', n, size, holds⟩ := takes tokens a rest ended run
  exact ⟨ended', n, size, imp a n holds⟩

theorem advance_takes (ended : Ended (token :: rest)) :
    ∃ rest', advance (token :: rest) = .ok (token, rest') ∧ Ended rest' ∧
      marks (token :: rest) = mark token + marks rest' := by
  cases rest with
  | nil =>
    obtain ⟨front, shape, none⟩ := ended
    have last : token = .eof := by
      cases front with
      | nil =>
        cases shape
        rfl
      | cons t front => simp at shape
    subst last
    exact ⟨[.eof], rfl, ⟨[], rfl, none.imp fun no => absurd no (by simp)⟩, rfl⟩
  | cons next rest =>
    refine ⟨next :: rest, rfl, ?_, marks_cons _ _⟩
    obtain ⟨front, shape, none⟩ := ended
    cases front with
    | nil => simp at shape
    | cons t front =>
      rw [List.cons_append, List.cons.injEq] at shape
      exact ⟨front, shape.2, fun no => none (List.mem_cons_of_mem _ no)⟩

-- A parser that looks at the next token and may then take it.
theorem Takes.step {m : Parser A} (step : ∀ token rest rest', Ended (token :: rest) → Ended rest' →
      advance (token :: rest) = .ok (token, rest') → marks (token :: rest) = mark token + marks rest' →
      ∀ a end_, m (token :: rest) = .ok (a, end_) →
        Ended end_ ∧ ∃ n, marks (token :: rest) = n + marks end_ ∧ cost a n) :
    Takes m cost := by
  intro tokens a end_ ended run
  obtain ⟨token, rest, rfl⟩ := Ended.cons ended
  obtain ⟨rest', taken, ended', size⟩ := advance_takes ended
  exact step token rest rest' ended ended' taken size a end_ run

theorem advance_mark : Takes advance fun token n => n = mark token := by
  apply Takes.step
  intro token rest rest' ended ended' taken size a end_ run
  rw [taken] at run
  cases run
  exact ⟨ended', mark token, size, rfl⟩

theorem eatKeyword_takes (kw : String) : Takes (eatKeyword kw) fun _ n => n = 0 := by
  apply Takes.step
  intro token rest rest' ended ended' taken size a end_ run
  rw [eatKeyword, peek_bind] at run
  split at run
  next is =>
    rw [bind_ok taken] at run
    cases run
    refine ⟨ended', 0, ?_, rfl⟩
    cases token with
    | ident s => exact size
    | _ => cases is
  next =>
    cases run
    exact ⟨ended, 0, (Nat.zero_add _).symm, rfl⟩

theorem expectKeyword_takes (kw : String) : Takes (expectKeyword kw) fun _ n => n = 0 := by
  apply (eatKeyword_takes kw).bind
  rintro found n rfl
  split
  next => exact .pure rfl
  next =>
    intro tokens a rest ended run
    cases run

theorem expect_takes (token : Token) : Takes (expect token) fun _ n => n = mark token := by
  apply Takes.step
  intro found rest rest' ended ended' taken size a end_ run
  rw [expect, peek_bind] at run
  split at run
  next same =>
    subst same
    rw [bind_ok taken] at run
    cases run
    exact ⟨ended', _, size, rfl⟩
  next => cases run

theorem parseIdent_takes : Takes parseIdent fun _ n => n = 0 := by
  apply advance_mark.bind
  rintro token n rfl
  cases token with
  | ident s => exact .pure rfl
  | _ => exact .fail _

theorem parseLiteral_takes : Takes parseLiteral fun _ n => n = 0 := by
  apply advance_mark.bind
  rintro token n rfl
  cases token with
  | ident s =>
    dsimp only
    split
    next => exact .pure rfl
    next =>
      split
      next => exact .pure rfl
      next => exact .pure rfl
  | str s => exact .pure rfl
  | num n => exact .pure rfl
  | _ => exact .fail _

section Lists

variable {item : Parser A} {separator : Token}

theorem moreSeparated_takes (each : Takes item fun _ n => n = 0) (plain : mark separator = 0) (fuel : Nat) :
    Takes (moreSeparated separator item fuel) fun _ n => n = 0 := by
  induction fuel with
  | zero => exact .pure rfl
  | succ fuel ih =>
    apply Takes.step
    intro token rest rest' ended ended' taken size a end_ run
    rw [moreSeparated, peek_bind] at run
    split at run
    next same =>
      rw [bind_ok taken] at run
      have later : Takes (item >>= fun a => moreSeparated separator item fuel >>= fun more => Pure.pure (a :: more))
          fun _ n => n = 0 := by
        apply each.bind
        rintro a n rfl
        apply ih.bind
        rintro more n rfl
        exact .pure rfl
      obtain ⟨ended'', n, size', rfl⟩ := later rest' a end_ ended' run
      have free : mark token = 0 := same ▸ plain
      exact ⟨ended'', 0, by omega, rfl⟩
    next =>
      cases run
      exact ⟨ended, 0, (Nat.zero_add _).symm, rfl⟩

theorem separated_takes (each : Takes item fun _ n => n = 0) (plain : mark separator = 0) :
    Takes (separated separator item) fun _ n => n = 0 := by
  intro tokens a rest ended run
  rw [separated, get_bind] at run
  have whole : Takes (item >>= fun a => moreSeparated separator item tokens.length >>=
    fun more => Pure.pure (a :: more))
      fun _ n => n = 0 := by
    apply each.bind
    rintro a n rfl
    apply (moreSeparated_takes each plain _).bind
    rintro more n rfl
    exact .pure rfl
  exact whole tokens a rest ended run

theorem moreChained_takes {kw : String} {join : A → A → A} (each : Takes item cost)
    (joins : ∀ a b n k, cost a n → cost b k → cost (join a b) (n + k)) (fuel : Nat) {left : A} {n : Nat}
    (holds : cost left n) : Takes (moreChained kw join item fuel left) fun e k => cost e (n + k) := by
  induction fuel generalizing left n with
  | zero => exact .pure holds
  | succ fuel ih =>
    apply (eatKeyword_takes kw).bind
    rintro found k rfl
    split
    next =>
      apply each.bind
      intro right k holds'
      apply (ih (joins left right n k holds holds')).imp
      intro e l holds''
      rwa [Nat.zero_add, ← Nat.add_assoc]
    next => exact .pure (by simpa using holds)

theorem chained_takes {kw : String} {join : A → A → A} (each : Takes item cost)
    (joins : ∀ a b n k, cost a n → cost b k → cost (join a b) (n + k)) : Takes (chained kw join item) cost := by
  intro tokens a rest ended run
  rw [chained, get_bind] at run
  have whole : Takes (item >>= fun first => moreChained kw join item tokens.length first) cost := by
    apply each.bind
    intro first n holds
    exact moreChained_takes each joins _ holds
  exact whole tokens a rest ended run

end Lists

theorem parseField_takes : Takes parseField fun _ n => n = 0 := by
  apply (separated_takes parseIdent_takes rfl).bind
  rintro path n rfl
  exact .pure rfl

end Rules

section Expressions

variable {room : Nat}

/-- An expression whose tokens have `n` marks. -/
structure Cost (room : Nat) (e : Expr) (n : Nat) : Prop where
  some : 1 ≤ e.predicates
  low : e.predicates ≤ n
  high : n ≤ (room + 1) * e.predicates
  height : e.height ≤ e.predicates + room

theorem Cost.join {a b : Expr} {n k : Nat} (left : Cost room a n) (right : Cost room b k) :
    Cost room (.and a b) (n + k) ∧ Cost room (.or a b) (n + k) := by
  have low := left.low
  have low' := right.low
  have some := left.some
  have some' := right.some
  have high := left.high
  have high' := right.high
  have height := left.height
  have height' := right.height
  have sum : n + k ≤ (room + 1) * (a.predicates + b.predicates) := by
    rw [Nat.mul_add]
    omega
  have tall : max a.height b.height + 1 ≤ a.predicates + b.predicates + room := by omega
  exact ⟨⟨Nat.le_add_right_of_le some, Nat.add_le_add low low', sum, tall⟩,
    ⟨Nat.le_add_right_of_le some, Nat.add_le_add low low', sum, tall⟩⟩

theorem Cost.not {e : Expr} {n : Nat} (cost : Cost room e n) : Cost (room + 1) (.not e) n where
  some := cost.some
  low := cost.low
  high := cost.high.trans (Nat.mul_le_mul_right _ (Nat.le_succ _))
  height := by
    have height := cost.height
    simp only [Expr.height, Expr.predicates]
    omega

theorem Cost.paren {e : Expr} {n : Nat} (cost : Cost room e n) : Cost (room + 1) e (n + 1) where
  some := cost.some
  low := Nat.le_succ_of_le cost.low
  high := by
    have high := cost.high
    have some := cost.some
    rw [Nat.succ_mul (room + 1)]
    omega
  height := Nat.le_succ_of_le cost.height

theorem Cost.leaf {e : Expr} (one : e.predicates = 1) (flat : e.height = 1) : Cost room e 1 where
  some := one.ge
  low := one.le
  high := by
    rw [one]
    omega
  height := by omega

theorem mark_of_compareOp {token : Token} {op : CompareOp} (is : compareOp token = some op) : mark token = 1 := by
  cases token with
  | eq | neq | lt | lte | gt | gte => rfl
  | _ => cases is

theorem mark_of_isKeyword {kw : String} {token : Token} (is : isKeyword kw token = true) : mark token = 0 := by
  cases token with
  | ident s => rfl
  | _ => cases is

theorem parsePredicate_takes : Takes parsePredicate (Cost room) := by
  apply parseField_takes.bind
  rintro field n rfl
  apply (eatKeyword_takes "IN").bind
  rintro found n rfl
  split
  next =>
    apply (expect_takes .lParen).bind
    rintro - n rfl
    apply (separated_takes parseLiteral_takes rfl).bind
    rintro values n rfl
    apply (expect_takes .rParen).bind
    rintro - n rfl
    exact .pure (Cost.leaf rfl rfl)
  next =>
    apply advance_mark.bind
    rintro token n rfl
    split
    next op is =>
      rw [mark_of_compareOp is]
      apply parseLiteral_takes.bind
      rintro value n rfl
      exact .pure (Cost.leaf rfl rfl)
    next => exact .fail _

theorem parseOrExpr_takes {unary : Parser Expr} (each : Takes unary (Cost room)) :
    Takes (parseOrExpr unary) (Cost room) := by
  apply chained_takes
  next =>
    apply chained_takes each
    intro a b n k left right
    exact (left.join right).1
  next =>
    intro a b n k left right
    exact (left.join right).2

theorem parseUnary_takes {inner : Option (Parser Expr)}
    (deeper : ∀ unary, inner = some unary → ∃ less, room = less + 1 ∧ Takes unary (Cost less)) :
    Takes (parseUnary inner) (Cost room) := by
  apply Takes.step
  intro token rest rest' ended ended' taken size e end_ run
  rw [parseUnary.eq_def, peek_bind] at run
  split at run
  next is =>
    cases inner with
    | none => cases run
    | some unary =>
      obtain ⟨less, rfl, each⟩ := deeper unary rfl
      have operand : Takes (unary >>= fun e => Pure.pure (.not e)) (Cost (less + 1)) := by
        apply each.bind
        intro e n cost
        exact .pure cost.not
      dsimp only at run
      rw [bind_ok taken] at run
      obtain ⟨ended'', n, size', cost⟩ := operand rest' e end_ ended' run
      have free : mark token = 0 := mark_of_isKeyword is
      exact ⟨ended'', n, by omega, cost⟩
  next =>
    split at run
    next opening =>
      cases inner with
      | none => cases run
      | some unary =>
        obtain ⟨less, rfl, each⟩ := deeper unary rfl
        have inside : Takes (parseOrExpr unary >>= fun e => expect .rParen >>= fun _ => Pure.pure e)
            fun e n => Cost (less + 1) e (n + 1) := by
          apply (parseOrExpr_takes each).bind
          intro e n cost
          apply (expect_takes .rParen).bind
          rintro - k rfl
          exact .pure cost.paren
        dsimp only at run
        rw [bind_ok taken] at run
        obtain ⟨ended'', n, size', cost⟩ := inside rest' e end_ ended' run
        have one : mark token = 1 := opening ▸ rfl
        exact ⟨ended'', n + 1, by omega, cost⟩
    next => exact parsePredicate_takes (token :: rest) e end_ ended run

theorem parseUnaryExpr_takes (room : Nat) : Takes (parseUnaryExpr room) (Cost room) := by
  induction room with
  | zero =>
    apply parseUnary_takes
    intro unary none
    cases none
  | succ room ih =>
    apply parseUnary_takes
    rintro unary ⟨⟩
    exact ⟨room, rfl, ih⟩

end Expressions

section Queries

theorem parseSelectList_takes : Takes parseSelectList fun _ n => n = 0 := by
  apply Takes.step
  intro token rest rest' ended ended' taken size select end_ run
  rw [parseSelectList, peek_bind] at run
  split at run
  next star =>
    rw [bind_ok taken] at run
    cases run
    have free : mark token = 0 := star ▸ rfl
    exact ⟨ended', 0, by omega, rfl⟩
  next =>
    have list : Takes (separated .comma parseField >>= fun names => Pure.pure (SelectList.fields names)) fun _ n =>
      n = 0 := by
      apply (separated_takes parseField_takes rfl).bind
      rintro names n rfl
      exact .pure rfl
    exact list (token :: rest) select end_ ended run

theorem parseOrderItem_takes : Takes parseOrderItem fun _ n => n = 0 := by
  apply parseField_takes.bind
  rintro field n rfl
  apply (eatKeyword_takes "DESC").bind
  rintro descending n rfl
  split
  next => exact .pure rfl
  next =>
    apply (eatKeyword_takes "ASC").bind
    rintro ascending n rfl
    exact .pure rfl

theorem parseOrderBy_takes : Takes parseOrderBy fun _ n => n = 0 := by
  apply (eatKeyword_takes "ORDER").bind
  rintro found n rfl
  split
  next =>
    apply (expectKeyword_takes "BY").bind
    rintro - n rfl
    exact (separated_takes parseOrderItem_takes rfl).imp fun _ n zero => by omega
  next => exact .pure rfl

theorem parseLimit_takes : Takes parseLimit fun _ n => n = 0 := by
  apply advance_mark.bind
  rintro token n rfl
  cases token with
  | num n =>
    dsimp only
    split
    next => exact .pure rfl
    next => exact .fail _
  | _ => exact .fail _

theorem parseLimitClause_takes : Takes parseLimitClause fun _ n => n = 0 := by
  apply (eatKeyword_takes "LIMIT").bind
  rintro found n rfl
  split
  next =>
    apply parseLimit_takes.bind
    rintro limit n rfl
    exact .pure rfl
  next => exact .pure rfl

theorem parseFilter_takes : Takes parseFilter fun filter n => ∀ e, filter = some e → Cost maxExprDepth e n := by
  apply (eatKeyword_takes "WHERE").bind
  rintro found n rfl
  split
  next =>
    apply (parseOrExpr_takes (parseUnaryExpr_takes maxExprDepth)).bind
    intro e n cost
    apply Takes.pure
    rintro e ⟨⟩
    simpa using cost
  next =>
    apply Takes.pure
    intro e none
    cases none

theorem parseQuery_takes : Takes parseQuery fun q n => ∀ e, q.filter = some e → Cost maxExprDepth e n := by
  apply (expectKeyword_takes "SELECT").bind
  rintro - n rfl
  apply parseSelectList_takes.bind
  rintro select n rfl
  apply (expectKeyword_takes "FROM").bind
  rintro - n rfl
  apply parseIdent_takes.bind
  rintro from_ n rfl
  apply parseFilter_takes.bind
  intro filter n cost
  apply parseOrderBy_takes.bind
  rintro orderBy k rfl
  apply parseLimitClause_takes.bind
  rintro limit k rfl
  apply Takes.pure
  simpa using cost

theorem parseAll_marks {tokens rest : List Token} {q : Query} (ended : Ended tokens)
    (run : parseAll tokens = .ok (q, rest)) :
    ∀ e, q.filter = some e → Cost maxExprDepth e (marks tokens) := by
  obtain ⟨q', mid, run', later⟩ := of_bind_ok run
  obtain ⟨ended', n, size, cost⟩ := parseQuery_takes tokens q' mid ended run'
  obtain ⟨token, more, rfl⟩ := Ended.cons ended'
  obtain ⟨_, mid', last, done⟩ := of_bind_ok later
  cases done
  rw [expectEof.eq_def, peek_bind] at last
  split at last
  next eof =>
    -- The end is reached, with no mark behind it.
    have nothing : marks (token :: more) = 0 := by
      obtain ⟨front, shape, none⟩ := ended'
      cases front with
      | nil =>
        rw [shape]
        rfl
      | cons t front =>
        rw [List.cons_append, List.cons.injEq] at shape
        exact absurd (shape.1 ▸ eof ▸ List.mem_cons_self) none
    rw [size, nothing]
    exact cost
  next => cases last

end Queries

end Parser

namespace Lexer

open Scanner

theorem tokens_ended {unicode : Unicode} {size fuel : Nat} {text rest : List Char} {found : List Token}
    (run : Lexer.tokens unicode size fuel text = .ok (found, rest)) : Ended found := by
  induction fuel generalizing text found with
  | zero =>
    cases run
    exact ⟨[], rfl, List.not_mem_nil⟩
  | succ fuel ih =>
    obtain ⟨token, mid, -, later⟩ := of_bind_ok run
    split at later
    next =>
      cases later
      exact ⟨[], rfl, List.not_mem_nil⟩
    next other =>
      obtain ⟨more, rest', run', done⟩ := of_bind_ok later
      cases done
      obtain ⟨front, rfl, none⟩ := ih run'
      refine ⟨token :: front, rfl, ?_⟩
      intro mem
      rcases List.mem_cons.mp mem with same | inside
      next => exact other same.symm
      next => exact none inside

end Lexer

section Bound

variable {unicode : Unicode} {src : String} {q : Query} {e : Expr}

/-- How many comparison operators and opening parentheses there are in a source. -/
def marksOf (unicode : Unicode) (src : String) : Nat :=
  match tokenize unicode src with
  | .error _ => 0
  | .ok tokens => marks tokens

theorem parse_marks (run : parse unicode src = .ok q) (filter : q.filter = some e) :
    Parser.Cost maxExprDepth e (marksOf unicode src) := by
  unfold marksOf
  rw [parse] at run
  cases lexed : tokenize unicode src with
  | error e =>
    rw [lexed] at run
    cases run
  | ok tokens =>
    rw [lexed] at run
    dsimp only at run ⊢
    have ended : Ended tokens := by
      rw [tokenize] at lexed
      cases whole : Lexer.tokens unicode (utf8 src).length (src.toList.length + 1) src.toList with
      | error e =>
        rw [whole] at lexed
        cases lexed
      | ok result =>
        rw [whole] at lexed
        cases lexed
        exact Lexer.tokens_ended whole
    cases read : Parser.parseAll tokens with
    | error e =>
      rw [read] at run
      cases run
    | ok result =>
      rw [read] at run
      cases run
      exact Parser.parseAll_marks ended read e filter

/-- One constant bounds the expressions of the sources that are parsed. -/
def BoundedHeight (unicode : Unicode) (sources : Set String) : Prop :=
  ∃ c, ∀ src ∈ sources, ∀ q e, parse unicode src = .ok q → q.filter = some e → e.height ≤ c

def BoundedMarks (unicode : Unicode) (sources : Set String) : Prop :=
  ∃ n, ∀ src ∈ sources, ∀ q e, parse unicode src = .ok q → q.filter = some e → marksOf unicode src ≤ n

theorem boundedHeight_iff (unicode : Unicode) (sources : Set String) :
    BoundedHeight unicode sources ↔ BoundedMarks unicode sources := by
  constructor
  next =>
    rintro ⟨c, bound⟩
    refine ⟨(maxExprDepth + 1) * 2 ^ c, ?_⟩
    intro src mem q e run filter
    have cost := parse_marks run filter
    have short := bound src mem q e run filter
    calc marksOf unicode src
      _ ≤ (maxExprDepth + 1) * e.predicates := cost.high
      _ ≤ (maxExprDepth + 1) * 2 ^ c :=
        Nat.mul_le_mul_left _ (e.predicates_le.trans (Nat.pow_le_pow_right (by decide) short))
  next =>
    rintro ⟨n, bound⟩
    refine ⟨n + maxExprDepth, ?_⟩
    intro src mem q e run filter
    have cost := parse_marks run filter
    have few := bound src mem q e run filter
    have low := cost.low
    have height := cost.height
    omega

-- x = x AND x = x AND ...
def chain : Nat → Expr
  | 0 => .compare "x" .eq (.ident "x")
  | n + 1 => .and (chain n) (.compare "x" .eq (.ident "x"))

theorem name_x : Name .ascii "x" := by
  have letters : Letters "x" := by simp [Letters]
  have free : ∀ kw ∈ keywords, eqIgnoreAsciiCase "x" kw = false := by decide
  exact ⟨letters.lexable, free⟩

theorem chain_spec (n : Nat) : (chain n).height = n + 1 ∧ (chain n).Printable .ascii ∧ (chain n).nesting .and = 0 := by
  have path : Path .ascii "x" := ⟨["x"], List.cons_ne_nil _ _, by simpa using name_x, rfl⟩
  have leaf : (chain 0).Printable .ascii := ⟨path, name_x, by decide, by decide⟩
  induction n with
  | zero => exact ⟨rfl, leaf, rfl⟩
  | succ n ih =>
    obtain ⟨height, printable, flat⟩ := ih
    have tall : max (chain n).height 1 + 1 = n + 1 + 1 := by omega
    have shallow : max ((chain n).nesting .and) 0 = 0 := by omega
    exact ⟨tall, ⟨printable, leaf⟩, shallow⟩

theorem height_unbounded : ¬BoundedHeight .ascii Set.univ := by
  rintro ⟨c, bound⟩
  obtain ⟨height, printable, flat⟩ := chain_spec c
  have flat_or : (chain c).nesting .or = 0 := by
    cases c with
    | zero => rfl
    | succ c => exact flat
  have whole : Query.Printable .ascii
      { select := .all, from_ := "x", filter := some (chain c), orderBy := [], limit := none } :=
    { select := trivial
      from_ := name_x
      filter := by
        rintro e ⟨⟩
        exact ⟨printable, flat_or.le.trans (Nat.zero_le _)⟩
      orderBy := by simp
      limit := by simp }
  obtain ⟨text, run⟩ := whole.parsed
  have short := bound _ (Set.mem_univ _) _ _ run rfl
  omega

end Bound

end Gems.Query
