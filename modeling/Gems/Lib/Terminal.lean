import Gems.Lib.Text
import Mathlib.Logic.Function.Basic

set_option autoImplicit false

namespace Gems.Lib

structure Cell where
  char : Char
  reverse : Bool
  deriving DecidableEq

def Cell.blank : Cell := ⟨' ', false⟩

-- How far a control sequence has come.
inductive ControlStage where
  | text
  | escaped
  | control (params : List Char)

/-- A terminal as far as cursor moves, erasing to the end of a line and reverse video go. Every character that is no
control character takes one cell, so wide and combining ones are left out; a resize leaves each cell where it is. -/
structure Terminal where
  rows : Nat
  cols : Nat
  row : Nat
  col : Nat
  reverse : Bool
  stage : ControlStage
  cell : Nat → Nat → Cell

def isControl (c : Char) : Bool := c.toNat < 32 || (127 ≤ c.toNat && c.toNat < 160)

def isParam (c : Char) : Bool := c.isDigit || c == ';' || c == '?'

def paramNumber (text : List Char) : Nat := Nat.ofDigitChars 10 text 0

namespace Terminal

-- A line that is full goes on in the next one, and the last line scrolls the rest.
def wrap (t : Terminal) : Terminal :=
  if t.col < t.cols then t
  else if t.row + 1 < t.rows then { t with row := t.row + 1, col := 0 }
  else { t with col := 0, cell := fun i j => if i + 1 < t.rows then t.cell (i + 1) j else .blank }

def put (t : Terminal) (c : Char) : Terminal :=
  { t with
    col := t.col + 1
    cell := Function.update t.cell t.row (Function.update (t.cell t.row) t.col ⟨c, t.reverse⟩) }

def moveTo (t : Terminal) (row col : Nat) : Terminal :=
  { t with row := min (row - 1) (t.rows - 1), col := min (col - 1) (t.cols - 1) }

def erase (t : Terminal) : Terminal :=
  { t with cell := Function.update t.cell t.row fun j => if j < t.col then t.cell t.row j else .blank }

-- The other sequences change none of this.
def perform (t : Terminal) (params : List Char) (final : Char) : Terminal :=
  if final = 'H' then
    t.moveTo (paramNumber (params.takeWhile (· != ';'))) (paramNumber ((params.dropWhile (· != ';')).drop 1))
  else if final = 'K' ∧ params = [] then t.erase
  else if final = 'm' ∧ params = ['7'] then { t with reverse := true }
  else if final = 'm' ∧ params = ['0'] then { t with reverse := false }
  else t

def step (t : Terminal) (c : Char) : Terminal :=
  match t.stage with
  | .text =>
    if c = '\x1b' then { t with stage := .escaped }
    else if isControl c then t
    else t.wrap.put c
  | .escaped => if c = '[' then { t with stage := .control [] } else { t with stage := .text }
  | .control params =>
    if isParam c then { t with stage := .control (params ++ [c]) }
    else { t with stage := .text }.perform params c

def feed (t : Terminal) (text : List Char) : Terminal := text.foldl step t

-- The cells stay where they are.
def resize (t : Terminal) (rows cols : Nat) : Terminal := { t with rows, cols }

structure AtRest (t : Terminal) : Prop where
  stage : t.stage = .text
  reverse : t.reverse = false

end Terminal

def csi (params : List Char) (final : Char) : List Char := '\x1b' :: '[' :: (params ++ [final])

structure Styled where
  text : List Char
  reverse : Bool
  deriving DecidableEq

namespace Styled

def Printing (s : Styled) : Prop := ∀ c ∈ s.text, isControl c = false

def cell (s : Styled) (j : Nat) : Cell := (s.text[j]?.map fun c => ⟨c, s.reverse⟩).getD .blank

def codes (s : Styled) : List Char :=
  if s.reverse then csi ['7'] 'm' ++ s.text ++ csi ['0'] 'm' else s.text

end Styled

def repaint (i : Nat) (line : List Char) : List Char :=
  csi (decimal (i + 1) ++ [';', '1']) 'H' ++ csi [] 'K' ++ line

-- What changed between two screens, from a line on.
def repaints (before : List (List Char)) : Nat → List (List Char) → List Char
  | _, [] => []
  | i, line :: lines =>
    if before[i]? = some line then repaints before (i + 1) lines else repaint i line ++ repaints before (i + 1) lines

namespace Terminal

section Feeding

variable {t : Terminal} {s : Styled} {text text' params : List Char} {final : Char} {i : Nat}

@[simp] theorem feed_nil : t.feed [] = t := rfl

theorem feed_cons (c : Char) : t.feed (c :: text) = (t.step c).feed text := rfl

theorem feed_append : t.feed (text ++ text') = (t.feed text).feed text' := List.foldl_append

theorem feed_params {before : List Char} (all : ∀ c ∈ params, isParam c = true) (rest : t.stage = .control before) :
    t.feed params = { t with stage := .control (before ++ params) } := by
  induction params generalizing t before with
  | nil =>
    rw [List.append_nil, ← rest]
    rfl
  | cons c params ih =>
    have read : t.step c = { t with stage := .control (before ++ [c]) } := by
      rw [step, rest]
      simp [all c List.mem_cons_self]
    rw [feed_cons, read, ih (fun c mem => all c (List.mem_cons_of_mem _ mem)) rfl]
    simp

theorem feed_csi (rest : t.stage = .text) (all : ∀ c ∈ params, isParam c = true) (done : isParam final = false) :
    t.feed (csi params final) = { t with stage := .text }.perform params final := by
  have escape : t.step '\x1b' = { t with stage := .escaped } := by
    rw [step, rest]
    rfl
  have opened : { t with stage := .escaped }.step '[' = { t with stage := .control [] } := rfl
  rw [csi, feed_cons, escape, feed_cons, opened, feed_append, feed_params all rfl, feed_cons, feed_nil, step]
  simp [done]

theorem put_char (c : Char) (rest : t.stage = .text) (plain : isControl c = false) (room : t.col < t.cols) :
    t.step c = t.put c := by
  have other : c ≠ '\x1b' := by
    rintro rfl
    exact absurd plain (by decide)
  rw [step, rest]
  simp [other, plain, wrap, room]

theorem feed_text (rest : t.stage = .text) (plain : ∀ c ∈ text, isControl c = false)
    (room : t.col + text.length ≤ t.cols) :
    t.feed text = { t with
      col := t.col + text.length
      cell := Function.update t.cell t.row fun j =>
        if t.col ≤ j ∧ j < t.col + text.length then (text[j - t.col]?.map fun c => ⟨c, t.reverse⟩).getD .blank
        else t.cell t.row j } := by
  induction text generalizing t with
  | nil =>
    have same (j : Nat) : (if t.col ≤ j ∧ j < t.col then Cell.blank else t.cell t.row j) = t.cell t.row j :=
      if_neg (by omega)
    simp only [feed_nil, List.length_nil, List.getElem?_nil, Option.map_none, Option.getD_none, same,
      Function.update_eq_self, Nat.add_zero]
  | cons c text ih =>
    rw [List.length_cons] at room
    rw [feed_cons, put_char c rest (plain c List.mem_cons_self) (by omega),
      ih (by exact rest) (fun c mem => plain c (List.mem_cons_of_mem _ mem)) (by rw [put]; dsimp only; omega)]
    simp only [put, List.length_cons, Function.update_self, Function.update_idem, mk.injEq, true_and]
    refine ⟨by omega, congrArg _ (funext fun j => ?_)⟩
    by_cases here : j = t.col
    · subst here
      simp
    · rw [Function.update_of_ne here]
      by_cases inside : t.col + 1 ≤ j ∧ j < t.col + 1 + text.length
      · rw [if_pos inside, if_pos (by omega), show j - t.col = j - (t.col + 1) + 1 by omega, List.getElem?_cons_succ]
      · rw [if_neg inside, if_neg (by omega)]

theorem paramNumber_decimal {n : Nat} : paramNumber (decimal n) = n := decimal_value

theorem isParam_decimal {n : Nat} {c : Char} (mem : c ∈ decimal n) : isParam c = true := by
  simp [isParam, decimal_isDigit mem]

theorem feed_home (rest : t.AtRest) (row : i < t.rows) :
    t.feed (csi (decimal (i + 1) ++ [';', '1']) 'H') = { t with row := i, col := 0 } := by
  have digits : ∀ c ∈ decimal (i + 1), (c != ';') = true := by
    intro c mem
    rw [bne_iff_ne]
    rintro rfl
    exact absurd (decimal_isDigit mem) (by decide)
  have params : ∀ c ∈ decimal (i + 1) ++ [';', '1'], isParam c = true := by
    intro c mem
    rcases List.mem_append.mp mem with digit | other
    · exact isParam_decimal digit
    · simp only [List.mem_cons, List.not_mem_nil, or_false] at other
      rcases other with rfl | rfl <;> rfl
  have one : paramNumber ['1'] = 1 := by decide
  rw [feed_csi rest.stage params rfl, perform, if_pos rfl, List.takeWhile_append_of_pos digits,
    List.dropWhile_append_of_pos digits]
  simp only [moveTo, List.takeWhile_cons, List.dropWhile_cons, bne_self_eq_false, Bool.false_eq_true, ↓reduceIte,
    List.append_nil, List.drop_succ_cons, List.drop_zero, paramNumber_decimal, one, Nat.add_sub_cancel, Nat.sub_self,
    Nat.zero_min, ← rest.stage]
  rw [Nat.min_eq_left (by omega)]

theorem feed_erase (rest : t.AtRest) (start : t.col = 0) :
    t.feed (csi [] 'K') = { t with cell := Function.update t.cell t.row fun _ => .blank } := by
  rw [feed_csi rest.stage (fun c none => absurd none List.not_mem_nil) rfl]
  simp [perform, erase, start, ← rest.stage]

theorem feed_reverse (rest : t.stage = .text) : t.feed (csi ['7'] 'm') = { t with reverse := true } := by
  rw [feed_csi rest (by simp [isParam]) rfl]
  simp [perform, ← rest]

theorem feed_reset (rest : t.stage = .text) : t.feed (csi ['0'] 'm') = { t with reverse := false } := by
  rw [feed_csi rest (by simp [isParam]) rfl]
  simp [perform, ← rest]

theorem feed_codes (rest : t.AtRest) (start : t.col = 0) (empty : t.cell t.row = fun _ => .blank) (plain : s.Printing)
    (fits : s.text.length ≤ t.cols) :
    t.feed s.codes = { t with col := s.text.length, cell := Function.update t.cell t.row s.cell } := by
  have drawn : (fun j => if 0 ≤ j ∧ j < s.text.length then
      (s.text[j - 0]?.map fun c => (⟨c, s.reverse⟩ : Cell)).getD .blank else .blank) = s.cell := by
    funext j
    by_cases inside : j < s.text.length
    · simp [Styled.cell, inside]
    · simp [Styled.cell, inside]
  cases styled : s.reverse with
  | false =>
    have same : s.codes = s.text := by simp [Styled.codes, styled]
    rw [same, feed_text rest.stage plain (by omega)]
    simp only [start, empty, rest.reverse, Nat.zero_add]
    rw [← styled, drawn]
  | true =>
    have same : s.codes = csi ['7'] 'm' ++ s.text ++ csi ['0'] 'm' := by simp [Styled.codes, styled]
    rw [same, feed_append, feed_append, feed_reverse rest.stage, feed_text (by exact rest.stage) plain (by simp; omega),
      feed_reset (by exact rest.stage)]
    simp only [start, empty, Nat.zero_add, ← rest.reverse]
    rw [← styled, drawn]

theorem feed_repaint (rest : t.AtRest) (row : i < t.rows) (plain : s.Printing) (fits : s.text.length ≤ t.cols) :
    t.feed (repaint i s.codes) =
      { t with row := i, col := s.text.length, cell := Function.update t.cell i s.cell } := by
  have start : AtRest { t with row := i, col := 0 } := ⟨rest.stage, rest.reverse⟩
  have cleared : AtRest { t with row := i, col := 0, cell := Function.update t.cell i fun _ => .blank } :=
    ⟨rest.stage, rest.reverse⟩
  rw [repaint, feed_append, feed_append, feed_home rest row, feed_erase start rfl,
    feed_codes cleared rfl (Function.update_self ..) plain fits]
  dsimp only
  rw [Function.update_idem]

end Feeding

section Repainting

variable {t : Terminal} {before lines : List Styled}

-- The codes of two texts differ where the texts do.
theorem codes_injective {s s' : Styled} (plain : s.Printing) (plain' : s'.Printing) (same : s.codes = s'.codes) :
    s = s' := by
  have apart {s s' : Styled} (plain : s.Printing) (styled : s.reverse = false) (styled' : s'.reverse = true) :
      s.codes ≠ s'.codes := by
    intro same
    have first : '\x1b' ∈ s.text := by
      have codes : s.codes = s.text := by simp [Styled.codes, styled]
      rw [← codes, same]
      simp [Styled.codes, styled', csi]
    exact absurd (plain _ first) (by decide)
  cases styled : s.reverse with
  | false =>
    cases styled' : s'.reverse with
    | false =>
      simp only [Styled.codes, styled, styled', Bool.false_eq_true, ↓reduceIte] at same
      cases s
      cases s'
      simp_all
    | true => exact absurd same (apart plain styled styled')
  | true =>
    cases styled' : s'.reverse with
    | false => exact absurd same.symm (apart plain' styled' styled)
    | true =>
      simp only [Styled.codes, styled, styled', ↓reduceIte] at same
      have texts := List.append_cancel_left (List.append_cancel_right same)
      cases s
      cases s'
      simp_all

/-- The lines of a screen stand on the terminal. -/
def Displays (t : Terminal) (lines : List Styled) : Prop := ∀ i s, lines[i]? = some s → t.cell i = s.cell

theorem feed_repaints_from {i : Nat} (rest : t.AtRest) (rows : i + lines.length ≤ t.rows)
    (plain : ∀ s ∈ lines, s.Printing) (fits : ∀ s ∈ lines, s.text.length ≤ t.cols)
    (plain' : ∀ s ∈ before, s.Printing) (held : ∀ j s, i ≤ j → before[j]? = some s → t.cell j = s.cell) :
    ∃ t' : Terminal, t.feed (repaints (before.map Styled.codes) i (lines.map Styled.codes)) = t' ∧ t'.AtRest ∧
      t'.rows = t.rows ∧ t'.cols = t.cols ∧ (∀ j, j < i → t'.cell j = t.cell j) ∧
      ∀ k s, lines[k]? = some s → t'.cell (i + k) = s.cell := by
  induction lines generalizing t i with
  | nil => exact ⟨t, rfl, rest, rfl, rfl, fun _ _ => rfl, fun k s none => by simp at none⟩
  | cons s lines ih =>
    rw [List.length_cons] at rows
    have later := fun s' mem => plain s' (List.mem_cons_of_mem s mem)
    have narrow := fun s' mem => fits s' (List.mem_cons_of_mem s mem)
    -- either way the line stands before the others are looked at
    have drawn : ∃ t₁ : Terminal, t₁.AtRest ∧ t₁.rows = t.rows ∧ t₁.cols = t.cols ∧
        t₁.cell = Function.update t.cell i s.cell ∧
        t.feed (repaints (before.map Styled.codes) i ((s :: lines).map Styled.codes)) =
          t₁.feed (repaints (before.map Styled.codes) (i + 1) (lines.map Styled.codes)) := by
      rw [List.map_cons, repaints]
      split
      next same =>
        rw [List.getElem?_map, Option.map_eq_some_iff] at same
        obtain ⟨s', here, codes⟩ := same
        obtain rfl := codes_injective (plain' s' (List.mem_of_getElem? here)) (plain s List.mem_cons_self) codes
        refine ⟨t, rest, rfl, rfl, ?_, rfl⟩
        rw [← held i s' (Nat.le_refl i) here, Function.update_eq_self]
      next =>
        refine ⟨{ t with row := i, col := s.text.length, cell := Function.update t.cell i s.cell },
          ⟨rest.stage, rest.reverse⟩, rfl, rfl, rfl, ?_⟩
        rw [feed_append, feed_repaint rest (by omega) (plain s List.mem_cons_self) (fits s List.mem_cons_self)]
    obtain ⟨t₁, rest₁, rows₁, cols₁, cell₁, fed⟩ := drawn
    have held₁ : ∀ j s, i + 1 ≤ j → before[j]? = some s → t₁.cell j = s.cell := by
      intro j s' after here
      rw [cell₁, Function.update_of_ne (by omega)]
      exact held j s' (by omega) here
    obtain ⟨t', made, rest', rows', cols', kept, shown⟩ :=
      ih rest₁ (by omega) later (fun s' mem => cols₁ ▸ narrow s' mem) held₁
    refine ⟨t', fed.trans made, rest', rows'.trans rows₁, cols'.trans cols₁, fun j below => ?_, fun k s' here => ?_⟩
    · rw [kept j (by omega), cell₁, Function.update_of_ne (by omega)]
    · cases k with
      | zero =>
        obtain rfl : s = s' := by simpa using here
        rw [Nat.add_zero, kept i (by omega), cell₁, Function.update_self]
      | succ k =>
        rw [List.getElem?_cons_succ] at here
        rw [show i + (k + 1) = i + 1 + k by omega]
        exact shown k s' here

/-- Drawing only the lines that changed brings the whole screen onto the terminal. -/
theorem feed_repaints (rest : t.AtRest) (rows : lines.length ≤ t.rows) (plain : ∀ s ∈ lines, s.Printing)
    (fits : ∀ s ∈ lines, s.text.length ≤ t.cols) (plain' : ∀ s ∈ before, s.Printing) (held : t.Displays before) :
    (t.feed (repaints (before.map Styled.codes) 0 (lines.map Styled.codes))).AtRest ∧
      (t.feed (repaints (before.map Styled.codes) 0 (lines.map Styled.codes))).Displays lines := by
  obtain ⟨t', made, rest', -, -, -, shown⟩ :=
    feed_repaints_from (i := 0) rest (by omega) plain fits plain' fun j s _ here => held j s here
  rw [made]
  refine ⟨rest', fun k s here => ?_⟩
  have stands := shown k s here
  rwa [Nat.zero_add] at stands

end Repainting

end Terminal

end Gems.Lib
