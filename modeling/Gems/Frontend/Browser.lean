import Gems.Engine.Answers
import Gems.Engine.Seeded
import Gems.Frontend.Mediation
import Gems.Frontend.Tui

set_option autoImplicit false

namespace Gems.Frontend.Tui

open Lib Catalog Codec Engine Storage

section Rows

def rowOf (app : App) (rows cols i : Nat) : Styled :=
  if i + 1 = rows then ⟨padOrTruncate (statusText app) cols, false⟩
  else if i = 0 then ⟨padOrTruncate (title app) cols, true⟩
  else
    match (app.detail.elim [] detailTexts)[i - 1]? with
    | some text => ⟨padOrTruncate (List.replicate (cols / 3) ' ' ++ "| ".toList ++ text) cols, false⟩
    | none => ⟨padOrTruncate (padOrTruncate (listText app (i - 1)) (cols / 3)) cols,
        i - 1 == app.selected && i - 1 < app.entities.length⟩

def rowsOf (app : App) (rows cols : Nat) : List Styled := (List.range rows).map (rowOf app rows cols)

theorem length_padOrTruncate {text : List Char} {width : Nat} : (padOrTruncate text width).length = width := by
  rw [padOrTruncate, List.length_append, List.length_replicate, List.length_take]
  omega

theorem length_rowOf {app : App} {rows cols i : Nat} : (rowOf app rows cols i).text.length = cols := by
  rw [rowOf]
  split
  next => exact length_padOrTruncate
  next =>
    split
    next => exact length_padOrTruncate
    next =>
      split
      next => exact length_padOrTruncate
      next => exact length_padOrTruncate

def PlainText (text : List Char) : Prop := ∀ c ∈ text, isControl c = false

theorem plainText_of_all {text : List Char} (all : (text.all fun c => !isControl c) = true) : PlainText text := by
  intro c mem
  exact Bool.not_eq_true' _ ▸ List.all_eq_true.mp all c mem

theorem plainText_append {text text' : List Char} (plain : PlainText text) (plain' : PlainText text') :
    PlainText (text ++ text') := by
  intro c mem
  rcases List.mem_append.mp mem with mem | mem
  · exact plain c mem
  · exact plain' c mem

theorem plainText_blanks (count : Nat) : PlainText (List.replicate count ' ') := by
  intro c mem
  rw [List.eq_of_mem_replicate mem]
  rfl

theorem plainText_pad {text : List Char} (plain : PlainText text) (width : Nat) :
    PlainText (padOrTruncate text width) :=
  plainText_append (fun c mem => plain c (List.mem_of_mem_take mem)) (plainText_blanks _)

theorem rowsOf_printing {app : App} {rows cols : Nat} (named : PlainText (title app))
    (status : PlainText (statusText app)) (listed : ∀ row, PlainText (listText app row))
    (viewed : ∀ text ∈ app.detail.elim [] detailTexts, PlainText text) :
    ∀ s ∈ rowsOf app rows cols, s.Printing := by
  intro s mem
  obtain ⟨i, -, rfl⟩ := List.mem_map.mp mem
  rw [rowOf]
  split
  next => exact plainText_pad status cols
  next =>
    split
    next => exact plainText_pad named cols
    next =>
      split
      next text here =>
        have bar : PlainText "| ".toList := plainText_of_all (by decide)
        exact plainText_pad (plainText_append (plainText_append (plainText_blanks _) bar)
          (viewed text (List.mem_of_getElem? here))) cols
      next => exact plainText_pad (plainText_pad (listed (i - 1)) (cols / 3)) cols

end Rows

section Drawing

variable {app : App} {rows cols bodyRows listWidth : Nat} {f : Nat → List Char}

-- A screen whose lines are known by their rows.
def lined (rows cols : Nat) (f : Nat → List Char) : Screen := { cols, lines := (List.range rows).map f }

theorem new_lined : Screen.new rows cols = lined rows cols fun _ => [] := by
  rw [Screen.new, lined, List.map_const', List.length_range]

theorem setLine_lined (row : Nat) (text : List Char) (reverse : Bool) :
    (lined rows cols f).setLine row text reverse =
      lined rows cols (Function.update f row (Styled.codes ⟨padOrTruncate text cols, reverse⟩)) := by
  have lines : ((List.range rows).map f).set row (Styled.codes ⟨padOrTruncate text cols, reverse⟩) =
      (List.range rows).map (Function.update f row (Styled.codes ⟨padOrTruncate text cols, reverse⟩)) := by
    refine List.ext_getElem (by simp) fun i inside inside' => ?_
    rw [List.getElem_set]
    by_cases here : row = i
    · subst here
      simp
    · simp [here, Function.update_of_ne (Ne.symm here)]
  exact congrArg (fun lines => { cols, lines : Screen }) lines

theorem list_lined (g : Nat → List Char × Bool) (count : Nat) :
    (List.range count).foldl (fun screen row => screen.setLine (row + 1) (g row).1 (g row).2) (lined rows cols f) =
      lined rows cols fun i =>
        if 0 < i ∧ i ≤ count then Styled.codes ⟨padOrTruncate (g (i - 1)).1 cols, (g (i - 1)).2⟩ else f i := by
  induction count with
  | zero =>
    refine congrArg (lined rows cols) (funext fun i => ?_)
    rw [if_neg (by omega)]
  | succ count ih =>
    rw [List.range_succ, List.foldl_append, ih, List.foldl_cons, List.foldl_nil, setLine_lined]
    refine congrArg (lined rows cols) (funext fun i => ?_)
    by_cases here : i = count + 1
    · subst here
      rw [Function.update_self, if_pos (by omega), Nat.add_sub_cancel]
    · rw [Function.update_of_ne here]
      by_cases before : 0 < i ∧ i ≤ count
      · rw [if_pos before, if_pos (by omega)]
      · rw [if_neg before, if_neg (by omega)]

theorem detail_lined (texts : List (List Char)) (row : Nat) :
    (texts.foldl (pushDetail bodyRows listWidth) (lined rows cols f, row)).1 =
      lined rows cols fun i =>
        if row < i ∧ i ≤ bodyRows then
          (texts[i - 1 - row]?.map fun text =>
            Styled.codes ⟨padOrTruncate (List.replicate listWidth ' ' ++ "| ".toList ++ text) cols, false⟩).getD (f i)
        else f i := by
  induction texts generalizing f row with
  | nil =>
    refine congrArg (lined rows cols) (funext fun i => ?_)
    simp
  | cons text texts ih =>
    rw [List.foldl_cons, pushDetail]
    split
    next room =>
      rw [setLine_lined, ih]
      refine congrArg (lined rows cols) (funext fun i => ?_)
      by_cases here : i = row + 1
      · subst here
        dsimp only at room
        rw [if_neg (by omega), if_pos (by omega), Function.update_self]
        simp
      · rw [Function.update_of_ne here]
        by_cases after : row + 1 < i ∧ i ≤ bodyRows
        · rw [if_pos after, if_pos (by omega), show i - 1 - row = i - 1 - (row + 1) + 1 by omega,
            List.getElem?_cons_succ]
        · rw [if_neg after]
          by_cases first : row < i ∧ i ≤ bodyRows
          · omega
          · rw [if_neg first]
    next full =>
      dsimp only at full
      rw [ih]
      refine congrArg (lined rows cols) (funext fun i => ?_)
      rw [if_neg (by omega), if_neg (by omega)]

theorem detail_pushed (screen : Screen) : (app.detail.elim screen fun detail =>
      ((detailTexts detail).foldl (pushDetail bodyRows listWidth) (screen, 0)).1) =
    ((app.detail.elim [] detailTexts).foldl (pushDetail bodyRows listWidth) (screen, 0)).1 := by
  cases app.detail with
  | none => rfl
  | some detail => rfl

theorem renderScreen_lines : (renderScreen app rows cols).lines = (rowsOf app rows cols).map Styled.codes := by
  rw [renderScreen]
  split
  next none =>
    subst none
    rfl
  next some =>
    dsimp only
    rw [new_lined, setLine_lined, list_lined (fun row => (padOrTruncate (listText app row) (cols / 3),
      row == app.selected && decide (row < app.entities.length))) (rows - 2), detail_pushed, detail_lined,
      setLine_lined, rowsOf, List.map_map]
    refine List.map_congr_left fun i mem => ?_
    have inside : i < rows := List.mem_range.mp mem
    rw [Function.comp_apply, rowOf]
    by_cases last : i = rows - 1
    · have final : i + 1 = rows := by omega
      rw [if_pos final, last, Function.update_self]
    · have final : ¬ i + 1 = rows := by omega
      rw [Function.update_of_ne last, if_neg final]
      by_cases first : i = 0
      · have outside : ¬ (0 < i ∧ i ≤ rows - 2) := by omega
        rw [if_neg outside, if_neg outside, if_pos first, first, Function.update_self]
      · have body : 0 < i ∧ i ≤ rows - 2 := by omega
        rw [if_pos body, if_pos body, if_neg first, Nat.sub_zero]
        cases (app.detail.elim [] detailTexts)[i - 1]? with
        | none => rfl
        | some text => rfl

end Drawing

section Following

variable {t : Terminal} {s s' : Session} {texts : Mcp.Texts} {host : Host}

-- The terminal takes the size that a frame was made for, and what was written.
def watch (t : Terminal) (frames : List Frame) : Terminal :=
  frames.foldl (fun t frame => (t.resize frame.rows frame.cols).feed frame.text) t

def Frame.Printing (frame : Frame) : Prop := ∀ s ∈ rowsOf frame.app frame.rows frame.cols, s.Printing

/-- The terminal shows the screen that the session takes for the last one. -/
structure Followed (t : Terminal) (s : Session) : Prop where
  rest : (watch t s.frames).AtRest
  shown : ∃ lines : List Styled, s.screen.elim [] Screen.lines = lines.map Styled.codes ∧
    (∀ line ∈ lines, line.Printing) ∧ (watch t s.frames).Displays lines

theorem followed_start (rest : t.AtRest) (app : App) : Followed t (.start app) where
  rest := rest
  shown := ⟨[], rfl, fun line none => absurd none List.not_mem_nil, fun i s none => by simp at none⟩

theorem Followed.draw (followed : Followed t s) (size : Option (Nat × Nat))
    (plain : ∀ frame ∈ (s.draw size).frames, frame.Printing) : Followed t (s.draw size) ∧
      (watch t (s.draw size).frames).Displays (rowsOf s.app (terminalSize size).1 (terminalSize size).2) := by
  obtain ⟨lines, screen, printing, displays⟩ := followed.shown
  let rows := (terminalSize size).1
  let cols := (terminalSize size).2
  have now : ∀ line ∈ rowsOf s.app rows cols, line.Printing := plain _ (List.mem_append_right _ List.mem_cons_self)
  have sized : ((watch t s.frames).resize rows cols).AtRest := ⟨followed.rest.stage, followed.rest.reverse⟩
  have fits : ∀ line ∈ rowsOf s.app rows cols, line.text.length ≤ cols := by
    intro line mem
    obtain ⟨i, -, rfl⟩ := List.mem_map.mp mem
    exact Nat.le_of_eq length_rowOf
  have room : (rowsOf s.app rows cols).length ≤ rows := by
    rw [rowsOf, List.length_map, List.length_range]
  have fed := Terminal.feed_repaints sized room now fits printing displays
  have written : watch t (s.draw size).frames = ((watch t s.frames).resize rows cols).feed
      (repaints (lines.map Styled.codes) 0 ((rowsOf s.app rows cols).map Styled.codes)) := by
    rw [Session.draw, watch, List.foldl_append, List.foldl_cons, List.foldl_nil, Screen.render, screen,
      renderScreen_lines]
    rfl
  rw [written]
  refine ⟨⟨written ▸ fed.1, rowsOf s.app rows cols, renderScreen_lines, now, written ▸ fed.2⟩, fed.2⟩

theorem run_cons {turn : Turn} {rest : List Turn} {quit : Bool}
    (ran : run texts host (turn :: rest) s = .ok (s', quit)) :
    ∃ app left, feed texts host turn.read.length turn.read s.app = .ok (app, left) ∧
      (left = true ∧ s' = { s.draw turn.size with app } ∧ quit = true ∨
        left = false ∧ run texts host rest { s.draw turn.size with app } = .ok (s', quit)) := by
  have keys : (s.draw turn.size).app = s.app := rfl
  rw [run] at ran
  dsimp only at ran
  rw [keys] at ran
  cases made : feed texts host turn.read.length turn.read s.app with
  | error e =>
    rw [made] at ran
    cases ran
  | ok result =>
    obtain ⟨app, left⟩ := result
    rw [made] at ran
    refine ⟨app, left, rfl, ?_⟩
    cases left with
    | true =>
      obtain ⟨same, done⟩ := Prod.mk.inj (Except.ok.inj ran)
      exact .inl ⟨rfl, same.symm, done.symm⟩
    | false => exact .inr ⟨rfl, ran⟩

theorem run_frames {turns : List Turn} {quit : Bool} (ran : run texts host turns s = .ok (s', quit)) :
    s.frames <+: s'.frames := by
  induction turns generalizing s with
  | nil =>
    obtain ⟨rfl, -⟩ := Prod.mk.inj (Except.ok.inj ran)
    exact List.prefix_refl _
  | cons turn rest ih =>
    have grown : s.frames <+: (s.draw turn.size).frames := List.prefix_append _ _
    obtain ⟨app, left, -, ⟨-, rfl, -⟩ | ⟨-, later⟩⟩ := run_cons ran
    · exact grown
    · exact grown.trans (ih (s := { s.draw turn.size with app }) later)

theorem Followed.run {turns : List Turn} {quit : Bool} (followed : Followed t s)
    (ran : run texts host turns s = .ok (s', quit)) (plain : ∀ frame ∈ s'.frames, frame.Printing) : Followed t s' := by
  induction turns generalizing s with
  | nil =>
    obtain ⟨rfl, -⟩ := Prod.mk.inj (Except.ok.inj ran)
    exact followed
  | cons turn rest ih =>
    obtain ⟨app, left, -, ⟨-, rfl, -⟩ | ⟨-, later⟩⟩ := run_cons ran
    · obtain ⟨rest, shown⟩ := (followed.draw turn.size plain).1
      exact ⟨rest, shown⟩
    · have drawn := (followed.draw turn.size fun frame mem => plain frame ((run_frames later).subset mem)).1
      exact ih (s := { s.draw turn.size with app }) ⟨drawn.rest, drawn.shown⟩ later

/-- Although only changed lines are written, whatever the sizes of the terminal, after every frame each row of it shows
what the state asks for. -/
theorem terminal_follows (rest : t.AtRest) {app : App} {turns : List Turn}
    (ran : Tui.run texts host turns (.start app) = .ok (s, false)) (size : Option (Nat × Nat))
    (plain : ∀ frame ∈ (s.draw size).frames, frame.Printing) :
    (watch t (s.draw size).frames).Displays (rowsOf s.app (terminalSize size).1 (terminalSize size).2) := by
  have followed := (followed_start rest app).run ran fun frame mem => plain frame (List.mem_append_left _ mem)
  exact (followed.draw size plain).2

def fewTexts : Mcp.Texts where
  graphic := .ascii
  io := "No space left on device (os error 28)"

def blankTerminal : Terminal where
  rows := 3
  cols := 20
  row := 0
  col := 0
  reverse := false
  stage := .text
  cell _ _ := .blank

def listless (store : Store) (queryInput : List Char) : App where
  store := store
  storeDir := "data"
  mode := .queryInput
  queryInput := queryInput
  lastQuery := defaultQuery
  entities := []
  selected := 0
  error := none
  detail := none

-- Two frames, of different sizes.
theorem terminal_follows_resized : ∃ store s,
    Tui.run fewTexts (typeHost store) [⟨some (3, 20), [97]⟩] (.start (listless store [])) = .ok (s, false) ∧
      (watch blankTerminal (s.draw (some (2, 10))).frames).Displays (rowsOf s.app 2 10) := by
  obtain ⟨store, -, -, -⟩ := create_sound fourKiB
  let first : Session := Session.draw (.start (listless store [])) (some (3, 20))
  have ran : Tui.run fewTexts (typeHost store) [⟨some (3, 20), [97]⟩] (.start (listless store [])) =
      .ok ({ first with app := listless store ['a'] }, false) := rfl
  have named (text : List Char) : PlainText (title (listless store text)) :=
    plainText_of_all (show (("gems-tui | ".toList ++ "data".toList ++ " | q:quit  j/k:move  /:query".toList).all
      fun c => !isControl c) = true by decide)
  have unlisted (text : List Char) (row : Nat) : PlainText (listText (listless store text) row) :=
    fun c none => absurd none List.not_mem_nil
  have unviewed (text line : List Char) (mem : line ∈ (listless store text).detail.elim [] detailTexts) :
    PlainText line := absurd mem List.not_mem_nil
  refine ⟨store, _, ran, terminal_follows ⟨rfl, rfl⟩ ran (some (2, 10)) ?_⟩
  intro frame mem
  rcases List.mem_append.mp mem with old | new
  · obtain rfl := List.mem_singleton.mp old
    exact rowsOf_printing (named []) (plainText_of_all (show (['/'].all fun c => !isControl c) = true by decide))
      (unlisted []) (unviewed [])
  · obtain rfl := List.mem_singleton.mp new
    exact rowsOf_printing (named ['a'])
      (plainText_of_all (show (['/', 'a'].all fun c => !isControl c) = true by decide))
      (unlisted ['a']) (unviewed ['a'])

end Following

section Showing

variable {texts : Mcp.Texts} {host : Host} {store : Store} {map : Entities} {app : App}

/-- A store that answers from these entities, fewer than an `i32` counts. -/
structure Backed (host : Host) (store : Store) (map : Entities) : Prop where
  get : ∀ id, store.get host.fuel id = .ok (map id)
  answers : ∀ q, Answers host.fuel store map q
  few : ∃ ids : List Tuid, ids.length < 2 ^ 31 ∧ ∀ id, map id ≠ none → id ∈ ids

-- The entities that a query lists.
def summariesOf (map : Entities) (ids : List Tuid) : List EntitySummary :=
  ids.filterMap fun id => (map id).map fun e => summarize e.1

def detailAt (map : Entities) (entities : List EntitySummary) (selected : Nat) : Option DetailView :=
  entities[selected]?.bind fun summary => (map summary.id).map fun e => detailOf e.1 e.2

/-- The list, the message and the detail are what the query and the selection ask of these entities. -/
structure Shows (texts : Mcp.Texts) (host : Host) (map : Entities) (app : App) : Prop where
  unread : ∀ e, Query.parse host.unicode app.lastQuery = .error e →
    app.entities = [] ∧ app.error = some (texts.query e)
  refused : ∀ q, Query.parse host.unicode app.lastQuery = .ok q → ¬ Accepted q →
    app.entities = [] ∧ ∃ e, app.error = some (texts.store e)
  answered : ∀ q, Query.parse host.unicode app.lastQuery = .ok q → Accepted q → app.error = none ∧
    ∃ all : List Tuid, all.Pairwise (· < ·) ∧ (∀ id, id ∈ all ↔ Selects map q.filter id) ∧
      app.entities = summariesOf map (Store.truncate q.limit all)
  selected : app.entities ≠ [] → app.selected < app.entities.length
  detail : app.detail = detailAt map app.entities app.selected

theorem caught_ok {A : Type} {m : Except Fault A} {a : A} (made : m = .ok a) : caught m = .ok (.ok a) := by
  rw [made]
  rfl

theorem loadDetail_eq (backed : Backed host store map) (same : app.store = store) :
    app.loadDetail host = .ok { app with detail := detailAt map app.entities app.selected } := by
  rw [App.loadDetail, detailAt]
  cases app.entities[app.selected]? with
  | none => rfl
  | some summary =>
    dsimp only
    rw [same, caught_ok (backed.get summary.id)]
    cases known : map summary.id with
    | none => simp [bind, Except.bind, pure, Except.pure, known]
    | some e => simp [bind, Except.bind, pure, Except.pure, known]

theorem mapM_found (backed : Backed host store map) (ids : List Tuid) :
    (ids.mapM fun id => caught (store.get host.fuel id)) = .ok (ids.map fun id => .ok (map id)) := by
  induction ids with
  | nil => rfl
  | cons id ids ih =>
    rw [List.mapM_cons, caught_ok (backed.get id), ih]
    rfl

theorem filterMap_listed (ids : List Tuid) :
    (ids.map fun id => (.ok (map id) : Except Error (Option Entity))).filterMap App.listed = summariesOf map ids := by
  rw [summariesOf, List.filterMap_map]
  refine List.filterMap_congr fun id _ => ?_
  rw [Function.comp_apply]
  cases map id with
  | none => rfl
  | some e => rfl

-- What a query leaves as it was.
structure Kept (app app' : App) : Prop where
  store : app'.store = app.store
  storeDir : app'.storeDir = app.storeDir
  mode : app'.mode = app.mode
  queryInput : app'.queryInput = app.queryInput

theorem caught_raised {A : Type} {m : Except Fault A} {e : Error} (failed : m = .error (.raised e)) :
    caught m = .ok (.error e) := by
  rw [failed]
  rfl

theorem runQuery_shows (backed : Backed host store map) (same : app.store = store) (query : String) :
    ∃ app', app.runQuery texts host query = .ok app' ∧ Shows texts host map app' ∧ Kept app app' ∧
      app'.lastQuery = query := by
  subst same
  rw [App.runQuery]
  cases parsed : Query.parse host.unicode query with
  | error e =>
    refine ⟨_, rfl, ⟨fun e' made => ?_, fun q made => ?_, fun q made => ?_, fun some => absurd rfl some, rfl⟩,
      ⟨rfl, rfl, rfl, rfl⟩, rfl⟩
    · obtain rfl : e = e' := Except.error.inj (parsed.symm.trans made)
      exact ⟨rfl, rfl⟩
    · cases parsed.symm.trans made
    · cases parsed.symm.trans made
  | ok q =>
    dsimp only
    by_cases accepted : Accepted q
    · obtain ⟨all, sorted, mem, made⟩ := (backed.answers q).accepted accepted
      rw [caught_ok made]
      simp only [bind, Except.bind]
      rw [mapM_found backed]
      dsimp only
      rw [filterMap_listed]
      refine ⟨_, loadDetail_eq backed rfl, ⟨fun e made => ?_, fun q' made refused => ?_, fun q' made _ => ?_,
        fun some => ?_, rfl⟩, ⟨rfl, rfl, rfl, rfl⟩, rfl⟩
      · cases parsed.symm.trans made
      · obtain rfl : q = q' := Except.ok.inj (parsed.symm.trans made)
        exact absurd accepted refused
      · obtain rfl : q = q' := Except.ok.inj (parsed.symm.trans made)
        exact ⟨rfl, all, sorted, mem, rfl⟩
      · exact List.length_pos_iff.mpr some
    · obtain ⟨e, failed⟩ := (backed.answers q).refused accepted
      rw [caught_raised failed]
      refine ⟨_, rfl, ⟨fun e made => ?_, fun q' made _ => ⟨rfl, e, rfl⟩, fun q' made accepted' => ?_,
        fun some => absurd rfl some, rfl⟩, ⟨rfl, rfl, rfl, rfl⟩, rfl⟩
      · cases parsed.symm.trans made
      · obtain rfl : q = q' := Except.ok.inj (parsed.symm.trans made)
        exact absurd accepted' accepted

theorem mem_of_selects {filter : Option Query.Expr} {id : Tuid} (selects : Selects map filter id) : map id ≠ none := by
  cases filter with
  | none => exact selects
  | some expr =>
    cases expr with
    | in_ field values =>
      obtain ⟨e, known, -⟩ := selects
      rw [known]
      exact Option.some_ne_none e
    | _ => exact selects

theorem length_truncate_le (limit : Option UInt64) (ids : List Tuid) :
    (Store.truncate limit ids).length ≤ ids.length := by
  cases limit with
  | none => exact Nat.le_refl _
  | some limit => exact List.length_take_le' _ _

theorem Shows.few (shows : Shows texts host map app) (backed : Backed host store map) :
    app.entities.length < 2 ^ 31 := by
  cases parsed : Query.parse host.unicode app.lastQuery with
  | error e =>
    rw [(shows.unread e parsed).1]
    exact Nat.two_pow_pos 31
  | ok q =>
    by_cases accepted : Accepted q
    · obtain ⟨-, all, sorted, mem, listed⟩ := shows.answered q parsed accepted
      obtain ⟨ids, short, known⟩ := backed.few
      have nodup : all.Nodup := sorted.imp fun lt => ne_of_lt lt
      have inside : all ⊆ ids := fun id here => known id (mem_of_selects ((mem id).mp here))
      have fewer : all.length ≤ ids.length := (nodup.subperm inside).length_le
      have cut := length_truncate_le q.limit all
      have kept := List.length_filterMap_le (fun id => (map id).map fun e => summarize e.1) (Store.truncate q.limit all)
      rw [listed, summariesOf]
      omega
    · rw [(shows.refused q parsed accepted).1]
      exact Nat.two_pow_pos 31

theorem asI32_small {n : Nat} (small : n < 2 ^ 31) : asI32 n = n := by
  exact Int.bmod_eq_of_le (by omega) (by omega)

theorem moveSelection_shows (backed : Backed host store map) (same : app.store = store)
    (shows : Shows texts host map app) (delta : ℤ) :
    ∃ app', app.moveSelection host delta = .ok app' ∧ Shows texts host map app' ∧ Kept app app' ∧
      app'.lastQuery = app.lastQuery := by
  rw [App.moveSelection]
  split
  next => exact ⟨app, rfl, shows, ⟨rfl, rfl, rfl, rfl⟩, rfl⟩
  next some =>
    have listed : app.entities ≠ [] := fun none => some (List.isEmpty_iff.mpr none)
    have inside := shows.selected listed
    have few := shows.few backed
    dsimp only
    rw [asI32_small few, asI32_small (by omega), if_neg (by omega)]
    refine ⟨_, loadDetail_eq backed same, ⟨shows.unread, shows.refused, shows.answered, fun _ => ?_, rfl⟩,
      ⟨rfl, rfl, rfl, rfl⟩, rfl⟩
    dsimp only
    omega

theorem Shows.of_eq {app' : App} (shows : Shows texts host map app) (lastQuery : app'.lastQuery = app.lastQuery)
    (entities : app'.entities = app.entities) (selected : app'.selected = app.selected) (error : app'.error = app.error)
    (detail : app'.detail = app.detail) : Shows texts host map app' := by
  obtain ⟨unread, refused, answered, inside, viewed⟩ := shows
  constructor
  · rwa [lastQuery, entities, error]
  · rwa [lastQuery, entities, error]
  · rwa [lastQuery, entities, error]
  · rwa [entities, selected]
  · rwa [detail, entities, selected]

theorem handleKey_shows (backed : Backed host store map) (same : app.store = store) (shows : Shows texts host map app)
    (key : Key) : ∃ app' left, app.handleKey texts host key = .ok (app', left) ∧ Shows texts host map app' ∧
      app'.store = store := by
  have moved (delta : ℤ) : ∃ app' left, (do return (← app.moveSelection host delta, false)) =
      (.ok (app', left) : Except Fault (App × Bool)) ∧ Shows texts host map app' ∧ app'.store = store := by
    obtain ⟨app', made, right, kept, -⟩ := moveSelection_shows backed same shows delta
    rw [made]
    exact ⟨app', false, rfl, right, kept.store.trans same⟩
  unfold App.handleKey
  cases mode : app.mode with
  | browse =>
    cases key with
    | up => exact moved (-1)
    | down => exact moved 1
    | quit => exact ⟨app, true, rfl, shows, same⟩
    | enterQueryMode => exact ⟨_, false, rfl, shows.of_eq rfl rfl rfl rfl rfl, same⟩
    | _ => exact ⟨app, false, rfl, shows, same⟩
  | queryInput =>
    cases key with
    | enter =>
      let browsing : App := { app with mode := .browse }
      have held : browsing.store = store := same
      obtain ⟨app', made, right, kept, -⟩ : ∃ app',
          browsing.runQuery texts host (String.ofList app.queryInput) = .ok app' ∧ Shows texts host map app' ∧
            Kept browsing app' ∧ app'.lastQuery = String.ofList app.queryInput :=
        runQuery_shows backed held _
      refine ⟨app', false, ?_, right, kept.store.trans same⟩
      dsimp only
      rw [made]
      rfl
    | escape => exact ⟨_, false, rfl, shows.of_eq rfl rfl rfl rfl rfl, same⟩
    | backspace => exact ⟨_, false, rfl, shows.of_eq rfl rfl rfl rfl rfl, same⟩
    | char c => exact ⟨_, false, rfl, shows.of_eq rfl rfl rfl rfl rfl, same⟩
    | _ => exact ⟨app, false, rfl, shows, same⟩

theorem feed_shows (backed : Backed host store map) (turns : Nat) (bytes : List UInt8) (same : app.store = store)
    (shows : Shows texts host map app) : ∃ app' left, feed texts host turns bytes app = .ok (app', left) ∧
      Shows texts host map app' ∧ app'.store = store := by
  induction turns generalizing bytes app with
  | zero => exact ⟨app, false, rfl, shows, same⟩
  | succ turns ih =>
    rw [feed]
    cases decode bytes app.mode with
    | none => exact ⟨app, false, rfl, shows, same⟩
    | some event =>
      dsimp only
      split
      next => exact ⟨app, true, rfl, shows, same⟩
      next =>
        obtain ⟨app', left, made, right, kept⟩ := handleKey_shows backed same shows event.1
        rw [made]
        exact ih (bytes.drop event.2) kept right

theorem run_shows (backed : Backed host store map) (turns : List Turn) {s : Session} (same : s.app.store = store)
    (shows : Shows texts host map s.app) (before : ∀ frame ∈ s.frames, Shows texts host map frame.app) :
    ∃ s' quit, run texts host turns s = .ok (s', quit) ∧ Shows texts host map s'.app ∧
      ∀ frame ∈ s'.frames, Shows texts host map frame.app := by
  induction turns generalizing s with
  | nil => exact ⟨s, false, rfl, shows, before⟩
  | cons turn rest ih =>
    obtain ⟨app, left, made, right, kept⟩ := feed_shows backed turn.read.length turn.read same shows
    have drawn : ∀ frame ∈ (s.draw turn.size).frames, Shows texts host map frame.app := by
      intro frame mem
      rcases List.mem_append.mp mem with old | new
      · exact before frame old
      · rw [List.mem_singleton.mp new]
        exact shows
    have keys : (s.draw turn.size).app = s.app := rfl
    rw [run]
    dsimp only
    rw [keys, made]
    cases left with
    | true => exact ⟨_, true, rfl, right, drawn⟩
    | false => exact ih (s := { s.draw turn.size with app }) kept right drawn

end Showing

section Browsing

variable {texts : Mcp.Texts} {host : Host} {dir : String} {start left : Store} {calls : List Call}
  {given : List Reply}

-- The ids that the calls write.
def writtenIds (calls : List Call) : List Tuid :=
  calls.filterMap fun call =>
    match call with
    | .insert header _ => some header.id
    | _ => none

theorem mem_writtenIds {id : Tuid} (known : shown (contents calls fun _ => none) id ≠ none) :
    id ∈ writtenIds calls := by
  rw [shown] at known
  cases here : contents calls (fun _ => none) id with
  | none =>
    rw [here] at known
    exact absurd rfl known
  | some e =>
    rcases contents_from here with none | ⟨mem, owner⟩
    · cases none
    · exact List.mem_filterMap.mpr ⟨_, mem, congrArg some owner⟩

theorem openStore_backed (small : host.os.size ≤ 16384) (created : Store.create host.os = .ok start)
    (enough : calls.length ≤ host.fuel) (few : Within host.os host.fuel 1000 calls start)
    (types : ∀ n, TypesApart (contents (calls.take n) fun _ => none)) (short : calls.length < 2 ^ 31)
    (made : runCalls host.os host.fuel calls start = (.ok given, left)) (here : host.directories dir = some left) :
    ∃ store, host.openStore dir = .ok store ∧ Backed host store (shown (contents calls fun _ => none)) := by
  obtain ⟨slots, ords, ids, depth, shallow, rested, level⟩ := run_from_empty small created enough few made
  have flat : left.data.extents.length * stride host.os / extentSize = left.data.extents.length := by
    rw [← rested.linked.sound.data.held.mapped]
    exact level
  obtain ⟨store, opened, reopened⟩ := rested.linked.sound.onDisk.openDir (Set.Subset.refl _) flat shallow
  have synced := reopened.synced rested.linked.pairs
  have last := types calls.length
  rw [List.take_length] at last
  refine ⟨store, ?_, synced.sound.get shallow, synced.answers shallow last.distinct, writtenIds calls, ?_, fun id =>
    mem_writtenIds⟩
  · rw [Host.openStore, here]
    exact opened
  · exact (List.length_filterMap_le _ calls).trans_lt short

/-- Over a store that calls made from an empty one, no key and no size of the terminal stops the browser, and every
frame is drawn from a list, a message and a detail that are what its query and its selection ask of the entities that
the calls left. -/
theorem browser_shows (small : host.os.size ≤ 16384) (created : Store.create host.os = .ok start)
    (enough : calls.length ≤ host.fuel) (few : Within host.os host.fuel 1000 calls start)
    (types : ∀ n, TypesApart (contents (calls.take n) fun _ => none)) (short : calls.length < 2 ^ 31)
    (made : runCalls host.os host.fuel calls start = (.ok given, left)) (here : host.directories dir = some left)
    (turns : List Turn) :
    ∃ app s quit, App.openDir texts host dir = .ok app ∧ run texts host turns (.start app) = .ok (s, quit) ∧
      Shows texts host (shown (contents calls fun _ => none)) s.app ∧
      ∀ frame ∈ s.frames, Shows texts host (shown (contents calls fun _ => none)) frame.app := by
  obtain ⟨store, opened, backed⟩ := openStore_backed small created enough few types short made here
  let empty : App := { store, storeDir := dir, mode := .browse, queryInput := [], lastQuery := defaultQuery
                       entities := [], selected := 0, error := none, detail := none }
  obtain ⟨app, asked, right, kept, -⟩ : ∃ app, empty.runQuery texts host defaultQuery = .ok app ∧
      Shows texts host (shown (contents calls fun _ => none)) app ∧ Kept empty app ∧ app.lastQuery = defaultQuery :=
    runQuery_shows backed rfl defaultQuery
  obtain ⟨s, quit, ran, last, all⟩ : ∃ s quit, run texts host turns (.start app) = .ok (s, quit) ∧
      Shows texts host (shown (contents calls fun _ => none)) s.app ∧
      ∀ frame ∈ s.frames, Shows texts host (shown (contents calls fun _ => none)) frame.app :=
    run_shows backed turns kept.store right fun frame none => absurd none List.not_mem_nil
  refine ⟨app, s, quit, ?_, ran, last, all⟩
  rw [App.openDir, opened]
  exact asked

theorem browser_shows_widget : ∃ left app s quit, App.openDir fewTexts (typeHost left) "data" = .ok app ∧
    run fewTexts (typeHost left) [⟨some (3, 20), [106]⟩, ⟨none, [47, 97, 13]⟩] (.start app) = .ok (s, quit) ∧
      Shows fewTexts (typeHost left) (shown (contents typeCalls fun _ => none)) s.app := by
  have small : fourKiB.size ≤ 16384 := show 4096 ≤ 16384 by omega
  obtain ⟨start, created, sound, none, -⟩ := create_sound fourKiB
  have sound : Sound fourKiB start (fun _ => Option.none) (fun _ => Option.none) (fun _ => Option.none)
      (shown fun _ => Option.none) 0 := sound
  obtain ⟨given, left, made⟩ := typeCalls_run created
  have few : Within fourKiB 3 1000 typeCalls start :=
    within_of_short small sound (by decide) (by simp [none, typeCalls])
  have short : typeCalls.length < 2 ^ 31 := by
    rw [typeCalls, List.length_singleton]
    omega
  have types (n : Nat) : TypesApart (contents (typeCalls.take n) fun _ => Option.none) := by
    cases n with
    | zero => exact .none
    | succ n =>
      rw [List.take_of_length_le (by simp [typeCalls])]
      exact .one (fun _ => by decide) typeHeader.id
  obtain ⟨app, s, quit, opened, ran, shows, -⟩ : ∃ app s quit, App.openDir fewTexts (typeHost left) "data" = .ok app ∧
      run fewTexts (typeHost left) [⟨some (3, 20), [106]⟩, ⟨Option.none, [47, 97, 13]⟩] (.start app) = .ok (s, quit) ∧
      Shows fewTexts (typeHost left) (shown (contents typeCalls fun _ => Option.none)) s.app ∧
      ∀ frame ∈ s.frames, Shows fewTexts (typeHost left) (shown (contents typeCalls fun _ => Option.none)) frame.app :=
    browser_shows small created (Nat.le_of_ble_eq_true rfl) few types short (by exact made) rfl _
  exact ⟨left, app, s, quit, opened, ran, shows⟩

end Browsing

section Typing

variable {texts : Mcp.Texts} {host : Host} {app : App} {bytes text : List UInt8}

-- What the keys leave of the text in the query box.
def edit (text : List Char) (b : UInt8) : List Char :=
  if b = 0x7f ∨ b = 8 then text.dropLast else text ++ [typed b]

-- Keys that only edit the text: no escape, no line end and no interrupt.
def Editing (b : UInt8) : Prop := b ≠ 0x1b ∧ b ≠ 13 ∧ b ≠ 10 ∧ b ≠ 3

theorem decode_single {b : UInt8} (plain : b ≠ 0x1b) (mode : Mode) :
    ∃ key, ∀ rest, decode (b :: rest) mode = some (key, 1) := by
  simp only [decode, if_neg plain]
  repeat
    split
    · exact ⟨_, fun _ => rfl⟩
  exact ⟨_, fun _ => rfl⟩

theorem feed_append (plain : ∀ b ∈ text, b ≠ 0x1b) (turns : Nat) :
    feed texts host (text.length + turns) (text ++ bytes) app = (do
      let (app, left) ← feed texts host text.length text app
      if left then pure (app, true) else feed texts host turns bytes app) := by
  induction text generalizing app with
  | nil =>
    rw [List.length_nil, Nat.zero_add, List.nil_append]
    rfl
  | cons b text ih =>
    obtain ⟨key, read⟩ := decode_single (plain b List.mem_cons_self) app.mode
    rw [List.length_cons, Nat.add_right_comm, List.cons_append, feed, feed, read, read]
    dsimp only
    split
    next => rfl
    next =>
      cases handled : app.handleKey texts host key with
      | error e => rfl
      | ok result =>
        exact ih fun b mem => plain b (List.mem_cons_of_mem _ mem)

theorem run_keys {turns : List Turn} {s : Session} (plain : ∀ b ∈ turns.flatMap Turn.read, b ≠ 0x1b) :
    (run texts host turns s).map (fun (s', quit) => (s'.app, quit)) =
      feed texts host (turns.flatMap Turn.read).length (turns.flatMap Turn.read) s.app := by
  induction turns generalizing s with
  | nil => rfl
  | cons turn rest ih =>
    have keys : (s.draw turn.size).app = s.app := rfl
    rw [List.flatMap_cons, List.length_append, feed_append fun b mem => plain b (List.mem_append_left _ mem), run]
    dsimp only
    rw [keys]
    cases made : feed texts host turn.read.length turn.read s.app with
    | error e => rfl
    | ok result =>
      obtain ⟨app, left⟩ := result
      cases left with
      | true => rfl
      | false => exact ih (s := { s.draw turn.size with app }) fun b mem => plain b (List.mem_append_right _ mem)

theorem decode_edit {b : UInt8} (editing : Editing b) (rest : List UInt8) :
    decode (b :: rest) .queryInput = some (if b = 0x7f ∨ b = 8 then .backspace else .char (typed b), 1) := by
  obtain ⟨escape, returned, line, interrupt⟩ := editing
  simp only [decode, if_neg escape, returned, line, interrupt, or_self, if_false, reduceCtorEq, and_false]
  split
  next => rfl
  next => rfl

theorem feed_edit (editing : ∀ b ∈ text, Editing b) (mode : app.mode = .queryInput) (turns : Nat) :
    feed texts host (text.length + turns) (text ++ bytes) app =
      feed texts host turns bytes { app with queryInput := text.foldl edit app.queryInput } := by
  induction text generalizing app with
  | nil =>
    rw [List.length_nil, Nat.zero_add]
    rfl
  | cons b text ih =>
    let next : App := { app with queryInput := edit app.queryInput b }
    have later := ih (fun b mem => editing b (List.mem_cons_of_mem _ mem)) (show next.mode = .queryInput from mode)
    have edited : feed texts host (text.length + turns + 1) (b :: (text ++ bytes)) app =
        feed texts host (text.length + turns) (text ++ bytes) next := by
      rw [feed, mode, decode_edit (editing b List.mem_cons_self)]
      by_cases erase : b = 0x7f ∨ b = 8
      · simp [erase, App.handleKey, mode, next, edit, bind, Except.bind, pure, Except.pure]
      · simp [erase, App.handleKey, mode, next, edit, bind, Except.bind, pure, Except.pure]
    rw [List.length_cons, Nat.add_right_comm, List.cons_append, edited, later]
    rfl

/-- A query typed into the box, corrections and all, is the query that runs, however its keys come in. -/
theorem typed_query {turns : List Turn} {s : Session} (mode : s.app.mode = .browse) (editing : ∀ b ∈ text, Editing b)
    (keys : turns.flatMap Turn.read = 47 :: (text ++ [13])) :
    (run texts host turns s).map (fun (s', quit) => (s'.app, quit)) =
      (App.runQuery texts host (String.ofList (text.foldl edit []))
        { s.app with queryInput := text.foldl edit [] }).map fun app => (app, false) := by
  have plain : ∀ b ∈ turns.flatMap Turn.read, b ≠ 0x1b := by
    intro b mem
    rw [keys] at mem
    rcases List.mem_cons.mp mem with rfl | mem
    · decide
    · rcases List.mem_append.mp mem with mem | mem
      · exact (editing b mem).1
      · rw [List.mem_singleton.mp mem]
        decide
  let asking : App := { s.app with mode := .queryInput, queryInput := [] }
  let done : App := { asking with queryInput := text.foldl edit [] }
  have asked : feed texts host (text.length + 1 + 1) (47 :: (text ++ [13])) s.app =
      feed texts host (text.length + 1) (text ++ [13]) asking := by
    have slash : decode (47 :: (text ++ [13])) s.app.mode = some (.enterQueryMode, 1) := by
      rw [mode]
      rfl
    rw [feed, slash]
    simp [App.handleKey, mode, asking, bind, Except.bind, pure, Except.pure]
  have entered : feed texts host 1 [13] done = (App.runQuery texts host (String.ofList (text.foldl edit []))
      { done with mode := .browse }).map fun app => (app, false) := by
    have returned : decode [13] done.mode = some (.enter, 1) := rfl
    have handled : done.handleKey texts host .enter = (App.runQuery texts host (String.ofList (text.foldl edit []))
        { done with mode := .browse }).map fun app => (app, false) := rfl
    rw [feed, returned]
    dsimp only
    rw [if_neg (by decide), handled]
    cases App.runQuery texts host (String.ofList (text.foldl edit [])) { done with mode := .browse } with
    | error e => rfl
    | ok app => rfl
  have same : ({ done with mode := .browse } : App) = { s.app with queryInput := text.foldl edit [] } := by
    rw [← mode]
  rw [run_keys plain, keys, List.length_cons, List.length_append, List.length_singleton, asked,
    feed_edit editing rfl, ← same]
  exact entered

theorem typed_query_corrected : ∃ store,
    (run fewTexts (typeHost store) [⟨none, [47, 97]⟩, ⟨none, [98, 127, 13]⟩]
      (.start { listless store [] with mode := .browse })).map (fun (s', quit) => (s'.app, quit)) =
        (App.runQuery fewTexts (typeHost store) "a" { listless store ['a'] with mode := .browse }).map
          fun app => (app, false) := by
  obtain ⟨store, -, -, -⟩ := create_sound fourKiB
  have editing : ∀ b ∈ [97, 98, 127], Editing b := by
    intro b mem
    simp only [List.mem_cons, List.not_mem_nil, or_false] at mem
    rcases mem with rfl | rfl | rfl <;> simp [Editing]
  have keys : List.flatMap Turn.read [⟨none, [47, 97]⟩, ⟨none, [98, 127, 13]⟩] = 47 :: ([97, 98, 127] ++ [13]) := rfl
  exact ⟨store, typed_query rfl editing keys⟩

end Typing

end Gems.Frontend.Tui
