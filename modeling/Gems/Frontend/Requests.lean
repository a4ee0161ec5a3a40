import Gems.Frontend.Forms

set_option autoImplicit false

namespace Gems.Frontend.Webui

open Lib

variable {closed closed' : Bool}

section Statement

def Trimmed (text : List Char) : Prop :=
  (∀ c ∈ text.head?, isWhitespace c = false) ∧ ∀ c ∈ text.getLast?, isWhitespace c = false

def Unbroken (line : List Char) : Prop := '\n' ∉ line ∧ '\r' ∉ line

def Blank (text : List Char) : Prop := ∀ c ∈ text, c = ' ' ∨ c = '\t'

inductive HeaderLine : List Char → List (String × String) → Prop where
  | ignored {line : List Char} (some : line ≠ []) (apart : ':' ∉ line) : HeaderLine line []
  | field {name before value after : List Char} (apart : ':' ∉ name) (named : Trimmed name) (blank : Blank before)
      (trimmed : Trimmed value) (blank' : Blank after) :
      HeaderLine (name ++ ':' :: (before ++ (value ++ after))) [(String.ofList name, String.ofList value)]

inductive HeaderLines : List (List Char) → List (String × String) → Prop where
  | nil : HeaderLines [] []
  | cons {line : List Char} {lines : List (List Char)}
      {headers rest : List (String × String)} (unbroken : Unbroken line)
      (spelled : HeaderLine line headers) (others : HeaderLines lines rest) :
      HeaderLines (line :: lines) (headers ++ rest)

/-- A request as a client writes it. -/
structure RequestText where
  method : List Char
  path : List Char
  queryText : Option (List Char)
  version : List Char
  lines : List (List Char)
  lineEnd : List Char
  body : List UInt8

namespace RequestText

def requestLine (t : RequestText) : List Char :=
  t.method ++ ' ' :: ((t.path ++ t.queryText.elim [] ('?' :: ·)) ++ ' ' :: t.version)

def printLine (t : RequestText) (line : List Char) : List UInt8 := encodeChars (line ++ t.lineEnd)

def printed (t : RequestText) : List UInt8 :=
  t.printLine t.requestLine ++ (t.lines.flatMap t.printLine ++ (t.printLine [] ++ t.body))

end RequestText

/-- The text spells the request, and stays under the limits of the server. -/
structure Spells (t : RequestText) (req : HttpRequest) : Prop where
  method : req.method = String.ofList t.method ∧ ' ' ∉ t.method
  path : req.path = String.ofList t.path ∧ ' ' ∉ t.path ∧ '?' ∉ t.path
  query : t.queryText = none ∧ req.query = [] ∨ ∃ text, t.queryText = some text ∧ ' ' ∉ text ∧ QueryText text req.query
  version : t.version ≠ [] ∧ Trimmed t.version
  unbroken : Unbroken t.requestLine
  headers : HeaderLines t.lines req.headers
  lineEnd : t.lineEnd = ['\n'] ∨ t.lineEnd = ['\r', '\n']
  few : t.lines.length < maxHeaderLines
  short : ∀ line ∈ t.requestLine :: t.lines, (t.printLine line).length ≤ maxLineLen
  body : req.body = t.body
  contentLength : (∀ header ∈ req.headers, eqIgnoreAsciiCase header.1 "Content-Length" = false) ∧ t.body = [] ∨
    (req.headers.find? fun header => eqIgnoreAsciiCase header.1 "Content-Length").map Prod.snd =
      some (String.ofList (decimal t.body.length)) ∧ t.body.length ≤ maxBodyLen

-- The most that a request takes.
def requestMax : Nat := (1 + maxHeaderLines) * maxLineLen + maxBodyLen

end Statement

section Trimming

variable {text before after : List Char}

theorem Trimmed.trim_around (trimmed : Trimmed text) (first : ∀ c ∈ before, isWhitespace c = true)
    (last : ∀ c ∈ after, isWhitespace c = true) : trim (before ++ (text ++ after)) = text := by
  by_cases none : text = []
  · subst none
    have all : ∀ c ∈ before ++ ([] ++ after), isWhitespace c = true := by
      intro c mem
      rcases List.mem_append.mp mem with mem | mem
      · exact first c mem
      · exact last c mem
    rw [trim, List.dropWhile_eq_nil_iff.mpr all]
    rfl
  · have line := trim_line none (trimmed.1 _ (List.head_mem_head? none)) (trimmed.2 _ (List.getLast_mem_getLast? none))
      last
    rw [trim, List.dropWhile_append_of_pos first]
    exact line

theorem Trimmed.trim_self (trimmed : Trimmed text) : trim text = text := by
  have whole : trim ([] ++ text ++ []) = text := trimmed.trim_around (fun c none => absurd none List.not_mem_nil)
    fun c none => absurd none List.not_mem_nil
  rwa [List.append_nil] at whole

theorem Blank.whitespace (blank : Blank text) : ∀ c ∈ text, isWhitespace c = true := by
  intro c mem
  rcases blank c mem with rfl | rfl <;> rfl

theorem dropEnd_append {p : Char → Bool} (stays : ∀ c ∈ text.getLast?, p c = false) (goes : ∀ c ∈ after, p c = true) :
    ((text ++ after).reverse.dropWhile p).reverse = text := by
  rw [List.reverse_append, List.dropWhile_append_of_pos fun c mem => goes c (List.mem_reverse.mp mem)]
  rcases List.eq_nil_or_concat text with rfl | ⟨front, c, rfl⟩
  · rfl
  · have kept : p c = false := stays c (by simp)
    rw [List.concat_eq_append, List.reverse_append, List.reverse_singleton, List.singleton_append,
      List.dropWhile_cons_of_neg (by rw [kept]; exact Bool.false_ne_true), List.reverse_cons, List.reverse_reverse]

end Trimming

section Printed

variable {t : RequestText} {req : HttpRequest} {line : List Char}

theorem newline_not_mem (unbroken : '\n' ∉ line) : newline ∉ encodeChars line := by
  intro mem
  obtain ⟨c, inside, same⟩ := byte_of_mem_encodeChars mem (by decide)
  have here : c = '\n' := Char.toNat_inj.mp same
  exact unbroken (here ▸ inside)

theorem lineEnd_shape (lineEnd : t.lineEnd = ['\n'] ∨ t.lineEnd = ['\r', '\n']) :
    ∃ front, t.lineEnd = front ++ ['\n'] ∧ '\n' ∉ front ∧ ∀ c ∈ t.lineEnd, c = '\r' ∨ c = '\n' := by
  rcases lineEnd with plain | returned
  · exact ⟨[], plain, List.not_mem_nil, by simp [plain]⟩
  · exact ⟨['\r'], returned, by decide, by simp [returned]⟩

theorem readLine_printed (lineEnd : t.lineEnd = ['\n'] ∨ t.lineEnd = ['\r', '\n']) (unbroken : '\n' ∉ line)
    (short : (t.printLine line).length ≤ maxLineLen) :
    Reader.Reads (readLineCapped closed) (t.printLine line) (line ++ t.lineEnd) := by
  obtain ⟨front, shape, other, -⟩ := lineEnd_shape lineEnd
  have bytes : t.printLine line = encodeChars (line ++ front) ++ [newline] := by
    rw [RequestText.printLine, shape, ← List.append_assoc, encodeChars, List.flatMap_append]
    rfl
  have apart : newline ∉ encodeChars (line ++ front) := by
    refine newline_not_mem fun mem => ?_
    rcases List.mem_append.mp mem with mem | mem
    · exact unbroken mem
    · exact other mem
  have size := short
  rw [bytes, List.length_append, List.length_singleton] at size
  have read : Reader.Reads (Reader.untilByte HttpError.io closed newline maxLineLen) (t.printLine line)
      (t.printLine line) := by
    rw [bytes]
    exact .untilByte apart (by omega)
  intro rest
  rw [readLineCapped, Reader.bind_ok (read rest), if_neg, RequestText.printLine]
  next =>
    have decoded : fromUtf8 (encodeChars (line ++ t.lineEnd)) = some (String.ofList (line ++ t.lineEnd)) := by
      have whole := fromUtf8_utf8 (String.ofList (line ++ t.lineEnd))
      rwa [utf8, String.toList_ofList] at whole
    rw [decoded]
    dsimp only
    rw [String.toList_ofList]
    rfl
  next =>
    rintro ⟨-, last⟩
    refine last ?_
    rw [bytes, List.getLast?_append_of_ne_nil _ (List.cons_ne_nil _ _)]
    rfl

theorem trimLineEnd_line (lineEnd : t.lineEnd = ['\n'] ∨ t.lineEnd = ['\r', '\n']) (unbroken : Unbroken line) :
    trimLineEnd (line ++ t.lineEnd) = line := by
  obtain ⟨-, -, -, ends⟩ := lineEnd_shape lineEnd
  refine dropEnd_append (fun c last => ?_) fun c mem => ?_
  · have inside := List.mem_of_getLast? last
    have other : c ≠ '\r' := fun same => unbroken.2 (same ▸ inside)
    have other' : c ≠ '\n' := fun same => unbroken.1 (same ▸ inside)
    simp [other, other']
  · simpa using ends c mem

theorem headerOf_line {headers : List (String × String)} (spelled : HeaderLine line headers) :
    line ≠ [] ∧ (headerOf line).toList = headers := by
  cases spelled with
  | ignored some apart =>
    refine ⟨some, ?_⟩
    rw [headerOf, splitOnce_missing apart]
    rfl
  | field apart named blank trimmed blank' =>
    refine ⟨by simp, ?_⟩
    rw [headerOf, splitOnce_append apart]
    dsimp only
    rw [named.trim_self, trimmed.trim_around blank.whitespace blank'.whitespace]
    rfl

theorem readHeaders_printed (lineEnd : t.lineEnd = ['\n'] ∨ t.lineEnd = ['\r', '\n']) {lines : List (List Char)}
    {headers : List (String × String)} (spelled : HeaderLines lines headers)
    (short : ∀ line ∈ lines, (t.printLine line).length ≤ maxLineLen) {turns : Nat} (few : lines.length < turns) :
    Reader.Reads (readHeaders closed turns) (lines.flatMap t.printLine ++ t.printLine []) headers := by
  obtain ⟨left, rfl⟩ : ∃ left, turns = left + 1 := ⟨turns - 1, by omega⟩
  induction spelled generalizing left with
  | nil =>
    have brief : (t.printLine []).length ≤ maxLineLen := by
      rcases lineEnd with plain | returned
      · rw [RequestText.printLine, plain]
        decide
      · rw [RequestText.printLine, returned]
        decide
    have line : Reader.Reads (readLineCapped closed) (t.printLine []) ([] ++ t.lineEnd) :=
      readLine_printed lineEnd List.not_mem_nil brief
    have trimmed : trimLineEnd ([] ++ t.lineEnd) = [] := trimLineEnd_line lineEnd ⟨List.not_mem_nil, List.not_mem_nil⟩
    intro rest
    rw [List.flatMap_nil, List.nil_append, readHeaders, Reader.bind_ok (line rest), trimmed]
    rfl
  | @cons line lines headers others unbroken spelled _ ih =>
    obtain ⟨some, said⟩ := headerOf_line spelled
    obtain ⟨left', rfl⟩ : ∃ left', left = left' + 1 := by
      rw [List.length_cons] at few
      exact ⟨left - 1, by omega⟩
    have first : Reader.Reads (readLineCapped closed) (t.printLine line) (line ++ t.lineEnd) :=
      readLine_printed lineEnd unbroken.1 (short line List.mem_cons_self)
    have later := ih (fun other mem => short other (List.mem_cons_of_mem line mem)) left' (by
      rw [List.length_cons] at few
      omega)
    have trimmed := trimLineEnd_line lineEnd unbroken
    rw [List.flatMap_cons, List.append_assoc, readHeaders]
    refine first.bind ?_
    rw [trimmed, if_neg (by simpa using some), said]
    exact later.result fun rest => headers ++ rest

end Printed

section Reading

variable {t : RequestText} {req : HttpRequest}

theorem requestParts_line (spells : Spells t req) : requestParts (t.requestLine ++ t.lineEnd) =
    pure (t.method, t.path ++ t.queryText.elim [] ('?' :: ·)) := by
  obtain ⟨-, -, -, ends⟩ := lineEnd_shape spells.lineEnd
  have trimmed : trimEnd (t.requestLine ++ t.lineEnd) = t.requestLine := by
    refine dropEnd_append (fun c last => ?_) fun c mem => ?_
    · rw [RequestText.requestLine, List.getLast?_append_of_ne_nil _ (List.cons_ne_nil _ _), List.getLast?_cons_of_ne_nil
        (by simp), List.getLast?_append_of_ne_nil _ (List.cons_ne_nil _ _),
        List.getLast?_cons_of_ne_nil spells.version.1] at last
      exact spells.version.2.2 c last
    · rcases ends c mem with rfl | rfl <;> rfl
  have apart : ' ' ∉ t.path ++ t.queryText.elim [] ('?' :: ·) := by
    rw [List.mem_append, not_or]
    refine ⟨spells.path.2.1, ?_⟩
    rcases spells.query with ⟨none, -⟩ | ⟨text, some, blank, -⟩
    · rw [none]
      exact List.not_mem_nil
    · rw [some]
      simpa using blank
  rw [requestParts, trimmed, RequestText.requestLine, splitOnce_append spells.method.2]
  dsimp only
  rw [splitOnce_append apart]

theorem readBody_printed (spells : Spells t req) : Reader.Reads (readBody req.headers) t.body t.body := by
  rw [readBody]
  rcases spells.contentLength with ⟨none, empty⟩ | ⟨some, small⟩
  · rw [List.find?_eq_none.mpr fun header mem => by rw [none header mem]; exact Bool.false_ne_true, empty]
    exact .pure
  · obtain ⟨header, found, text⟩ := Option.map_eq_some_iff.mp some
    have number : parseUnsigned 64 header.2.toList = Option.some t.body.length := by
      rw [text, String.toList_ofList]
      exact parseUnsigned_decimal (small.trans_lt (by decide))
    rw [found]
    dsimp only
    rw [number]
    dsimp only
    rw [if_neg (Nat.not_lt.mpr small)]
    exact .take rfl

/-- A request is read back as it was written, whatever follows it on the connection. -/
theorem request_printed (spells : Spells t req) : Reader.Reads (parseRequest closed) t.printed req := by
  have line : Reader.Reads (readLineCapped closed) (t.printLine t.requestLine) (t.requestLine ++ t.lineEnd) :=
    readLine_printed spells.lineEnd spells.unbroken.1 (spells.short _ List.mem_cons_self)
  have headers : Reader.Reads (readHeaders closed maxHeaderLines) (t.lines.flatMap t.printLine ++ t.printLine [])
      req.headers :=
    readHeaders_printed spells.lineEnd spells.headers
      (fun line mem => spells.short line (List.mem_cons_of_mem _ mem)) spells.few
  have full : ¬ (t.requestLine ++ t.lineEnd).isEmpty = true := by simp [RequestText.requestLine]
  have target : ∃ text, splitOnce '?' (t.path ++ t.queryText.elim [] ('?' :: ·)) = (t.path, text) ∧
      parseQueryString (text.getD []) = req.query := by
    rcases spells.query with ⟨none, blank⟩ | ⟨text, some, -, written⟩
    · refine ⟨Option.none, ?_, ?_⟩
      · rw [none, Option.elim_none, List.append_nil, splitOnce_missing spells.path.2.2]
      · rw [blank]
        rfl
    · refine ⟨text, ?_, parseQueryString_text written⟩
      rw [some, Option.elim_some, splitOnce_append spells.path.2.2]
  obtain ⟨text, split, query⟩ := target
  rw [RequestText.printed, parseRequest]
  refine line.bind ?_
  rw [if_neg full, requestParts_line spells, pure_bind, ← List.append_assoc]
  refine headers.bind ?_
  dsimp only
  rw [split]
  dsimp only
  rw [query]
  rw [← spells.method.1, ← spells.path.1]
  have whole := (readBody_printed spells).result fun body => { req with body }
  rwa [← spells.body] at whole ⊢

end Reading

section Bounded

variable {input more rest : List UInt8} {req : HttpRequest}

theorem readLine_settles : Reader.Settles (readLineCapped closed) (readLineCapped closed') maxLineLen := by
  refine ((Reader.settles_untilByte maxLineLen).bind (k := 0) fun buf => ?_).mono (Nat.le_of_eq (Nat.add_zero _))
  split
  next => exact Reader.settles_fail
  next =>
    split
    next => exact Reader.settles_pure
    next => exact Reader.settles_fail

theorem readHeaders_settles (lines : Nat) :
    Reader.Settles (readHeaders closed lines) (readHeaders closed' lines) (lines * maxLineLen) := by
  induction lines with
  | zero => exact Reader.settles_pure.mono (Nat.zero_le _)
  | succ lines ih =>
    refine (readLine_settles.bind (k := lines * maxLineLen) fun line => ?_).mono (by rw [Nat.succ_mul]; omega)
    dsimp only
    split
    next => exact Reader.settles_pure.mono (Nat.zero_le _)
    next => exact (ih.bind (k := 0) fun rest => Reader.settles_pure).mono (Nat.le_of_eq (Nat.add_zero _))

theorem readBody_settles (headers : List (String × String)) :
    Reader.Settles (readBody headers) (readBody headers) maxBodyLen := by
  rw [readBody]
  split
  next => exact Reader.settles_pure.mono (Nat.zero_le _)
  next =>
    split
    next => exact Reader.settles_fail.mono (Nat.zero_le _)
    next =>
      split
      next => exact Reader.settles_fail.mono (Nat.zero_le _)
      next small => exact Reader.settles_take.mono (Nat.not_lt.mp small)

theorem requestParts_settles (line : List Char) : Reader.Settles (requestParts line) (requestParts line) 0 := by
  rw [requestParts]
  split
  next => exact Reader.settles_fail
  next => exact Reader.settles_pure

theorem parse_settles : Reader.Settles (parseRequest closed) (parseRequest closed') requestMax := by
  refine (readLine_settles.bind (k := maxHeaderLines * maxLineLen + maxBodyLen) fun line => ?_).mono (by
    rw [requestMax, Nat.add_mul, Nat.one_mul, Nat.add_assoc])
  split
  next => exact Reader.settles_fail.mono (Nat.zero_le _)
  next =>
    refine ((requestParts_settles line).bind fun parts => ?_).mono (Nat.le_of_eq (Nat.zero_add _))
    refine (readHeaders_settles maxHeaderLines).bind fun headers => ?_
    exact ((readBody_settles headers).bind (k := 0) fun body => Reader.settles_pure).mono
      (Nat.le_of_eq (Nat.add_zero _))

/-- Whatever a client sends: so many bytes are enough for an answer, the request is made of no more of them, and neither
what follows them nor whether the client has closed makes a difference. -/
theorem parse_bounded (enough : requestMax ≤ input.length) :
    parseRequest closed' (input ++ more) = (parseRequest closed input).map (fun (req, rest) => (req, rest ++ more)) ∧
      ∀ req rest, parseRequest closed input = .ok (req, rest) →
        ∃ used, used.length ≤ requestMax ∧ input = used ++ rest := by
  have settles : Reader.Settles (parseRequest closed) (parseRequest closed') requestMax := parse_settles
  obtain ⟨done, failed⟩ := settles input more enough
  constructor
  · cases made : parseRequest closed input with
    | error e => exact failed e made
    | ok result => exact (done result.1 result.2 made).2.2
  · intro req rest made
    obtain ⟨bound, ⟨used, rfl⟩, -⟩ := done req rest made
    exact ⟨used, by rw [List.length_append] at bound; omega, rfl⟩

end Bounded

section Instance

def askedRequest : HttpRequest where
  query := [("q", "a b&c"), ("store_dir", "data")]
  headers := [("Host", "here"), ("content-length", "2")]
  method := "GET"
  path := "/api/query"
  body := [7, 8]

def askedText : RequestText where
  method := "GET".toList
  path := "/api/query".toList
  queryText := some "q=a+b%26c&&store_dir=data".toList
  version := "HTTP/1.1".toList
  lines := ["Host: here".toList, "content-length: 2 ".toList]
  lineEnd := ['\r', '\n']
  body := [7, 8]

theorem urlText_plain {text : List Char} (plus : '+' ∉ text) (percent : '%' ∉ text) :
    UrlText text (String.ofList text) := by
  have each (b : UInt8) (mem : b ∈ encodeChars text) : b ≠ 43 ∧ b ≠ 37 := by
    constructor
    · rintro rfl
      obtain ⟨c, inside, same⟩ := byte_of_mem_encodeChars mem (by decide)
      exact plus (Char.toNat_inj.mp (show c.toNat = '+'.toNat from same) ▸ inside)
    · rintro rfl
      obtain ⟨c, inside, same⟩ := byte_of_mem_encodeChars mem (by decide)
      exact percent (Char.toNat_inj.mp (show c.toNat = '%'.toNat from same) ▸ inside)
  rw [UrlText, utf8, String.toList_ofList]
  generalize encodeChars text = bytes at each
  induction bytes with
  | nil => exact .nil
  | cons b rest ih =>
    obtain ⟨plus, percent⟩ := each b List.mem_cons_self
    exact .plain plus percent (ih fun other mem => each other (List.mem_cons_of_mem b mem))

theorem askedQuery : QueryText "q=a+b%26c&&store_dir=data".toList [("q", "a b&c"), ("store_dir", "data")] := by
  have value : UrlText "a+b%26c".toList "a b&c" := by
    change UrlSpelling [97, 43, 98, 37, 50, 54, 99] [97, 32, 98, UInt8.ofNat (16 * 2 + 6), 99]
    exact .plain (by decide) (by decide) (.blank (.plain (by decide) (by decide)
      (.escaped (by decide) (by decide) (.plain (by decide) (by decide) .nil))))
  have first : QueryPiece "q=a+b%26c".toList [("q", "a b&c")] :=
    .pair (k := ['q']) (by decide) (urlText_plain (by decide) (by decide)) value
  have last : QueryPiece "store_dir=data".toList [("store_dir", "data")] :=
    .pair (k := "store_dir".toList) (by decide) (urlText_plain (by decide) (by decide))
      (urlText_plain (by decide) (by decide))
  exact .more (by decide) first (.more (by decide) .nothing (.last (by decide) last))

theorem trimmed_of_all {text : List Char}
    (outer : (text.head?.all (!isWhitespace ·) && text.getLast?.all (!isWhitespace ·)) = true) : Trimmed text := by
  simp only [Bool.and_eq_true, Option.all_eq_true_iff_get, Bool.not_eq_true'] at outer
  constructor
  · intro c mem
    have some : text.head?.isSome := Option.isSome_of_mem mem
    rw [← Option.get_of_mem some mem]
    exact outer.1 some
  · intro c mem
    have some : text.getLast?.isSome := Option.isSome_of_mem mem
    rw [← Option.get_of_mem some mem]
    exact outer.2 some

theorem askedText_spells : Spells askedText askedRequest where
  method := ⟨rfl, by decide⟩
  path := ⟨rfl, by decide, by decide⟩
  query := .inr ⟨_, rfl, by decide, askedQuery⟩
  version := ⟨by decide, trimmed_of_all (by decide)⟩
  unbroken := ⟨by decide, by decide⟩
  headers := by
    have host : HeaderLine ("Host".toList ++ ':' :: ([' '] ++ ("here".toList ++ []))) [("Host", "here")] :=
      .field (by decide) (trimmed_of_all (by decide)) (by simp [Blank]) (trimmed_of_all (by decide)) (by simp [Blank])
    have size : HeaderLine ("content-length".toList ++ ':' :: ([' '] ++ (['2'] ++ [' ']))) [("content-length", "2")] :=
      .field (by decide) (trimmed_of_all (by decide)) (by simp [Blank]) (trimmed_of_all (by decide)) (by simp [Blank])
    exact .cons ⟨by decide, by decide⟩ host (.cons ⟨by decide, by decide⟩ size .nil)
  lineEnd := .inr rfl
  few := by decide
  short := by decide
  body := rfl
  contentLength := .inr ⟨by decide, by decide⟩

theorem request_printed_asked : parseRequest false (askedText.printed ++ [71]) = .ok (askedRequest, [71]) :=
  request_printed askedText_spells [71]

theorem parse_bounded_zeros : parseRequest true (List.replicate requestMax 0 ++ [1]) =
    (parseRequest false (List.replicate requestMax 0)).map (fun (req, rest) => (req, rest ++ [1])) :=
  (parse_bounded (by rw [List.length_replicate])).1

end Instance

end Gems.Frontend.Webui
