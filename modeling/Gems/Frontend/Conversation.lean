import Gems.Frontend.Mediation
import Gems.Frontend.Protocol
import Gems.Lib.Hex

set_option autoImplicit false

namespace Gems.Frontend.Mcp

open Lib Json Json.Value

variable {texts : Texts} {host : Host} {hosts : Nat → Host} {request id reply w result value : Json.Value}

section Statement

def method (request : Json.Value) : String := ((request.get "method").bind asStr).getD ""

-- What a tool is called with.
def called (request : Json.Value) : Option Json.Value :=
  if method request = "tools/call" then request.get "params" else none

def understood (request : Json.Value) : Bool :=
  method request = "initialize" || method request = "tools/list" || (called request).isSome

-- The text that a tool has returned.
def resultText (result : Json.Value) : Option String := do
  let content ← result.get "content"
  let items ← content.asArray
  let block ← items.head?
  (← block.get "text").asStr

def toolText (reply : Json.Value) : Option String := (reply.get "result").bind resultText

/-- The reply is to this request: it has its id, tells of the version, and either of a result or of an error. What a
tool has returned is read from the text of the reply. -/
structure Answers (texts : Texts) (host : Host) (request reply : Json.Value) : Prop where
  id : ∃ id id', request.get "id" = some id ∧ reply.get "id" = some id' ∧ id'.eq id = true
  version : reply.get "jsonrpc" = some (.string "2.0")
  result : (reply.get "result").isSome = understood request
  error : (reply.get "error").isSome = !understood request
  returned : ∀ params value, called request = some params → callTool host params = pure value →
    ∃ text, toolText reply = some text ∧ Json.parse text = .ok value
  refused : ∀ params message, called request = some params → callTool host params = throw message →
    toolText reply = some (texts.message message)

structure Rejects (texts : Texts) (e : Json.ParseError) (reply : Json.Value) : Prop where
  id : reply.get "id" = some .null
  message : (reply.get "error").bind (Json.Value.get "message") = some (.string (texts.json e))

def Blank (line : String) : Prop := (trim line.toList).isEmpty = true

/-- The replies to the lines, one to each that has an id, in their order, and none to the others. -/
inductive Replies (texts : Texts) : (Nat → Host) → List String → List Json.Value → Prop where
  | nil {hosts : Nat → Host} : Replies texts hosts [] []
  | blank {hosts : Nat → Host} {line : String} {lines : List String} {replies : List Json.Value} (blank : Blank line)
      (rest : Replies texts (fun i => hosts (i + 1)) lines replies) : Replies texts hosts (line :: lines) replies
  | notified {hosts : Nat → Host} {line : String} {lines : List String} {replies : List Json.Value}
      {request : Json.Value} (parsed : Json.parse line = .ok request) (silent : request.get "id" = none)
      (rest : Replies texts (fun i => hosts (i + 1)) lines replies) : Replies texts hosts (line :: lines) replies
  | answered {hosts : Nat → Host} {line : String} {lines : List String} {replies : List Json.Value}
      {request reply : Json.Value} (parsed : Json.parse line = .ok request)
      (answers : Answers texts (hosts 0) request reply)
      (rest : Replies texts (fun i => hosts (i + 1)) lines replies) :
        Replies texts hosts (line :: lines) (reply :: replies)
  | rejected {hosts : Nat → Host} {line : String} {lines : List String} {replies : List Json.Value}
      {e : Json.ParseError} {reply : Json.Value} (parsed : Json.parse line = .error e) (rejects : Rejects texts e reply)
      (rest : Replies texts (fun i => hosts (i + 1)) lines replies) :
        Replies texts hosts (line :: lines) (reply :: replies)

-- A client reads line by line.
def readReplies (out : List Char) : Except Json.ParseError (List Json.Value) :=
  ((out.splitOn '\n').filter fun line => !line.isEmpty).mapM fun line => Json.parse (String.ofList line)

/-- The numbers in the id of a request are written as they are read. -/
def PlainId (line : String) : Prop :=
  ∀ request id, Json.parse line = .ok request → request.get "id" = some id → id.Numbers Written

end Statement

section Worded

variable {n m : Nat} {entries : List (String × Json.Value)} {items : List Json.Value}

/-- Nothing but texts, and no deeper than that. -/
structure Worded (n : Nat) (v : Json.Value) : Prop where
  numbers : v.Numbers fun _ => False
  shallow : v.nesting ≤ n

theorem Worded.mono (worded : Worded n value) (le : n ≤ m) : Worded m value := ⟨worded.numbers, worded.shallow.trans le⟩

theorem worded_string (s : String) : Worded n (.string s) := ⟨.string, Nat.zero_le n⟩

theorem worded_array (each : ∀ v ∈ items, Worded n v) : Worded (n + 1) (.array items) where
  numbers := .array fun v mem => (each v mem).numbers
  shallow := Nat.succ_le_succ (nestingItems_le fun v mem => (each v mem).shallow)

theorem worded_object (each : ∀ entry ∈ entries, Worded n entry.2) : Worded (n + 1) (.object entries) where
  numbers := .object fun entry mem => (each entry mem).numbers
  shallow := Nat.succ_le_succ (nestingEntries_le fun entry mem => (each entry mem).shallow)

theorem worded_objectOf (each : ∀ entry ∈ entries, Worded n entry.2) : Worded (n + 1) (objectOf entries) where
  numbers := numbers_objectOf fun entry mem => (each entry mem).numbers
  shallow := nesting_objectOf fun entry mem => (each entry mem).shallow

theorem worded_none : ∀ entry ∈ ([] : List (String × Json.Value)), Worded n entry.2 :=
  fun _ none => absurd none List.not_mem_nil

theorem worded_cons {key : String} (first : Worded n value) (rest : ∀ entry ∈ entries, Worded n entry.2) :
    ∀ entry ∈ (key, value) :: entries, Worded n entry.2 :=
  List.forall_mem_cons.mpr ⟨first, rest⟩

theorem worded_single {key : String} (only : Worded n value) : ∀ entry ∈ [(key, value)], Worded n entry.2 :=
  worded_cons only worded_none

theorem worded_strings (list : List String) : Worded (n + 1) (.array (list.map .string)) :=
  worded_array (List.forall_mem_map.mpr fun s _ => worded_string s)

theorem worded_stringProp (description : String) : Worded (n + 1) (stringProp description) :=
  worded_objectOf (worded_cons (worded_string _) (worded_single (worded_string _)))

theorem worded_toolSchema {name description : String} {properties : Json.Value} {required : List String}
    (worded : Worded (n + 1) properties) : Worded (n + 3) (toolSchema name description properties required) :=
  worded_objectOf (worded_cons (worded_string _) (worded_cons (worded_string _) (worded_single
    (worded_objectOf (worded_cons (worded_string _) (worded_cons worded (worded_single (worded_strings _))))))))

theorem worded_initializeResult : Worded 3 initializeResult :=
  worded_objectOf (worded_cons (worded_string _)
    (worded_cons (worded_objectOf (worded_single (worded_objectOf worded_none)))
    (worded_single (worded_objectOf (worded_cons (worded_string _) (worded_single (worded_string _)))))))

theorem worded_toolsListResult : Worded 6 toolsListResult := by
  have prop (description : String) : Worded 1 (stringProp description) := worded_stringProp description
  refine worded_objectOf (worded_single (worded_array ?_))
  refine List.forall_mem_cons.mpr ⟨worded_toolSchema (worded_objectOf ?_), List.forall_mem_cons.mpr
    ⟨worded_toolSchema (worded_objectOf ?_), List.forall_mem_singleton.mpr (worded_toolSchema (worded_objectOf ?_))⟩⟩
  next => exact worded_cons (prop _) (worded_cons (prop _) (worded_single (prop _)))
  next => exact worded_cons (prop _) (worded_cons (prop _) (worded_single (prop _)))
  next => exact worded_cons (prop _) (worded_single (prop _))

theorem worded_textBlock (text : String) : Worded 1 (textBlock text) :=
  worded_objectOf (worded_cons (worded_string _) (worded_single (worded_string _)))

theorem worded_content (text : String) : Worded 2 (.array [textBlock text]) :=
  worded_array (List.forall_mem_singleton.mpr (worded_textBlock text))

theorem worded_summary (header : Catalog.EntityHeader) : ∀ entry ∈ entitySummary header, Worded n entry.2 :=
  worded_cons (worded_string _) (worded_cons (worded_string _) (worded_cons (worded_string _)
    (worded_cons (worded_string _) (worded_single (worded_string _)))))

theorem worded_summaries (entities : List Engine.Entity) : Worded 2 (summaries entities) :=
  worded_array (List.forall_mem_map.mpr fun e _ => worded_object (worded_summary e.1))

theorem worded_setEntry {key : String} (first : Worded n value) (rest : ∀ entry ∈ entries, Worded n entry.2) :
    ∀ entry ∈ setEntry key value entries, Worded n entry.2 := by
  intro entry mem
  rcases of_mem_setEntry mem with old | new
  next => exact rest entry old
  next => exact new ▸ first

theorem worded_fieldsOf (r : Codec.GbvReader) : ∀ entry ∈ fieldsOf r, Worded n entry.2 := by
  refine List.foldlRecOn (motive := fun fields : List (String × Json.Value) => ∀ entry ∈ fields, Worded n entry.2)
    r.keyIds _ worded_none ?_
  intro fields known key _
  split
  next => exact worded_setEntry (worded_string _) known
  next => exact known

theorem worded_entityObject (header : Catalog.EntityHeader) (body : List UInt8) :
    Worded 2 (entityObject header body) := by
  have plain : Worded 2 (.object (entitySummary header)) := worded_object (worded_summary header)
  rw [entityObject]
  split
  next =>
    split
    next r _ => exact worded_object (worded_setEntry (worded_object (worded_fieldsOf r)) (worded_summary header))
    next => exact plain
  next => exact plain

end Worded

section Tools

theorem worded_listByKind {failed : Message → Message} {fuel : Nat} {store : Engine.Store}
    {caller : Option Abac.SubjectContext} {kind : Catalog.EntityKind}
    (made : listByKind failed fuel store caller kind = pure value) : Worded 2 value := by
  obtain ⟨ids, -, made⟩ := Answer.bind_eq_pure made
  obtain ⟨found, -, made⟩ := Answer.bind_eq_pure made
  obtain rfl := Answer.pure_inj made
  exact worded_summaries _

theorem worded_tool {name : String} {args : Json.Value} (made : toolNamed host name args = pure value) :
    Worded 2 value := by
  rw [toolNamed] at made
  split_ifs at made
  next =>
    obtain ⟨caller, -, made⟩ := Answer.bind_eq_pure made
    obtain ⟨store, -, made⟩ := Answer.bind_eq_pure made
    obtain ⟨queryStr, -, made⟩ := Answer.bind_eq_pure made
    obtain ⟨parsed, -, made⟩ := Answer.bind_eq_pure made
    cases caller with
    | some subject =>
      obtain ⟨entities, -, made⟩ := Answer.bind_eq_pure made
      obtain rfl := Answer.pure_inj made
      exact worded_summaries _
    | none =>
      obtain ⟨ids, -, made⟩ := Answer.bind_eq_pure made
      obtain ⟨found, -, made⟩ := Answer.bind_eq_pure made
      obtain rfl := Answer.pure_inj made
      exact worded_summaries _
  next =>
    obtain ⟨caller, -, made⟩ := Answer.bind_eq_pure made
    obtain ⟨store, -, made⟩ := Answer.bind_eq_pure made
    obtain ⟨idHex, -, made⟩ := Answer.bind_eq_pure made
    obtain ⟨found, -, made⟩ := Answer.bind_eq_pure made
    obtain ⟨id, -, made⟩ := Answer.bind_eq_pure made
    obtain ⟨found', -, made⟩ := Answer.bind_eq_pure made
    obtain ⟨e, -, made⟩ := Answer.bind_eq_pure made
    obtain rfl := Answer.pure_inj made
    exact worded_entityObject _ _
  next =>
    obtain ⟨caller, -, made⟩ := Answer.bind_eq_pure made
    obtain ⟨store, -, made⟩ := Answer.bind_eq_pure made
    exact worded_listByKind made
  next => cases made

theorem worded_callTool {params : Json.Value} (made : callTool host params = pure value) : Worded 2 value := by
  rw [callTool] at made
  split at made
  next => exact worded_tool made
  next => cases made

theorem handleToolsCall_text {params : Json.Value} (made : handleToolsCall texts host params = .ok result) :
    Worded 3 result ∧
      (∀ value, callTool host params = pure value → resultText result = some value.toString) ∧
      ∀ message, callTool host params = throw message → resultText result = some (texts.message message) := by
  rw [handleToolsCall] at made
  cases ran : callTool host params with
  | error fault =>
    rw [ran] at made
    cases made
  | ok outcome =>
    rw [ran] at made
    cases outcome with
    | ok value =>
      cases made
      refine ⟨worded_objectOf (worded_single (worded_content _)),
        fun value' same => ?_, fun message same => by cases same⟩
      cases same
      rfl
    | error message =>
      cases made
      refine ⟨worded_objectOf (worded_cons (worded_content _) (worded_single ⟨.bool, Nat.zero_le 2⟩)),
        fun value same => (by cases same), fun message' same => ?_⟩
      cases same
      rfl

end Tools

section Replying

variable {code : ℤ} {message : String}

structure ReadBack (reply w : Json.Value) : Prop where
  line : '\n' ∉ reply.write
  parsed : Json.parse reply.toString = .ok w

theorem readBack (numbers : reply.Numbers Written) (fits : reply.nesting ≤ maxNestingDepth) :
    ReadBack reply reply.unsigned := ⟨newline_not_mem_write numbers, parse_toString numbers fits⟩

theorem Worded.written {n : Nat} (worded : Worded n value) : value.Numbers Written :=
  worded.numbers.imp fun _ none => none.elim

theorem each_entry {Q : Json.Value → Prop} {key key' key'' : String}
    {v v' v'' : Json.Value} (first : Q v) (second : Q v')
    (third : Q v'') : ∀ entry ∈ [(key, v), (key', v'), (key'', v'')], Q entry.2 :=
  List.forall_mem_cons.mpr ⟨first, List.forall_mem_cons.mpr ⟨second, List.forall_mem_singleton.mpr third⟩⟩

theorem readBack_success (numbers : id.Numbers Written)
    (fits : id.nesting < maxNestingDepth) (worded : Worded 6 result) :
    ReadBack (successResponse id result) (successResponse id result).unsigned := by
  refine readBack (numbers_objectOf (each_entry .string numbers worded.written)) ?_
  have deep : maxNestingDepth = 63 + 1 := rfl
  rw [deep] at fits ⊢
  exact nesting_objectOf (each_entry (Q := fun v => v.nesting ≤ 63) (Nat.zero_le 63) (Nat.le_of_lt_succ fits)
    (worded.shallow.trans (by decide)))

theorem written_code (known : code = parseError ∨ code = methodNotFound ∨ code = invalidParams) :
    Written (.ofInt code) := by
  refine written_short ?_
  rcases known with rfl | rfl | rfl
  · exact ⟨by decide +kernel, by decide +kernel⟩
  · exact ⟨by decide +kernel, by decide +kernel⟩
  · exact ⟨by decide +kernel, by decide +kernel⟩

theorem readBack_error (numbers : id.Numbers Written) (fits : id.nesting < maxNestingDepth)
    (known : code = parseError ∨ code = methodNotFound ∨ code = invalidParams) :
    ReadBack (errorResponse id code message) (errorResponse id code message).unsigned := by
  have inner : (objectOf [("code", .number (.ofInt code)), ("message", .string message)]).Numbers Written :=
    numbers_objectOf (List.forall_mem_cons.mpr ⟨.number (written_code known), List.forall_mem_singleton.mpr .string⟩)
  have flat : (objectOf [("code", .number (.ofInt code)), ("message", .string message)]).nesting ≤ 1 :=
    nesting_objectOf (n := 0) (List.forall_mem_cons.mpr ⟨Nat.le_refl 0, List.forall_mem_singleton.mpr (Nat.le_refl 0)⟩)
  refine readBack (numbers_objectOf (each_entry .string numbers inner)) ?_
  have deep : maxNestingDepth = 63 + 1 := rfl
  rw [deep] at fits ⊢
  exact nesting_objectOf (each_entry (Q := fun v => v.nesting ≤ 63) (Nat.zero_le 63) (Nat.le_of_lt_succ fits)
    (flat.trans (by decide)))

theorem called_none (other : method request ≠ "tools/call") : called request = none := by rw [called, if_neg other]

theorem success_answers (asked : request.get "id" = some id) (numbers : id.Numbers Written) (worded : Worded 6 result)
    (known : understood request = true)
    (returned : ∀ params value, called request = some params → callTool host params = pure value →
      resultText result = some value.toString)
    (refused : ∀ params message, called request = some params → callTool host params = throw message →
      resultText result = some (texts.message message)) :
    Answers texts host request (successResponse id result).unsigned := by
  have text : toolText (successResponse id result).unsigned = resultText result := by
    rw [toolText, get_unsigned, show (successResponse id result).get "result" = some result from rfl, Option.map_some,
      Option.bind_some, unsigned_of_numberless worded.numbers]
  constructor
  · exact ⟨id, id.unsigned, asked, by rw [get_unsigned]; rfl, eq_unsigned numbers⟩
  · rw [get_unsigned]
    rfl
  · rw [get_unsigned, known]
    rfl
  · rw [get_unsigned, known]
    rfl
  · intro params value calls made
    refine ⟨_, text.trans (returned params value calls made), ?_⟩
    have small := worded_callTool made
    exact parse_toString_numberless small.numbers (small.shallow.trans (by decide))
  · intro params message calls made
    exact text.trans (refused params message calls made)

theorem error_answers (asked : request.get "id" = some id) (numbers : id.Numbers Written)
    (unknown : understood request = false) :
    Answers texts host request (errorResponse id code message).unsigned := by
  have none : called request = none := by
    rw [understood, Bool.or_eq_false_iff] at unknown
    exact Option.not_isSome_iff_eq_none.mp (by rw [unknown.2]; exact Bool.false_ne_true)
  constructor
  · exact ⟨id, id.unsigned, asked, by rw [get_unsigned]; rfl, eq_unsigned numbers⟩
  · rw [get_unsigned]
    rfl
  · rw [get_unsigned, unknown]
    rfl
  · rw [get_unsigned, unknown]
    rfl
  · intro params value calls
    cases none.symm.trans calls
  · intro params message calls
    cases none.symm.trans calls

theorem answer_answers (asked : request.get "id" = some id) (numbers : id.Numbers Written)
    (fits : id.nesting < maxNestingDepth) (made : answer texts host request id = .ok reply) :
    ∃ w, ReadBack reply w ∧ Answers texts host request w := by
  have small {result : Json.Value} (known : understood request = true) (worded : Worded 6 result)
      (none : called request = none) : ∃ w, ReadBack (successResponse id result) w ∧ Answers texts host request w :=
    ⟨_, readBack_success numbers fits worded, success_answers asked numbers worded known
      (fun params value calls => by cases none.symm.trans calls)
      fun params message calls => by cases none.symm.trans calls⟩
  unfold answer at made
  dsimp only at made
  split at made
  next here =>
    cases made
    have here : method request = "initialize" := here
    exact small (by simp [understood, here]) (worded_initializeResult.mono (by decide))
      (called_none (by rw [here]; decide))
  next first =>
    split at made
    next here =>
      cases made
      have here : method request = "tools/list" := here
      exact small (by simp [understood, here]) worded_toolsListResult (called_none (by rw [here]; decide))
    next second =>
      split at made
      next here =>
        have here : method request = "tools/call" := here
        split at made
        next params given =>
          have calls : called request = some params := by rw [called, if_pos here, given]
          cases ran : handleToolsCall texts host params with
          | error fault =>
            rw [ran] at made
            cases made
          | ok result =>
            rw [ran] at made
            cases made
            obtain ⟨worded, returned, refused⟩ := handleToolsCall_text ran
            refine ⟨_, readBack_success numbers fits (worded.mono (by decide)), success_answers asked numbers
              (worded.mono (by decide)) (by simp [understood, calls]) (fun params' value same made => ?_)
              fun params' message same made => ?_⟩
            · obtain rfl := Option.some.inj (calls.symm.trans same)
              exact returned value made
            · obtain rfl := Option.some.inj (calls.symm.trans same)
              exact refused message made
        next missing =>
          cases made
          have unknown : understood request = false := by simp [understood, called, here, missing]
          exact ⟨_, readBack_error numbers fits (.inr (.inr rfl)), error_answers asked numbers unknown⟩
      next third =>
        cases made
        have unknown : understood request = false := by
          have first : method request ≠ "initialize" := first
          have second : method request ≠ "tools/list" := second
          have third : method request ≠ "tools/call" := third
          simp [understood, called, first, second, third]
        exact ⟨_, readBack_error numbers fits (.inr (.inl rfl)), error_answers asked numbers unknown⟩

end Replying

section Running

variable {requests : List String} {line : String} {out : List Char} {ended : Option Fault}

theorem readReplies_cons {text rest : List Char} {ws : List Json.Value} (unbroken : '\n' ∉ text) (some : text ≠ [])
    (parsed : Json.parse (String.ofList text) = .ok w) (later : readReplies rest = .ok ws) :
    readReplies (text ++ '\n' :: rest) = .ok (w :: ws) := by
  rw [readReplies, List.splitOn_append_cons_self_of_not_mem unbroken, List.filter_cons_of_pos (by simpa using some),
    List.mapM_cons, parsed]
  rw [readReplies] at later
  rw [later]
  rfl

theorem respond_replies (plain : PlainId line) (made : respond texts host line = .ok (some reply)) :
    ∃ w, ReadBack reply w ∧ ((∃ request, Json.parse line = .ok request ∧ Answers texts host request w) ∨
      ∃ e, Json.parse line = .error e ∧ Rejects texts e w) := by
  unfold respond at made
  cases parsed : Json.parse line with
  | error e =>
    rw [parsed] at made
    cases made
    refine ⟨_, readBack_error .null (by decide) (.inl rfl), .inr ⟨e, rfl, ?_, ?_⟩⟩
    · rw [get_unsigned]
      rfl
    · rw [get_unsigned, show (errorResponse .null parseError (texts.json e)).get "error" = some _ from rfl,
        Option.map_some, Option.bind_some, get_unsigned]
      rfl
  | ok request =>
    rw [parsed] at made
    dsimp only at made
    cases asked : request.get "id" with
    | none =>
      rw [asked] at made
      cases made
    | some id =>
      rw [asked] at made
      dsimp only at made
      cases answered : answer texts host request id with
      | error fault =>
        rw [answered] at made
        cases made
      | ok reply' =>
        rw [answered] at made
        cases made
        have deep := parse_nesting parsed
        have fits : id.nesting < maxNestingDepth := by
          cases request with
          | object entries =>
            obtain ⟨entry, found, rfl⟩ := Option.map_eq_some_iff.mp asked
            exact Nat.lt_of_le_of_lt (nesting_entry (List.mem_of_find?_eq_some found)) deep
          | _ => cases asked
        obtain ⟨w, back, answers⟩ := answer_answers asked (plain request id parsed asked) fits answered
        exact ⟨w, back, .inl ⟨request, rfl, answers⟩⟩

theorem respond_silent (made : respond texts host line = .ok none) :
    ∃ request, Json.parse line = .ok request ∧ request.get "id" = none := by
  unfold respond at made
  cases parsed : Json.parse line with
  | error e =>
    rw [parsed] at made
    cases made
  | ok request =>
    rw [parsed] at made
    dsimp only at made
    cases asked : request.get "id" with
    | none => exact ⟨request, rfl, asked⟩
    | some id =>
      rw [asked] at made
      dsimp only at made
      cases answered : answer texts host request id with
      | error fault =>
        rw [answered] at made
        cases made
      | ok reply' =>
        rw [answered] at made
        cases made

theorem write_ne_nil (back : ReadBack reply w) : reply.write ≠ [] := by
  intro none
  have parsed := back.parsed
  rw [Json.Value.toString, none] at parsed
  cases parsed

theorem serveLines_replies (plain : ∀ line ∈ requests, PlainId line) (hosts : Nat → Host) :
    ∃ served replies, served <+: requests ∧ Replies texts hosts served replies ∧
      readReplies ((serveLines texts hosts (requests.map utf8)).1.flatMap String.toList) = .ok replies ∧
      ((serveLines texts hosts (requests.map utf8)).2 = none → served = requests) := by
  induction requests generalizing hosts with
  | nil => exact ⟨[], [], List.nil_prefix, .nil, rfl, fun _ => rfl⟩
  | cons line rest ih =>
    obtain ⟨served, replies, part, talk, read, all⟩ := ih (fun other mem => plain other (List.mem_cons_of_mem line mem))
      fun i => hosts (i + 1)
    have longer : line :: served <+: line :: rest := (List.prefix_cons_inj line).mpr part
    rw [List.map_cons, serveLines, fromUtf8_utf8]
    dsimp only
    split
    next blank => exact ⟨line :: served, replies, longer, .blank blank talk, read, fun ended => by rw [all ended]⟩
    next =>
      rw [dispatch]
      cases made : respond texts (hosts 0) line with
      | error fault => exact ⟨[], [], List.nil_prefix, .nil, rfl, fun ended => by cases ended⟩
      | ok found =>
        cases found with
        | none =>
          obtain ⟨request, parsed, silent⟩ := respond_silent made
          exact ⟨line :: served, replies, longer, .notified parsed silent talk, read, fun ended => by rw [all ended]⟩
        | some reply =>
          obtain ⟨w, back, answers⟩ := respond_replies (plain line List.mem_cons_self) made
          have text : ((reply.toString ++ "\n") ::
            (serveLines texts (fun i => hosts (i + 1)) (rest.map utf8)).1).flatMap
              String.toList = reply.write ++ '\n' ::
                (serveLines texts (fun i => hosts (i + 1)) (rest.map utf8)).1.flatMap String.toList := by
            rw [List.flatMap_cons, String.toList_append, Json.Value.toString, String.toList_ofList, List.append_assoc]
            rfl
          have read' := readReplies_cons back.line (write_ne_nil back) back.parsed read
          rw [← text] at read'
          rcases answers with ⟨request, parsed, answers⟩ | ⟨e, parsed, rejects⟩
          · exact ⟨line :: served, w :: replies, longer, .answered parsed answers talk, read',
              fun ended => by rw [all ended]⟩
          · exact ⟨line :: served, w :: replies, longer, .rejected parsed rejects talk, read',
              fun ended => by rw [all ended]⟩

theorem readLines_lines (unbroken : ∀ r ∈ requests, '\n' ∉ r.toList)
    (short : ∀ r ∈ requests, (utf8 r).length < maxLineLen)
    {turns : Nat} (enough : requests.length < turns) :
    readLines turns (requests.flatMap fun r => utf8 (r ++ "\n")) = (requests.map (· ++ "\n")).map utf8 := by
  obtain ⟨left, rfl⟩ : ∃ left, turns = left + 1 := ⟨turns - 1, by omega⟩
  induction requests generalizing left with
  | nil => rfl
  | cons r rest ih =>
    obtain ⟨left', rfl⟩ : ∃ left', left = left' + 1 := by
      rw [List.length_cons] at enough
      exact ⟨left - 1, by omega⟩
    have bytes : utf8 (r ++ "\n") = utf8 r ++ [10] := by
      rw [utf8, String.toList_append, encodeChars, List.flatMap_append]
      rfl
    have apart : (10 : UInt8) ∉ utf8 r := by
      intro mem
      obtain ⟨c, inside, same⟩ := byte_of_mem_encodeChars mem (by decide)
      exact unbroken r List.mem_cons_self (Char.toNat_inj.mp (show c.toNat = '\n'.toNat from same) ▸ inside)
    have taken : Reader.Reads (Reader.untilByte () true 10 maxLineLen) (utf8 (r ++ "\n")) (utf8 (r ++ "\n")) := by
      rw [bytes]
      exact .untilByte apart (short r List.mem_cons_self)
    have some : ¬ (utf8 (r ++ "\n")).isEmpty = true := by simp [bytes]
    have last : (utf8 (r ++ "\n")).getLast? = Option.some 10 := by simp [bytes]
    rw [List.flatMap_cons, readLines, taken, List.map_cons, List.map_cons]
    dsimp only
    rw [if_neg some, if_neg fun long => long.2 last]
    exact congrArg _ (ih (fun other mem => unbroken other (List.mem_cons_of_mem r mem))
      (fun other mem => short other (List.mem_cons_of_mem r mem)) left' (by rw [List.length_cons] at enough; omega))

/-- Whatever a client asks, line by line, and whatever the stores hold at each line: it can read the replies line by
line, one to each line with an id and in their order, each to its request; only a panic, or a store read that never
ends, leaves the last lines without. -/
theorem conversation (unbroken : ∀ r ∈ requests, '\n' ∉ r.toList) (short : ∀ r ∈ requests, (utf8 r).length < maxLineLen)
    (plain : ∀ r ∈ requests, PlainId (r ++ "\n"))
    (ran : main texts hosts (requests.flatMap fun r => utf8 (r ++ "\n")) = (out, ended)) :
    ∃ served replies, served <+: requests.map (· ++ "\n") ∧ Replies texts hosts served replies ∧
      readReplies out = .ok replies ∧ (ended = none → served = requests.map (· ++ "\n")) := by
  have count : requests.length < (requests.flatMap fun r => utf8 (r ++ "\n")).length + 1 := by
    have each : ∀ r ∈ requests, 1 ≤ (utf8 (r ++ "\n")).length := by
      intro r _
      rw [utf8, String.toList_append, encodeChars, List.flatMap_append, List.length_append]
      exact Nat.le_add_left 1 _
    have sum := List.length_le_sum_of_one_le (requests.map fun r => (utf8 (r ++ "\n")).length)
      (List.forall_mem_map.mpr each)
    rw [List.length_map] at sum
    rw [List.length_flatMap]
    omega
  rw [main, readLines_lines unbroken short count] at ran
  obtain ⟨rfl, rfl⟩ := Prod.mk.inj ran
  exact serveLines_replies (List.forall_mem_map.mpr plain) hosts

end Running

section Instance

def plainTexts : Texts where
  graphic := .ascii
  io := "No space left on device (os error 28)"

def emptyHost : Host where
  os := Storage.fourKiB
  fuel := 0
  unicode := .ascii
  directories _ := none
  auth := .enforced [1]
  now := 0

def toolsAsked : String := "\x7b\"id\": \"a\", \"method\": \"tools/list\"\x7d"

theorem toolsAsked_plain : PlainId (toolsAsked ++ "\n") := by
  intro request id parsed asked
  have text : (Json.parse (toolsAsked ++ "\n")).toOption.bind (fun request => (request.get "id").bind asStr) =
    some "a" := by
    decide +kernel
  rw [parsed] at text
  have text : (request.get "id").bind asStr = some "a" := text
  rw [asked] at text
  cases id with
  | string s => exact .string
  | _ => cases text

theorem conversation_tools : ∃ served replies, served <+: [toolsAsked ++ "\n", "\n"] ∧
    Replies plainTexts (fun _ => emptyHost) served replies ∧
    readReplies (main plainTexts (fun _ => emptyHost)
      ([toolsAsked, ""].flatMap fun r => utf8 (r ++ "\n"))).1 = .ok replies := by
  have blank : PlainId ("" ++ "\n") := by
    intro request id parsed asked
    have none : (Json.parse ("" ++ "\n")).toOption.isNone = true := by decide +kernel
    rw [parsed] at none
    cases none
  have ran : main plainTexts (fun _ => emptyHost) ([toolsAsked, ""].flatMap fun r => utf8 (r ++ "\n")) = (_, _) :=
    Prod.mk.eta.symm
  have unbroken : ∀ r ∈ [toolsAsked, ""], '\n' ∉ r.toList := by decide
  have short : ∀ r ∈ [toolsAsked, ""], (utf8 r).length < maxLineLen := by
    have few : ∀ r ∈ [toolsAsked, ""], (utf8 r).length ≤ 35 := by decide
    exact fun r mem => (few r mem).trans_lt (by rw [maxLineLen]; omega)
  obtain ⟨served, replies, part, talk, read, -⟩ := conversation unbroken short
    (List.forall_mem_cons.mpr ⟨toolsAsked_plain, List.forall_mem_singleton.mpr blank⟩) ran
  exact ⟨served, replies, part, talk, read⟩

end Instance

end Gems.Frontend.Mcp
