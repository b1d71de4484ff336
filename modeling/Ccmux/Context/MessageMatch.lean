/- Module: Ccmux/Context/MessageMatch
   source: src/context/transcriptSearch.ts (matchMessage), src/agent/codex/transcript.ts (parse),
     src/context/transcriptWindow.ts (nativeEntryMessage), src/agent/transcript/lines.ts
   digest: The messages a transcript's lines are read as, and one message against a query. -/

import Ccmux.Lib.Utf16
import Ccmux.Transcript.Stats

namespace Ccmux.Context.MessageMatch

open Ccmux.Lib.Utf16 (Units)
open Ccmux.Transcript.Normalize
open Ccmux.Transcript.Stats (TranscriptRole TranscriptKind)
open Ccmux.Transcript.Stats.Codex (callTypes outputTypes mapRole)

universe u

def unitsOf (text : String) : Units :=
  text.toList.flatMap fun c =>
    if c.toNat < 0x10000 then [c.toNat]
    else [0xD800 + (c.toNat - 0x10000) / 0x400, 0xDC00 + (c.toNat - 0x10000) % 0x400]

/-- JSON in both directions, on texts as they are held. -/
structure Language extends Builtins where
  /-- `JSON.parse`; `none` is a throw. Fields come in the order `Object.values` gives them. -/
  parseUnits : Units → Option Json
  /-- `JSON.stringify(value, null, 2)`. -/
  stringify : Json → Units

structure TranscriptMessage where
  id : String
  seq : Nat
  createdAt : Option String
  role : TranscriptRole
  kind : TranscriptKind
  text : Option Units
  toolName : Option String
  toolCallId : Option String
  input : Option Units
  resultText : Option Units
  deriving DecidableEq, Repr

def ellipsis : Nat := 0x2026

def clip (s : Units) (limit : Nat) : Units :=
  if limit < s.length then s.take limit ++ [ellipsis] else s

/-- `SEARCH_TEXT_LIMIT`. -/
def searchTextLimit : Nat := 1000000

/-! ### A parser of numbered lines -/

/-- A provider's parser; each message it reads is of one of the lines it was given. -/
structure Parser (α : Type u) where
  parse : List (α × Nat) → List TranscriptMessage
  seq_mem : ∀ lines, ∀ m ∈ parse lines, m.seq ∈ lines.map Prod.snd

/-- What a provider reads each line as, by itself. -/
structure LineParser (α : Type u) where
  messages : α → Nat → List TranscriptMessage
  seq_eq : ∀ line seq, ∀ m ∈ messages line seq, m.seq = seq

/-- A parser that reads one line after the other. -/
def LineParser.parser {α : Type u} (p : LineParser α) : Parser α where
  parse lines := lines.flatMap fun line => p.messages line.1 line.2
  seq_mem lines m hm := by
    obtain ⟨line, hline, hmessage⟩ := List.mem_flatMap.mp hm
    rw [p.seq_eq line.1 line.2 m hmessage]
    exact List.mem_map_of_mem hline

/-! ### A native conversation -/

inductive EntryKind where
  | user | assistant | reasoningSummary | tool | compaction | other
  deriving DecidableEq, Repr

structure ToolObservation where
  name : Option String
  callId : Option String
  deriving DecidableEq, Repr

/-- What a window reads of a native history entry. -/
structure NativeHistoryEntry where
  itemId : String
  kind : EntryKind
  text : Option Units
  images : Nat
  omittedImages : Nat
  tool : Option ToolObservation
  deriving DecidableEq, Repr

def nativeRole : EntryKind → TranscriptRole
  | .user => .user
  | .assistant | .reasoningSummary => .assistant
  | .tool => .tool
  | .compaction => .system
  | .other => .unknown

def nativeKind : EntryKind → TranscriptKind
  | .user | .assistant => .message
  | .reasoningSummary => .thinking
  | .tool => .toolCall
  | .compaction => .event
  | .other => .unknown

/-- An entry with neither text nor a tool nor an image is no transcript entry. -/
def nativeEntryMessage (entry : NativeHistoryEntry) (seq textLimit : Nat) :
    Option TranscriptMessage :=
  let text := entry.text.map fun text => clip text textLimit
  let hasText := text.any fun text => !text.isEmpty
  let hasImage := decide (0 < entry.images ∨ 0 < entry.omittedImages)
  if entry.tool.isNone && !hasText && !hasImage then none
  else some {
    id := entry.itemId
    seq
    createdAt := none
    role := nativeRole entry.kind
    kind := if entry.tool.isSome then .toolCall else if hasText then nativeKind entry.kind else .image
    text
    toolName := entry.tool.bind ToolObservation.name
    toolCallId := entry.tool.bind ToolObservation.callId
    input := none
    resultText := none }

theorem nativeEntryMessage_seq {entry : NativeHistoryEntry} {seq textLimit : Nat}
    {m : TranscriptMessage} (h : nativeEntryMessage entry seq textLimit = some m) : m.seq = seq := by
  unfold nativeEntryMessage at h
  dsimp only at h
  rw [Option.ite_none_left_eq_some] at h
  rw [← Option.some.inj h.2]

def nativeParser : LineParser NativeHistoryEntry where
  messages entry seq := (nativeEntryMessage entry seq searchTextLimit).toList
  seq_eq _ _ _ hm := nativeEntryMessage_seq (Option.mem_toList.mp hm)

/-! ### A Codex rollout -/

section
variable (l : Language)

/-- The readable part of a call's arguments. -/
def toolText (payload : Option Json) : String :=
  if str (field payload "type") = some "custom_tool_call" then
    ((str (field payload "input")).or (str (field payload "name"))).getD ""
  else
    match (str (field payload "arguments")).bind nonEmpty with
    | none => (str (field payload "name")).getD ""
    | some argsRaw =>
      let a := rec (l.parseJson argsRaw)
      let picked := ["cmd", "command", "description", "file_path", "query"].findSome? fun key =>
        str (field a key)
      (picked.bind nonEmpty).getD argsRaw

/-- `cut`. -/
def cutText (text : String) (textLimit : Nat) : Option Units :=
  if text = "" then none else some (clip (unitsOf text) textLimit)

structure Pushed where
  role : TranscriptRole
  kind : TranscriptKind
  text : Option Units
  toolName : Option String
  toolCallId : Option String
  deriving DecidableEq, Repr

/-- `flattenContent(out?.content ?? payload.output) ?? ''`. -/
def outputText (payload : Option Json) : String :=
  let out := rec (field payload "output")
  let content := match field out "content" with
    | none => field payload "output"
    | some .null => field payload "output"
    | content => content
  (flattenContent l.toBuiltins content).getD ""

/-- A published reasoning summary; often there is none. -/
def summaryText (payload : Option Json) : String :=
  let texts := (items (field payload "summary")).map fun entry =>
    ((str (field (rec (some entry)) "text")).or (str (some entry))).getD ""
  "\n\n".intercalate (texts.filter fun text => text ≠ "")

/-- One `response_item` payload as messages, one for each text of a message's content. -/
def fromPayload (payload : Option Json) (textLimit : Nat) : List Pushed :=
  let ptype := (str (field payload "type")).getD ""
  if ptype = "message" then
    (items (field payload "content")).filterMap fun item =>
      (cutText ((str (field (rec (some item)) "text")).getD "") textLimit).map fun text =>
        { role := mapRole (str (field payload "role")), kind := .message, text := some text,
          toolName := none, toolCallId := none }
  else if ptype ∈ callTypes then
    let search := ptype = "web_search_call"
    let name := (str (field payload "name")).getD (if search then "web_search" else "tool")
    let text := if search then (str (field payload "query")).getD name else toolText l payload
    [{ role := .assistant, kind := .toolCall, text := cutText text textLimit, toolName := some name,
       toolCallId := (str (field payload "call_id")).or (str (field payload "id")) }]
  else if ptype ∈ outputTypes then
    [{ role := .tool, kind := .toolResult, text := cutText (outputText l payload) textLimit,
       toolName := none, toolCallId := str (field payload "call_id") }]
  else if ptype = "reasoning" then
    [{ role := .assistant, kind := .thinking, text := cutText (summaryText payload) textLimit,
       toolName := none, toolCallId := none }]
  else []

def parseArgs (payload : Option Json) : Option Json :=
  ((str (field payload "arguments")).bind nonEmpty).bind fun argsRaw => rec (l.parseJson argsRaw)

/-- The arguments of a call as they are shown. -/
def inputOf (payload : Option Json) (p : Pushed) (textLimit : Nat) : Option Units :=
  if p.kind = .toolCall ∧ str (field payload "type") = some "custom_tool_call" then
    some (clip (unitsOf ((str (field payload "input")).getD "")) textLimit)
  else if p.kind = .toolCall ∧ (p.toolCallId.bind nonEmpty).isSome then
    (parseArgs l payload).map fun args => clip (l.stringify args) textLimit
  else none

/-- The payload of a `response_item` record. -/
def responseItem (entry : Json) : Option Json :=
  if str (field (some entry) "type") = some "response_item" then
    rec (field (some entry) "payload")
  else none

def entryMessages (seq : Nat) (textLimit : Nat) (entry : Json) : List TranscriptMessage :=
  match responseItem entry with
  | none => []
  | some payload =>
    (fromPayload l (some payload) textLimit).zipIdx.map fun (p, key) =>
      { id := p.toolCallId.getD (toString seq) ++ ":" ++ toString key
        seq
        createdAt := str (field (some entry) "timestamp")
        role := p.role
        kind := p.kind
        text := p.text
        toolName := p.toolName
        toolCallId := p.toolCallId
        input := inputOf l (some payload) p textLimit
        resultText := none }

def entryResult (entry : Json) : Option (String × Units) := do
  let payload ← responseItem entry
  let callId ← ((str (field (some payload) "call_id")).or (str (field (some payload) "id"))).bind
    nonEmpty
  if (str (field (some payload) "type")).getD "" ∈ outputTypes then
    some (callId, unitsOf (outputText l (some payload)))
  else none

/-- The output of a message that is a call, the last one there is for its id. -/
def resultFor (results : List (String × Units)) (m : TranscriptMessage) : Option Units :=
  if m.kind = .toolCall then
    (m.toolCallId.bind nonEmpty).bind fun id => results.reverse.lookup id
  else none

/-- Each result is merged into the call it answers; a result whose call is not in the window is left
as it is. -/
def foldResults (messages : List TranscriptMessage) (results : List (String × Units))
    (textLimit : Nat) : List TranscriptMessage :=
  let folded := (messages.filter fun m => (resultFor results m).isSome).filterMap
    TranscriptMessage.toolCallId
  let merged := messages.map fun m =>
    match resultFor results m with
    | some content => { m with resultText := some (clip content textLimit) }
    | none => m
  merged.filter fun m => !(m.kind == .toolResult && m.toolCallId.any fun id => id ∈ folded)

/-- The JSON records among numbered lines. -/
def transcriptEntries (lines : List (String × Nat)) : List (Json × Nat) :=
  lines.filterMap fun line =>
    if l.isBlank line.1 then none else (rec (l.parseJson line.1)).map fun entry => (entry, line.2)

def codexParse (lines : List (String × Nat)) (textLimit : Nat) : List TranscriptMessage :=
  let entries := transcriptEntries l lines
  foldResults (entries.flatMap fun entry => entryMessages l entry.2 textLimit entry.1)
    (entries.filterMap fun entry => entryResult l entry.1) textLimit

variable {l} {textLimit : Nat}

variable {m : TranscriptMessage}

theorem entryMessages_seq {seq : Nat} {entry : Json} (h : m ∈ entryMessages l seq textLimit entry) :
    m.seq = seq := by
  unfold entryMessages at h
  cases hpayload : responseItem entry with
  | none => simp [hpayload] at h
  | some payload =>
    rw [hpayload] at h
    obtain ⟨place, _, rfl⟩ := List.mem_map.mp h
    rfl

theorem foldResults_seq {messages : List TranscriptMessage} {results : List (String × Units)}
    (h : m ∈ foldResults messages results textLimit) :
    ∃ old ∈ messages, old.seq = m.seq := by
  obtain ⟨old, hold, rfl⟩ := List.mem_map.mp (List.mem_of_mem_filter h)
  refine ⟨old, hold, ?_⟩
  cases resultFor results old <;> rfl

theorem transcriptEntries_seq {lines : List (String × Nat)} {entry : Json × Nat}
    (h : entry ∈ transcriptEntries l lines) : entry.2 ∈ lines.map Prod.snd := by
  obtain ⟨line, hline, hentry⟩ := List.mem_filterMap.mp h
  split at hentry
  · cases hentry
  · obtain ⟨json, _, rfl⟩ := Option.map_eq_some_iff.mp hentry
    exact List.mem_map_of_mem hline

variable (l) in
def codexParser : Parser String where
  parse lines := codexParse l lines searchTextLimit
  seq_mem lines m hm := by
    obtain ⟨old, hold, hseq⟩ := foldResults_seq hm
    obtain ⟨entry, hentry, hmessage⟩ := List.mem_flatMap.mp hold
    rw [← hseq, entryMessages_seq hmessage]
    exact transcriptEntries_seq hentry

end

/-! ### One message against a query -/

inductive SearchField where
  | text | input | output
  deriving DecidableEq, Repr

/-- `pattern.exec` from an index on; a match lies in the text, at or behind the index. -/
structure Pattern where
  exec : Units → Nat → Option (Nat × Nat)
  found : ∀ text start index length, exec text start = some (index, length) →
    start ≤ index ∧ index + length ≤ text.length

variable {pattern : Pattern} {text : Units} {start index length : Nat}

theorem Pattern.goes_on (h : pattern.exec text start = some (index, length)) :
    text.length + 1 - (if length = 0 then index + length + 1 else index + length) <
      text.length + 1 - start := by
  have hfound := pattern.found text start index length h
  split <;> omega

/-- Every match from an index on, as places and lengths; past an empty one the search goes on with
the next character. -/
def occurrences (pattern : Pattern) (text : Units) (start : Nat) : List (Nat × Nat) :=
  match hexec : pattern.exec text start with
  | none => []
  | some (index, length) =>
    (index, length) ::
      occurrences pattern text (if length = 0 then index + length + 1 else index + length)
termination_by text.length + 1 - start
decreasing_by exact pattern.goes_on hexec

theorem occurrences_some (h : pattern.exec text start = some (index, length)) :
    occurrences pattern text start = (index, length) ::
      occurrences pattern text (if length = 0 then index + length + 1 else index + length) := by
  rw [occurrences]
  split
  · rename_i hnone
    rw [h] at hnone
    cases hnone
  · rename_i hsome
    obtain ⟨rfl, rfl⟩ := Prod.mk.inj (Option.some.inj (h.symm.trans hsome))
    rfl

theorem occurrences_none (h : pattern.exec text start = none) :
    occurrences pattern text start = [] := by
  rw [occurrences]
  split
  · rfl
  · rename_i hsome
    rw [h] at hsome
    cases hsome

/-- The pattern of a fixed text (`-F`): its first place at or behind the index. -/
def literal (needle : Units) : Pattern where
  exec text start :=
    ((List.range (text.length + 1)).find? fun index =>
      decide (start ≤ index) && needle.isPrefixOf (text.drop index)).map
        fun index => (index, needle.length)
  found text start index length h := by
    obtain ⟨place, hplace, heq⟩ := Option.map_eq_some_iff.mp h
    obtain ⟨rfl, rfl⟩ := Prod.mk.inj heq
    have hmem := List.mem_range.mp (List.mem_of_find?_eq_some hplace)
    have htest := List.find?_some hplace
    rw [Bool.and_eq_true, decide_eq_true_eq, List.isPrefixOf_iff_prefix] at htest
    have hlength := htest.2.length_le
    rw [List.length_drop] at hlength
    exact ⟨htest.1, by omega⟩

structure Excerpt where
  before : Units
  found : Units
  after : Units
  deriving DecidableEq, Repr

/-- `CONTEXT_CHARS`. -/
def contextChars : Nat := 60

/-- `MATCH_CHARS`. -/
def matchChars : Nat := 120

/-- `\s`. -/
def isSpace (c : Nat) : Bool :=
  decide (c ∈ [0x09, 0x0A, 0x0B, 0x0C, 0x0D, 0x20, 0xA0, 0x1680, 0x2028, 0x2029, 0x202F, 0x205F,
    0x3000, 0xFEFF]) || decide (0x2000 ≤ c ∧ c ≤ 0x200A)

/-- Each run of white space as one blank. -/
def collapse : Units → Units
  | [] => []
  | c :: rest =>
    if isSpace c then
      match collapse rest with
      | 0x20 :: more => 0x20 :: more
      | more => 0x20 :: more
    else c :: collapse rest

def trimEnd (text : Units) : Units := (text.reverse.dropWhile isSpace).reverse

def excerptAt (text : Units) (index length : Nat) : Excerpt :=
  let start := index - contextChars
  let matched := (text.drop index).take (min length matchChars)
  let tail := index + matched.length
  let stop := min text.length (tail + contextChars)
  { before := (if 0 < start then [ellipsis] else []) ++
      (collapse ((text.take index).drop start)).dropWhile isSpace
    found := collapse matched ++ if matchChars < length then [ellipsis] else []
    after := trimEnd (collapse ((text.take stop).drop tail)) ++
      if stop < text.length then [ellipsis] else [] }

structure TranscriptMatch where
  seq : Nat
  id : String
  createdAt : Option String
  role : TranscriptRole
  kind : TranscriptKind
  toolName : Option String
  field : SearchField
  count : Nat
  excerpt : Excerpt
  deriving DecidableEq, Repr

structure TranscriptQuery where
  pattern : Pattern
  roles : Option (List TranscriptRole)
  kinds : Option (List TranscriptKind)
  from_ : Option Int
  to_ : Option Int
  tail : Option Int
  limit : Nat

section
variable (l : Language)

mutual

/-- The values of a call's arguments as the words they are. -/
def leaves : Json → List Units
  | .str text => [unitsOf text]
  | .num value => [unitsOf (l.numberText value)]
  | .bool value => [unitsOf (if value then "true" else "false")]
  | .arr items => itemLeaves items
  | .obj fields => fieldLeaves fields
  | .null => []

def itemLeaves : List Json → List Units
  | [] => []
  | item :: rest => leaves item ++ itemLeaves rest

def fieldLeaves : List (String × Json) → List Units
  | [] => []
  | (_, value) :: rest => leaves value ++ fieldLeaves rest

end

def inputText (input : Units) : Units :=
  match l.parseUnits input with
  | none => input
  | some value => ([10] : Units).intercalate (leaves l value)

def fieldOf (name : SearchField) (text : Option Units) : List (SearchField × Units) :=
  match text with
  | some (c :: rest) => [(name, c :: rest)]
  | _ => []

def fieldsOf (message : TranscriptMessage) : List (SearchField × Units) :=
  fieldOf .text message.text ++ (fieldOf .input message.input).map (Prod.map id (inputText l)) ++
    fieldOf .output message.resultText

def matchMessage (query : TranscriptQuery) (message : TranscriptMessage) :
    Option TranscriptMatch :=
  if (query.roles.any fun roles => !roles.contains message.role) ||
      query.kinds.any fun kinds => !kinds.contains message.kind then none
  else
    let found := (fieldsOf l message).flatMap fun (field, text) =>
      (occurrences query.pattern text 0).map fun place => (field, text, place)
    match found.head? with
    | none => none
    | some (field, text, index, length) => some {
        seq := message.seq
        id := message.id
        createdAt := message.createdAt
        role := message.role
        kind := message.kind
        toolName := message.toolName
        field
        count := found.length
        excerpt := excerptAt text index length }

variable {l}

end

end Ccmux.Context.MessageMatch
