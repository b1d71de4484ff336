/- Module: Ccmux/Transcript/Stats
   source: src/agent/claude/transcript.ts, src/agent/claude/content.ts, src/agent/codex/transcript.ts,
     src/agent/transcript/transcriptRead.ts (countStats)
   digest: The messages a batch of lines parses to, and the totals that are counted over them. -/

import Ccmux.Transcript.Normalize
import Ccmux.Usage.Normalize

namespace Ccmux.Transcript.Stats

open Ccmux.Transcript.Normalize
open Ccmux.Usage.Normalize (TranscriptRuntime)

inductive TranscriptRole where
  | user | assistant | tool | system | unknown
  deriving DecidableEq, Repr

inductive TranscriptKind where
  | message | toolCall | toolResult | thinking | image | event | unknown
  deriving DecidableEq, Repr

/-- What the fold and the counters read of a parsed message; `toolCallId` is that of a call or a
result. -/
structure TranscriptMessage where
  kind : TranscriptKind
  role : TranscriptRole
  toolCallId : Option String
  deriving DecidableEq, Repr

/-- What one record adds: messages, and the ids of the calls it has results for. -/
structure Parsed where
  messages : List TranscriptMessage
  results : List String
  deriving DecidableEq, Repr

namespace Claude

/-- The native message's original block positions. -/
def contentItems (entry : Json) : List Json :=
  match field (rec (field (some entry) "message")) "content" with
  | some (.arr blocks) => blocks
  | some (.str text) => [.obj [("type", .str "text"), ("text", .str text)]]
  | _ => []

def kindFor (item : Json) : TranscriptKind :=
  match (str (field (some item) "type")).getD "" with
  | "text" => .message
  | "tool_use" => .toolCall
  | "tool_result" => .toolResult
  | "thinking" => .thinking
  | "image" => .image
  | "" => .unknown
  | _ => .event

def roleFor (entry item : Json) : TranscriptRole :=
  if str (field (some item) "type") = some "tool_result" then .tool
  else
    match (str (field (rec (field (some entry) "message")) "role")).or
      (str (field (some entry) "type")) with
    | some "user" => .user
    | some "assistant" => .assistant
    | some "system" => .system
    | _ => .unknown

/-- The first of the named texts of a call's input. -/
def inputText (input : Option Json) : Option String :=
  ["description", "command", "file_path", "pattern", "query", "url", "prompt"].findSome? fun key =>
    str (field input key)

def textFor (b : Builtins) (item : Json) : String :=
  match (str (field (some item) "type")).getD "" with
  | "text" => (str (field (some item) "text")).getD ""
  | "tool_use" =>
    let input := rec (field (some item) "input")
    let question := rec ((Normalize.items (field input "questions")).head?)
    ((((inputText input).or (str (field question "question"))).or (flattenContent b input)).or
      (str (field (some item) "name"))).getD ""
  | "tool_result" => (flattenContent b (field (some item) "content")).getD ""
  | "thinking" => (str (field (some item) "thinking")).getD ""
  | "image" => ""
  | _ => (flattenContent b (some item)).getD ""

/-- A call and an image are kept as they are, anything else only with a text. -/
def keeps (b : Builtins) (item : Json) : Bool :=
  kindFor item == .toolCall || kindFor item == .image || textFor b item != ""

def callIdOf (item : Json) : Option String :=
  (str (field (some item) "id")).or (str (field (some item) "tool_use_id"))

/-- The messages of one record, one for each content block that is kept. -/
def parseEntry (b : Builtins) (entry : Json) : Parsed :=
  let blocks := (contentItems entry).filterMap fun item => rec (some item)
  { messages := (blocks.filter (keeps b)).map fun item =>
      ⟨kindFor item, roleFor entry item, callIdOf item⟩
    results := (blocks.filter fun item => kindFor item == .toolResult).filterMap fun item =>
      (callIdOf item).bind nonEmpty }

end Claude

namespace Codex

def callTypes : List String :=
  ["function_call", "custom_tool_call", "local_shell_call", "web_search_call"]

def outputTypes : List String :=
  ["function_call_output", "custom_tool_call_output", "local_shell_call_output"]

def mapRole : Option String → TranscriptRole
  | some "user" => .user
  | some "assistant" => .assistant
  | some "system" => .system
  | some "developer" => .system
  | _ => .unknown

/-- One `response_item` payload as messages. -/
def fromPayload (payload : Option Json) : List TranscriptMessage :=
  let kind := (str (field payload "type")).getD ""
  if kind = "message" then
    (Normalize.items (field payload "content")).filterMap fun item =>
      ((str (field (rec (some item)) "text")).bind nonEmpty).map fun _ =>
        ⟨.message, mapRole (str (field payload "role")), none⟩
  else if kind ∈ callTypes then
    [⟨.toolCall, .assistant, (str (field payload "call_id")).or (str (field payload "id"))⟩]
  else if kind ∈ outputTypes then [⟨.toolResult, .tool, str (field payload "call_id")⟩]
  else if kind = "reasoning" then [⟨.thinking, .assistant, none⟩]
  else []

def parseEntry (entry : Json) : Parsed :=
  let payload := rec (field (some entry) "payload")
  if str (field (some entry) "type") = some "response_item" ∧ payload.isSome then
    let callId := (str (field payload "call_id")).or (str (field payload "id"))
    { messages := fromPayload payload
      results :=
        if (str (field payload "type")).getD "" ∈ outputTypes then
          (callId.bind nonEmpty).toList
        else [] }
  else ⟨[], []⟩

end Codex

def parseEntry (b : Builtins) : TranscriptRuntime → Json → Parsed
  | .claude => Claude.parseEntry b
  | .codex => Codex.parseEntry

/-- A result whose call is in the window is merged into the call. -/
def foldResults (messages : List TranscriptMessage) (results : List String) :
    List TranscriptMessage :=
  let folded := (messages.filter fun m => m.kind == .toolCall).filterMap fun m =>
    m.toolCallId.bind fun id => if id ∈ results then some id else none
  messages.filter fun m => !(m.kind == .toolResult && m.toolCallId.any fun id => id ∈ folded)

def parse (b : Builtins) (runtime : TranscriptRuntime) (lines : List String) :
    List TranscriptMessage :=
  let parsed := (transcriptEntries b lines).map (parseEntry b runtime)
  foldResults (parsed.flatMap Parsed.messages) (parsed.flatMap Parsed.results)

structure TranscriptStats where
  messages : Nat
  user : Nat
  assistant : Nat
  toolCalls : Nat
  thinking : Nat
  deriving DecidableEq, Repr

def emptyStats : TranscriptStats := ⟨0, 0, 0, 0, 0⟩

def TranscriptStats.add (stats added : TranscriptStats) : TranscriptStats :=
  ⟨stats.messages + added.messages, stats.user + added.user, stats.assistant + added.assistant,
    stats.toolCalls + added.toolCalls, stats.thinking + added.thinking⟩

def isMessageOf (role : TranscriptRole) (m : TranscriptMessage) : Bool :=
  m.kind == .message && m.role == role

def isKind (kind : TranscriptKind) (m : TranscriptMessage) : Bool := m.kind == kind

def tally (messages : List TranscriptMessage) : TranscriptStats :=
  let user := messages.countP (isMessageOf .user)
  let assistant := messages.countP (isMessageOf .assistant)
  ⟨user + assistant, user, assistant, messages.countP (isKind .toolCall),
    messages.countP (isKind .thinking)⟩

/-- What a batch of lines adds to the totals. -/
def countStats (b : Builtins) (runtime : TranscriptRuntime) (lines : List String) :
    TranscriptStats :=
  tally (parse b runtime lines)

theorem tally_append (messages more : List TranscriptMessage) :
    tally (messages ++ more) = (tally messages).add (tally more) := by
  simp only [tally, TranscriptStats.add, List.countP_append]
  congr 1
  omega

/-- Folding drops results only, which no total counts. -/
theorem tally_foldResults (messages : List TranscriptMessage) (results : List String) :
    tally (foldResults messages results) = tally messages := by
  have hcount (p : TranscriptMessage → Bool) (hp : ∀ m, p m = true → m.kind ≠ .toolResult) :
      (foldResults messages results).countP p = messages.countP p := by
    unfold foldResults
    rw [List.countP_filter]
    apply List.countP_congr
    intro m _
    constructor
    · intro hboth
      exact (Bool.and_eq_true _ _ ▸ hboth).1
    · intro hm
      have hkind := hp m hm
      simp [hm, hkind]
  have hmessage (role : TranscriptRole) (m : TranscriptMessage) (h : isMessageOf role m = true) :
      m.kind ≠ .toolResult := by
    intro hkind
    simp [isMessageOf, hkind] at h
  unfold tally
  rw [hcount _ (hmessage .user), hcount _ (hmessage .assistant)]
  rw [hcount (isKind .toolCall), hcount (isKind .thinking)]
  · intro m h hkind
    simp [isKind, hkind] at h
  · intro m h hkind
    simp [isKind, hkind] at h

theorem countStats_append (b : Builtins) (runtime : TranscriptRuntime) (lines more : List String) :
    countStats b runtime (lines ++ more) =
      (countStats b runtime lines).add (countStats b runtime more) := by
  unfold countStats parse
  rw [tally_foldResults, tally_foldResults, tally_foldResults, transcriptEntries_append]
  rw [List.map_append, List.flatMap_append, tally_append]

theorem TranscriptStats.add_assoc (a b c : TranscriptStats) : (a.add b).add c = a.add (b.add c) := by
  simp only [TranscriptStats.add, Nat.add_assoc]

theorem TranscriptStats.add_empty (a : TranscriptStats) : a.add emptyStats = a := rfl

end Ccmux.Transcript.Stats
