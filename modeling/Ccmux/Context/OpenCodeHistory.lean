/- Module: Ccmux/Context/OpenCodeHistory
   source: src/context/opencodeHistory.ts, src/context/opencode.ts (history),
     src/agent/opencode/toolObservation.ts, src/content/toolSchema.ts
   digest: The parts of an OpenCode session, newest first, under cursors that may point into a
     message. -/

import Ccmux.Context.CompleteHistory

namespace Ccmux.Context.OpenCodeHistory

open Ccmux.Chat.Message (AttachmentReference)
open Ccmux.Content.Buffer (ToolObservation ToolLifecycle ToolOutcome)
open Ccmux.Context.History
open Ccmux.Context.MessageMatch (EntryKind)
open Ccmux.Runtime.Mailbox (AppError)

/-! ### What the provider holds -/

inductive ToolStatus where
  | pending | running | completed | error
  deriving DecidableEq, Repr

/-- The state of a tool; an absent `exit` and a null one are the same to its readers. -/
structure ToolState where
  status : ToolStatus
  exit : Option Int := none
  interrupted : Bool := false
  timeout : Bool := false
  deriving DecidableEq, Repr

/-- `synthetic` is whether the field is `true`. -/
structure Part where
  id : String
  type : String
  text : Option String := none
  filename : Option String := none
  synthetic : Bool := false
  tool : Option String := none
  callID : Option String := none
  state : Option ToolState := none
  deriving DecidableEq, Repr

inductive Role where
  | user | assistant
  deriving DecidableEq, Repr

/-- `summary` is whether the field is `true`, `completed` and `error` whether they are there. -/
structure Info where
  id : String
  sessionID : String
  role : Role
  parentID : Option String := none
  summary : Bool := false
  completed : Bool := false
  error : Bool := false
  deriving DecidableEq, Repr

structure Message where
  info : Info
  parts : List Part
  deriving DecidableEq, Repr

abbrev Row := Info × Part

def Message.rows (m : Message) : List Row := m.parts.map fun part => (m.info, part)

/-- The history of a session, oldest message first; no two messages and no two parts share an id. -/
structure NativeHistory where
  sessionID : String
  messages : List Message
  owned : ∀ m ∈ messages, m.info.sessionID = sessionID
  messageIds : (messages.map fun m => m.info.id).Nodup
  partIds : ((messages.flatMap Message.rows).map fun row => row.2.id).Nodup

def NativeHistory.rows (h : NativeHistory) : List Row := h.messages.flatMap Message.rows

/-- `session.messages` of a provider: a page is the newest messages before its cursor, and the
header names the place where the page starts, unless that is the beginning. -/
structure Provider (h : NativeHistory) where
  page : Nat → Option String → List Message × Option String
  place : Option String → Nat
  place_none : place none = h.messages.length
  serves : ∀ limit before, 0 < limit → ∃ first, first ≤ place before ∧
    place before ≤ first + limit ∧ (0 < place before → first < place before) ∧
    (page limit before).1 = (h.messages.take (place before)).drop first ∧
    ((page limit before).2 = none → first = 0) ∧
    ∀ header, (page limit before).2 = some header → place (some header) = first
  ends : ∀ limit before, 0 < limit → place before = 0 → (page limit before).2 = none

/-! ### The reader -/

/-- The most parts of a message, and the most messages of a page or on a cursor. -/
def maxParts : Nat := 256

def maxMessages : Nat := 64

def maxHeader : Nat := 4096

def Part.valid (part : Part) : Bool := isId part.id && part.callID.all isId

/-- `MessageSchema` on what the types leave open. -/
def Message.valid (m : Message) : Bool :=
  isId m.info.id && isId m.info.sessionID && m.info.parentID.all isId && m.parts.all Part.valid &&
    decide (m.parts.length ≤ maxParts)

/-- A cursor: the provider's own, and what is left of messages it served already, each up to a
part. -/
structure PartsCursor where
  next : Option String
  pending : List (String × String)
  deriving DecidableEq, Repr

/-- `CursorSchema` -/
def PartsCursor.valid (c : PartsCursor) : Bool :=
  c.next.all (within maxHeader) && decide (c.pending.length ≤ maxMessages) &&
    c.pending.all fun mark => isId mark.1 && isId mark.2

def cursorStale : AppError :=
  ⟨"HISTORY_CURSOR", "Native history cursor is no longer current", 409⟩

def foreign : HistoryError := .thrown "Native history identity mismatch"

/-- What the client throws for a message the provider does not have. -/
def missing : HistoryError := .thrown "NotFoundError"

section
variable {h : NativeHistory} (p : Provider h) (codec : Codec PartsCursor)

/-- `messages`: a page and the header on it. -/
def messages (limit : Nat) (before : Option String) :
    Except HistoryError (List Message × Option String) :=
  let (items, header) := p.page limit before
  if ¬(items.length ≤ maxMessages ∧ items.all Message.valid) then .error (.refused .message)
  else if items.any fun m => m.info.sessionID != h.sessionID then .error foreign
  else if ¬header.all (within maxHeader) then .error (.refused .header)
  else .ok (items, header)

def readThrough (h : NativeHistory) (mark : String × String) : Except HistoryError Message :=
  match h.messages.find? fun m => m.info.id == mark.1 with
  | none => .error missing
  | some m =>
    if ¬m.valid then .error (.refused .message)
    else if m.info.sessionID ≠ h.sessionID then .error foreign
    else
      match m.parts.findIdx? fun part => part.id == mark.2 with
      | none => .error (.app cursorStale)
      | some last => .ok { m with parts := m.parts.take (last + 1) }

def countParts (items : List Message) : Nat := (items.map fun m => m.parts.length).sum

/-- The loop that reads messages back, eight at a time from the newest on, until there are parts
enough; `stop` marks are still unread, and the result keeps how many stay so. -/
def readBack (h : NativeHistory) (limit : Nat) (pending : List (String × String)) (stop count : Nat)
    (items : List Message) : Except HistoryError (List Message × Nat) :=
  if _hmore : 0 < stop ∧ count < limit then
    match ((pending.take stop).drop (stop - 8)).mapM (readThrough h) with
    | .error e => .error e
    | .ok batch => readBack h limit pending (stop - 8) (count + countParts batch) (batch ++ items)
  else .ok (items, stop)
termination_by stop

/-- The newest parts are delivered; of what is withheld of each message only its last part is
noted. -/
def deliver : Nat → List Message → List (String × String) × List Message
  | _, [] => ([], [])
  | remaining, m :: rest =>
    let count := min remaining m.parts.length
    let later := deliver (remaining - count) rest
    let through := if count = 0 then none else m.parts[count - 1]?
    let parts := m.parts.drop count
    ((through.map fun part => (m.info.id, part.id)).toList ++ later.1,
      if parts = [] then later.2 else { m with parts } :: later.2)

/-- What `parts` delivers of the messages it has, before the marks that stay unread. -/
def partsPage (limit : Nat) (items : List Message) (next : Option String)
    (unread : List (String × String)) : Except HistoryError (List Message × Option String) :=
  let delivered := deliver (countParts items - limit) items
  let cursor : PartsCursor := ⟨next, unread ++ delivered.1⟩
  if next = none ∧ cursor.pending = [] then .ok (delivered.2, none)
  else if cursor.valid then .ok (delivered.2, some (codec.encode cursor))
  else .error (.refused .partsCursor)

def parseCursor (text : String) : Except HistoryError PartsCursor :=
  match (codec.decode text).filter PartsCursor.valid with
  | some cursor => .ok cursor
  | none => .error (.app cursorStale)

def parts (limit : Nat) (cursor : Option String) :
    Except HistoryError (List Message × Option String) := do
  match cursor with
  | none =>
    let (items, next) ← messages p limit none
    partsPage codec limit items next []
  | some text =>
    let state ← parseCursor codec text
    if state.pending ≠ [] then
      let (items, stop) ← readBack h limit state.pending state.pending.length 0 []
      partsPage codec limit items state.next (state.pending.take stop)
    else if state.next = none then .error (.app cursorStale)
    else
      let (items, next) ← messages p limit state.next
      partsPage codec limit items next []

end

/-! ### The entries -/

/-- `observedToolName` -/
def observedToolName (name : Option String) : Option String := name.filter (within 128)

/-- Tool state metadata supplies exit and interruption evidence. -/
def openCodeToolObservation (part : Part) : ToolObservation :=
  let lifecycle : ToolLifecycle :=
    match part.state.map ToolState.status with
    | some .error | some .completed => .completed
    | some .pending => .pending
    | some .running => .running
    | none => .unknown
  let terminal := decide (lifecycle = .completed)
  let bash := decide (part.tool = some "bash")
  let exitCode := if terminal && bash then part.state.bind ToolState.exit else none
  let outcome : ToolOutcome :=
    if terminal then
      if part.state.any ToolState.interrupted then .interrupted
      else if part.state.any (fun state => state.status = .error) ||
          (bash && part.state.any ToolState.timeout) then .failed
      else
        match exitCode with
        | none => .unknown
        | some code => if code = 0 then .succeeded else .failed
    else .unknown
  { callId := part.callID, name := observedToolName part.tool, lifecycle, outcome, exitCode }

def toolHistoryStatus (tool : ToolObservation) : EntryStatus :=
  match tool.lifecycle with
  | .pending | .running => .inProgress
  | .completed => .completed
  | .unknown => .unknown

/-- `ATTACHMENT_LIMITS.imageBytes` -/
def imageBytes : Nat := 8 * 1024 * 1024

/-- A reference as its schema accepts it. -/
abbrev StoredReference := { reference : AttachmentReference // reference.bytes ≤ imageBytes }

/-- The entry of a part; `reference` is the image an attachment's name points to in the store. -/
def entryOf (reference : String → Option StoredReference) (row : Row) : NativeHistoryEntry :=
  let (info, part) := row
  let tool := if part.type = "tool" then some (openCodeToolObservation part) else none
  let internal := part.synthetic || info.summary
  let authored := decide (part.type = "text") && !internal
  let kind : EntryKind :=
    if part.type = "compaction" || info.summary then .compaction
    else if authored then (match info.role with | .user => .user | .assistant => .assistant)
    else if part.type = "tool" then .tool
    else .other
  let images :=
    if part.type = "file" then
      (part.filename.filter fun name => name ≠ "").toList.filterMap fun name =>
        (reference name).map Subtype.val
    else []
  { turnId := info.parentID.getD info.id
    itemId := part.id
    kind
    text := if authored then part.text else none
    omittedBytes :=
      if internal && decide (part.type = "text") then (part.text.getD "").utf8ByteSize else 0
    images
    omittedImages := if part.type = "file" && images.isEmpty then 1 else 0
    status :=
      match tool with
      | some tool => toolHistoryStatus tool
      | none =>
        if info.error then .failed
        else if info.completed || decide (info.role = .user) then .completed
        else .unknown
    tool }

/-- `history` of an OpenCode session. -/
def history {h : NativeHistory} (p : Provider h) (codec : Codec PartsCursor)
    (cursors : Codec HistoryCursor) (o : Owner) (reference : String → Option StoredReference)
    (limit : Nat) (cursor : Option String) : Except HistoryError NativeHistoryPage := do
  let (items, next) ← parts p codec limit (← historyCursor cursors o cursor)
  boundedHistoryPage cursors o ((items.flatMap Message.rows).map (entryOf reference)) next
    (if next = none then .complete else .more) 0

end Ccmux.Context.OpenCodeHistory
