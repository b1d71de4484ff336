/- Module: Ccmux/Content/Buffer
   source: src/content/buffer.ts, src/content/schema.ts, src/content/toolSchema.ts,
     src/content/read.ts (contentFrame)
   digest: The bounded content of a session: a ring of records, a baseline, and the frame a reader
     gets. -/

import Ccmux.Content.Text

namespace Ccmux.Content.Buffer

open Ccmux.Lib.Utf16
open Ccmux.Content.Text

def contentReplayBytes : Nat := 192 * 1024

def contentBaselineBytes : Nat := 192 * 1024

def contentEventBytes : Nat := 4096

def contentItemBytes : Nat := 64 * 1024

def contentMaxRecords : Nat := 512

def contentMaxItems : Nat := 64

inductive Kind where
  | assistant | reasoningSummary | tool | usage | request | terminal
  deriving DecidableEq, Repr

inductive Operation where
  | append | replace | lifecycle
  deriving DecidableEq, Repr

inductive TextOperation where
  | append | replace
  deriving DecidableEq, Repr

def TextOperation.record : TextOperation → Operation
  | .append => .append
  | .replace => .replace

inductive ToolLifecycle where
  | pending | running | completed | unknown
  deriving DecidableEq, Repr

def ToolLifecycle.text : ToolLifecycle → String
  | .pending => "pending"
  | .running => "running"
  | .completed => "completed"
  | .unknown => "unknown"

inductive ToolOutcome where
  | unknown | succeeded | failed | interrupted | declined
  deriving DecidableEq, Repr

structure ToolObservation where
  callId : Option String
  name : Option String
  lifecycle : ToolLifecycle
  outcome : ToolOutcome
  exitCode : Option Int
  deriving DecidableEq, Repr

/-- `keyOf`: the item a record is about. -/
abbrev Key := Option String × String

structure ContentRecord where
  sequence : Nat := 0
  kind : Kind
  operation : Operation
  turnId : Option String
  itemId : String
  revision : Nat
  offsetBytes : Nat := 0
  prefixKnown : Bool := true
  text : Option Units
  totalBytes : Nat
  omittedBytes : Nat := 0
  complete : Bool
  status : Option String
  tool : Option ToolObservation
  deriving DecidableEq, Repr

def ContentRecord.key (record : ContentRecord) : Key := (record.turnId, record.itemId)

inductive Availability where
  | live | unavailable
  deriving DecidableEq, Repr

structure ContentSnapshot where
  generation : String
  sequence : Nat := 0
  droppedThrough : Nat := 0
  contextBoundary : Nat := 0
  omittedRecords : Nat := 0
  status : Availability := .live
  records : List ContentRecord := []
  baseline : List ContentRecord := []

/-- The sizes of the JSON texts that the limits are compared with. -/
structure Sizes where
  record : ContentRecord → Nat
  states : List ContentRecord → Nat

/-- The maps are lists in insertion order; a record stands under its own key. -/
structure ContentBuffer where
  revision : Nat := 0
  value : ContentSnapshot
  states : List ContentRecord := []
  pendingSurrogates : List (Key × Units) := []
  positions : List ContentRecord := []
  replayBytes : Nat := 0

def ContentBuffer.create (generation : String) : ContentBuffer := { value := { generation } }

def find (key : Key) (rows : List ContentRecord) : Option ContentRecord :=
  rows.find? fun row => row.key == key

/-- `delete` and `set`: the row moves to the end. -/
def put (rows : List ContentRecord) (row : ContentRecord) : List ContentRecord :=
  (rows.filter fun other => other.key != row.key) ++ [row]

def protectedItem (item : ContentRecord) : Bool :=
  item.kind == .request || item.kind == .terminal

structure Shed where
  records : List ContentRecord
  replayBytes : Nat
  droppedThrough : Nat
  omittedRecords : Nat

def noteOmitted (s : ContentBuffer) (records : Nat) : ContentBuffer :=
  { s with
    revision := if records ≠ 0 then s.revision + 1 else s.revision
    value := { s.value with omittedRecords := s.value.omittedRecords + records } }

def unavailable (s : ContentBuffer) : ContentBuffer :=
  { s with
    revision := if s.value.status ≠ .unavailable then s.revision + 1 else s.revision
    value := { s.value with status := .unavailable } }

def resetContext (s : ContentBuffer) : ContentBuffer :=
  { s with
    revision := s.revision + 1
    value := { s.value with
      sequence := s.value.sequence + 1
      contextBoundary := s.value.sequence + 1
      droppedThrough := s.value.sequence + 1
      omittedRecords := s.value.omittedRecords + s.value.records.length
      records := []
      baseline := [] }
    states := []
    pendingSurrogates := []
    positions := []
    replayBytes := 0 }

section
variable (z : Sizes)

/-- The loop of `push` that drops the oldest records. -/
def shedRecords : List ContentRecord → Nat → Nat → Nat → Shed
  | [], bytes, droppedThrough, omitted => ⟨[], bytes, droppedThrough, omitted⟩
  | removed :: rest, bytes, droppedThrough, omitted =>
    if contentMaxRecords < rest.length + 1 ∨ contentReplayBytes < bytes then
      shedRecords rest (bytes - (z.record removed + 1)) removed.sequence (omitted + 1)
    else ⟨removed :: rest, bytes, droppedThrough, omitted⟩

def push (s : ContentBuffer) (input : ContentRecord) : ContentBuffer × ContentRecord :=
  let record := { input with sequence := s.value.sequence + 1 }
  let shed := shedRecords z (s.value.records ++ [record]) (s.replayBytes + (z.record record + 1))
    s.value.droppedThrough s.value.omittedRecords
  ({ s with
      revision := s.revision + 1
      value := { s.value with
        sequence := s.value.sequence + 1
        records := shed.records
        droppedThrough := shed.droppedThrough
        omittedRecords := shed.omittedRecords }
      replayBytes := shed.replayBytes }, record)

/-- The loop of `boundStates`; each turn drops one item, so there are no more turns than items. -/
def dropStates : Nat → ContentBuffer → ContentBuffer
  | 0, s => s
  | turns + 1, s =>
    if contentMaxItems < s.states.length ∨ contentBaselineBytes < z.states s.states then
      match (s.states.find? fun item => !protectedItem item).or s.states.head? with
      | none => s
      | some candidate =>
        dropStates turns { s with
          states := s.states.filter fun item => item.key != candidate.key
          pendingSurrogates := s.pendingSurrogates.filter fun entry => entry.1 != candidate.key
          value := { s.value with omittedRecords := s.value.omittedRecords + 1 } }
    else s

def boundStates (s : ContentBuffer) : ContentBuffer :=
  let bounded := dropStates z s.states.length s
  { bounded with value := { bounded.value with baseline := bounded.states } }

/-- The last 256 items, without their texts. -/
def rememberPosition (s : ContentBuffer) (record : ContentRecord) : ContentBuffer :=
  let rows := put s.positions { record with text := none }
  { s with positions := rows.drop (rows.length - 256) }

/-- The records of one text operation; only the first one carries the operation itself. -/
def pushChunks (draft : ContentRecord) (complete : Bool) :
    List Units → TextOperation → Nat → ContentBuffer → ContentBuffer × Nat
  | [], _, offset, s => (s, offset)
  | chunk :: rest, operation, offset, s =>
    let total := offset + byteLength chunk
    let s := (push z s { draft with
      operation := operation.record
      offsetBytes := offset
      text := some chunk
      totalBytes := total
      complete := complete && rest.isEmpty }).1
    pushChunks draft complete rest .append total s

/-- What a late reader gets of a text whose last record this is. -/
def baselineItem (record : ContentRecord) (tail : Units) (offset : Nat)
    (prefixKnown complete : Bool) : ContentRecord :=
  let dropped := offset - byteLength tail
  { record with
    operation := .replace
    text := some tail
    offsetBytes := dropped
    totalBytes := offset
    omittedBytes := dropped
    prefixKnown := prefixKnown && dropped == 0
    complete := complete && prefixKnown && offset == byteLength tail }

/-- The second half of `text`: the records, the new baseline item and its position. -/
def writeText (s : ContentBuffer) (prior : Option ContentRecord) (kind : Kind)
    (turnId itemId : String) (text : Units) (operation : TextOperation) (complete : Bool) :
    ContentBuffer :=
  let revision := if operation = .replace then (prior.map ContentRecord.revision).getD 0 + 1
    else (prior.map ContentRecord.revision).getD 1
  let offset := if operation = .append then (prior.map ContentRecord.totalBytes).getD 0 else 0
  let prefixKnown := operation == .replace || offset == 0 || prior.any ContentRecord.prefixKnown
  let chunks := textChunks text contentEventBytes
  let draft : ContentRecord :=
    { kind, operation := operation.record, turnId := some turnId, itemId, revision, prefixKnown
      text := none, totalBytes := 0, complete, status := none, tool := none }
  let (s, offset) :=
    pushChunks z draft complete (if chunks = [] then [[]] else chunks) operation offset s
  let tail := (textTail
    (if operation = .append then (prior.bind ContentRecord.text).getD [] ++ text else text)
    contentItemBytes).text
  match s.value.records.getLast? with
  | none => s
  | some record =>
    let item := baselineItem record tail offset prefixKnown complete
    boundStates z (rememberPosition { s with states := put s.states item } { record with complete })

def text (s : ContentBuffer) (kind : Kind) (turnId itemId : String) (input : Units)
    (operation : TextOperation) (complete : Bool) : ContentBuffer × Option String :=
  let key : Key := (some turnId, itemId)
  let position := find key s.positions
  let prior := (find key s.states).or position
  if (position.any ContentRecord.complete || prior.any ContentRecord.complete) && !complete then
    (s, none)
  else
    let held := (s.pendingSurrogates.find? fun entry => entry.1 == key).map Prod.snd
    let whole := if operation = .append then held.getD [] ++ input else input
    let s := { s with
      pendingSurrogates := s.pendingSurrogates.filter fun entry => entry.1 != key }
    let withhold := !complete && endsHigh whole
    if withhold && decide (contentMaxItems ≤ s.pendingSurrogates.length) then
      (s, some "Native content partial-text window exceeded")
    else
      let s := if withhold then
          { s with pendingSurrogates :=
              s.pendingSurrogates ++ [(key, whole.drop (whole.length - 1))] }
        else s
      let text := if withhold then whole.dropLast else whole
      if operation == .replace && prior.any (fun row =>
          row.text == some text && row.complete == complete && row.omittedBytes == 0) then
        (s, none)
      else if text = [] ∧ complete = false ∧ operation = .append then (s, none)
      else (writeText z s prior kind turnId itemId text operation complete, none)

def lifecycle (s : ContentBuffer) (kind : Kind) (turnId : Option String) (itemId : String)
    (status : Option String) (text : Option Units) : ContentBuffer :=
  let previous := find (turnId, itemId) s.states
  if previous.any fun row =>
      decide (row.kind = kind ∧ row.status = status ∧ row.text = text) then s
  else
    let (s, record) := push z s
      { kind, operation := .lifecycle, turnId, itemId
        revision := (previous.map ContentRecord.revision).getD 0 + 1
        text
        totalBytes := (text.map byteLength).getD 0
        complete := kind == .terminal || status == some "completed" || status == some "resolved"
        status
        tool := none }
    boundStates z { s with states := put s.states record }

def tool (s : ContentBuffer) (turnId itemId : String) (observation : ToolObservation) :
    ContentBuffer × Option String :=
  let key : Key := (some turnId, itemId)
  let previous := (find key s.states).or (find key s.positions)
  let before := previous.bind ContentRecord.tool
  if before.any (fun row => row.lifecycle == .completed) && observation.lifecycle != .completed then
    (s, none)
  else
    let callId := before.bind ToolObservation.callId
    if callId.isSome && observation.callId.isSome && callId != observation.callId then
      (s, some "Native tool item changed call identity")
    else
      let tool : ToolObservation :=
        { callId := observation.callId.or callId
          name := observation.name.or (before.bind ToolObservation.name)
          lifecycle := observation.lifecycle
          outcome := if observation.outcome = .unknown then
              (before.map ToolObservation.outcome).getD .unknown
            else observation.outcome
          exitCode := observation.exitCode.or (before.bind ToolObservation.exitCode) }
      if before = some tool then (s, none)
      else
        let (s, record) := push z s
          { kind := .tool, operation := .lifecycle, turnId := some turnId, itemId
            revision := (previous.map ContentRecord.revision).getD 0 + 1
            text := none
            totalBytes := 0
            complete := tool.lifecycle == .completed
            status := some tool.lifecycle.text
            tool := some tool }
        (boundStates z (rememberPosition { s with states := put s.states record } record), none)

end

structure ContentCursor where
  generation : String
  sequence : Nat
  deriving DecidableEq, Repr

inductive Reset where
  | initial | gap | generation | context
  deriving DecidableEq, Repr

structure ContentRead where
  generation : String
  sequence : Nat
  omittedRecords : Nat
  status : Availability
  records : List ContentRecord
  baseline : List ContentRecord
  reset : Option Reset

def resetFor (snapshot : ContentSnapshot) : Option ContentCursor → Option Reset
  | none => some .initial
  | some cursor =>
    if cursor.generation ≠ snapshot.generation then some .generation
    else if cursor.sequence < snapshot.contextBoundary then some .context
    else if cursor.sequence < snapshot.droppedThrough ∨ snapshot.sequence < cursor.sequence then
      some .gap
    else none

def contentFrame (snapshot : ContentSnapshot) (cursor : Option ContentCursor) : ContentRead :=
  let reset := resetFor snapshot cursor
  { generation := snapshot.generation
    sequence := snapshot.sequence
    omittedRecords := snapshot.omittedRecords
    status := snapshot.status
    reset
    records := if reset = none then
        snapshot.records.filter fun item =>
          decide ((cursor.map ContentCursor.sequence).getD 0 < item.sequence)
      else []
    baseline := if reset = none then [] else snapshot.baseline }

end Ccmux.Content.Buffer
