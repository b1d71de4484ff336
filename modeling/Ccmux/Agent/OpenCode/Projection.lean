/- Module: Ccmux/Agent/OpenCode/Projection
   source: src/agent/opencode/projection.ts, src/agent/opencode/protocol.ts,
     src/runtime/permissionScope.ts, src/runtime/projectionSchema.ts
   digest: What one observer of an OpenCode session publishes, how events and calls of its owner
     change it, and how many bytes it takes. -/

import Ccmux.Agent.Codex.Projection
import Ccmux.Lib.JsonText

namespace Ccmux.Agent.OpenCode.Owned

open Ccmux.Agent.Codex.Owned (NativeState TurnStatus EventKind ItemKind ItemStage Decision)
open Ccmux.Lib.JsonText

/-! ### The snapshot -/

/-- The bound `append` keeps the serialised snapshot to. -/
def maxBytes : Nat := 112 * 1024

def maxEvents : Nat := 128

def maxNativeItems : Nat := 128

/-- How many requests may be open at once. -/
def maxPending : Nat := 4

/-- How many messages a projection keeps the parents of. -/
def maxParents : Nat := 256

def maxPrivateMessages : Nat := 256

/-- `startedAt` is the instant in milliseconds. -/
structure NativeTurn where
  id : String
  status : TurnStatus
  startedAt : Int
  deriving DecidableEq, Repr

structure NativeEvent where
  sequence : Nat
  kind : EventKind
  «at» : String
  state : NativeState
  turn : Option NativeTurn
  deriving DecidableEq, Repr

structure NativeUsage where
  totalTokens : Nat
  inputTokens : Nat
  outputTokens : Nat
  reasoningOutputTokens : Nat
  cachedInputTokens : Nat
  deriving DecidableEq, Repr

structure NativeItem where
  requestId : Option String := none
  status : Option String := none
  text : Option String := none
  tool : Option String := none
  usage : Option NativeUsage := none
  kind : ItemKind
  stage : ItemStage
  nativeId : String
  turnId : String
  sequence : Nat := 0
  «at» : String := ""
  deriving DecidableEq, Repr

structure Resources where
  patterns : List String
  omitted : Nat
  complete : Bool
  deriving DecidableEq, Repr

structure PermissionScope where
  operation : String
  requested : Resources
  session : Resources
  deriving DecidableEq, Repr

structure QuestionOption where
  label : String
  description : String
  deriving DecidableEq, Repr

/-- `isSecret` is always false. -/
structure NativeQuestion where
  id : String
  header : String
  question : String
  isOther : Bool
  multiple : Bool
  options : List QuestionOption
  deriving DecidableEq, Repr

/-- What is asked: leave to do something, or answers. -/
inductive Asked where
  | approval (permission : String) (scope : Option PermissionScope)
  | input (questions : List NativeQuestion)
  deriving DecidableEq, Repr

def Asked.kind : Asked → ItemKind
  | .approval _ _ => .approval
  | .input _ => .input

/-- The state of a session whose newest or oldest request this is. -/
def Asked.waiting : Asked → NativeState
  | .approval _ _ => .waitingApproval
  | .input _ => .waitingInput

def Asked.reason : Asked → Option String
  | .approval permission _ => some permission
  | .input _ => none

/-- `rpcId` is the request id again. -/
structure NativePendingRequest where
  requestId : String
  asked : Asked
  turnId : String
  itemId : String
  requestedAt : String
  deriving DecidableEq, Repr

structure NativeSelection where
  provider : String
  model : String
  turnId : String
  deriving DecidableEq, Repr

inductive PolicyState where
  | desired | applied | unavailable
  deriving DecidableEq, Repr

/-- The metadata of the policy by its digest, and as it is serialised. -/
structure PolicyEvidence where
  digest : String
  policy : String
  state : PolicyState
  reason : Option String
  deriving DecidableEq, Repr

/-- The fields no event writes, as they are serialised before and behind the sequence number. -/
structure Identity where
  nativeSessionId : String
  front : List String
  back : List String
  deriving DecidableEq, Repr

structure Snapshot where
  identity : Identity
  nativeSelection : Option NativeSelection := none
  sequence : Nat := 0
  connected : Bool := false
  state : NativeState := .unknown
  reason : Option String := some "starting"
  observedAt : String
  expiresAt : String
  turn : Option NativeTurn := none
  events : List NativeEvent := []
  nativeSequence : Nat := 0
  nativeItems : List NativeItem := []
  pendingRequests : List NativePendingRequest := []
  applicationPolicy : Option PolicyEvidence := none
  deriving DecidableEq, Repr

/-- The instants that are written, by the number of the record, `toISOString`, the two slices of a
text, and which pattern of a permission is shown. -/
structure Builtins where
  clock : Nat → String × String
  itemAt : Nat → String
  iso : Int → String
  slice : String → Nat → String
  sliceEnd : String → Nat → String
  isResource : String → Bool

/-! ### The serialised snapshot -/

def stateText : NativeState → String
  | .working => "working"
  | .idle => "idle"
  | .waitingApproval => "waiting-approval"
  | .waitingInput => "waiting-input"
  | .unknown => "unknown"

def eventKindText : EventKind → String
  | .state => "state"
  | .turnStart => "turn-start"
  | .turnEnd => "turn-end"
  | .unavailable => "unavailable"

def itemKindText : ItemKind → String
  | .user => "user"
  | .assistant => "assistant"
  | .reasoning => "reasoning"
  | .tool => "tool"
  | .approval => "approval"
  | .input => "input"
  | .usage => "usage"
  | .terminal => "terminal"

def stageText : ItemStage → String
  | .started => "started"
  | .completed => "completed"
  | .updated => "updated"
  | .requested => "requested"
  | .submitted => "submitted"
  | .resolved => "resolved"

def policyStateText : PolicyState → String
  | .desired => "desired"
  | .applied => "applied"
  | .unavailable => "unavailable"

def boolText (value : Bool) : String := if value then "true" else "false"

def orNull {α : Type} (text : α → String) : Option α → String
  | some value => text value
  | none => "null"

section
variable (b : Builtins)

def turnText (turn : NativeTurn) : String :=
  object [field "id" (quote turn.id), field "status" (quote turn.status.text),
    field "startedAt" (quote (b.iso turn.startedAt))]

def eventText (event : NativeEvent) : String :=
  object [field "sequence" (toString event.sequence), field "kind" (quote (eventKindText event.kind)),
    field "at" (quote event.at), field "state" (quote (stateText event.state)),
    field "turn" (orNull (turnText b) event.turn)]

def usageText (usage : NativeUsage) : String :=
  object [field "totalTokens" (toString usage.totalTokens),
    field "inputTokens" (toString usage.inputTokens),
    field "outputTokens" (toString usage.outputTokens),
    field "reasoningOutputTokens" (toString usage.reasoningOutputTokens),
    field "cachedInputTokens" (toString usage.cachedInputTokens)]

def itemText (item : NativeItem) : String :=
  object [field "requestId" (orNull quote item.requestId), field "status" (orNull quote item.status),
    field "text" (orNull quote item.text), field "tool" (orNull quote item.tool),
    field "usage" (orNull usageText item.usage), field "kind" (quote (itemKindText item.kind)),
    field "stage" (quote (stageText item.stage)), field "nativeId" (quote item.nativeId),
    field "turnId" (quote item.turnId), field "sequence" (toString item.sequence),
    field "at" (quote item.at)]

def resourcesText (r : Resources) : String :=
  object [field "patterns" (array (r.patterns.map quote)), field "omitted" (toString r.omitted),
    field "complete" (boolText r.complete)]

def scopeText (scope : PermissionScope) : String :=
  object [field "operation" (quote scope.operation), field "kind" (quote "filesystem-patterns"),
    field "requested" (resourcesText scope.requested), field "session" (resourcesText scope.session)]

def optionText (option : QuestionOption) : String :=
  object [field "label" (quote option.label), field "description" (quote option.description)]

def questionText (q : NativeQuestion) : String :=
  object [field "id" (quote q.id), field "header" (quote q.header), field "question" (quote q.question),
    field "isOther" (boolText q.isOther), field "isSecret" (boolText false),
    field "multiple" (boolText q.multiple), field "options" (array (q.options.map optionText))]

/-- Scope, decisions and questions of a request. -/
def askedTexts : Asked → String × String × String
  | .approval _ scope =>
    (orNull scopeText scope,
      array ([Decision.accept, .acceptForSession, .decline].map fun d => quote d.text), array [])
  | .input questions => ("null", array [], array (questions.map questionText))

def pendingText (r : NativePendingRequest) : String :=
  object [field "requestId" (quote r.requestId), field "rpcId" (quote r.requestId),
    field "kind" (quote (itemKindText r.asked.kind)), field "approvalKind" "null",
    field "turnId" (quote r.turnId), field "itemId" (quote r.itemId),
    field "reason" (orNull quote r.asked.reason), field "scope" (askedTexts r.asked).1,
    field "decisions" (askedTexts r.asked).2.1, field "questions" (askedTexts r.asked).2.2,
    field "requestedAt" (quote r.requestedAt)]

def selectionText (selection : NativeSelection) : String :=
  object [field "model" (object [field "provider" (quote selection.provider),
      field "model" (quote selection.model)]),
    field "options" "null", field "source" (quote "assistant"),
    field "turnId" (quote selection.turnId)]

def policyText (evidence : PolicyEvidence) : String :=
  object ([field "policy" evidence.policy, field "state" (quote (policyStateText evidence.state))] ++
    (evidence.reason.map fun reason => field "reason" (quote reason)).toList)

/-- A snapshot without a policy has no such field. -/
def policyFields (policy : Option PolicyEvidence) : List String :=
  (policy.map fun evidence => field "applicationPolicy" (policyText evidence)).toList

/-- `JSON.stringify(this.value)`. -/
@[grind =]
def snapshotText (v : Snapshot) : String :=
  object (v.identity.front ++
    field "nativeSelection" (orNull selectionText v.nativeSelection) ::
    field "sequence" (toString v.sequence) :: (v.identity.back ++
    field "connected" (boolText v.connected) :: field "state" (quote (stateText v.state)) ::
    field "reason" (orNull quote v.reason) :: field "observedAt" (quote v.observedAt) ::
    field "expiresAt" (quote v.expiresAt) :: field "turn" (orNull (turnText b) v.turn) ::
    field "events" (array (v.events.map (eventText b))) ::
    field "nativeSequence" (toString v.nativeSequence) ::
    field "nativeItems" (array (v.nativeItems.map itemText)) ::
    field "pendingRequests" (array (v.pendingRequests.map pendingText)) ::
    policyFields v.applicationPolicy))

/-- `Buffer.byteLength(JSON.stringify(this.value))`. -/
@[grind =]
def bytes (v : Snapshot) : Nat := byteLength (snapshotText b v)

/-! ### What the provider sends -/

inductive Status where
  | idle | busy | retry
  deriving DecidableEq, Repr

inductive Role where
  | user | assistant
  deriving DecidableEq, Repr

structure Tokens where
  total : Option Nat
  input : Nat
  output : Nat
  reasoning : Nat
  cacheRead : Nat
  cacheWrite : Nat
  deriving DecidableEq, Repr

/-- `completed` is whether the time of completion is known, `error` the name of the error, and
`summary` whether the field is `true`. -/
structure OpenCodeMessage where
  id : String
  sessionID : String
  role : Role
  parentID : Option String := none
  summary : Bool := false
  providerID : Option String := none
  modelID : Option String := none
  finish : Option String := none
  created : Int
  completed : Bool := false
  error : Option String := none
  tokens : Option Tokens := none
  deriving DecidableEq, Repr

inductive ToolStatus where
  | pending | running | completed | error
  deriving DecidableEq, Repr

def ToolStatus.text : ToolStatus → String
  | .pending => "pending"
  | .running => "running"
  | .completed => "completed"
  | .error => "error"

/-- `ended` is whether the end of the part is known. -/
structure OpenCodePart where
  id : String
  sessionID : String
  messageID : String
  type : String
  text : Option String := none
  synthetic : Bool := false
  ended : Bool := false
  tool : Option String := none
  callID : Option String := none
  status : Option ToolStatus := none
  deriving DecidableEq, Repr

structure OpenCodeDelta where
  sessionID : String
  messageID : String
  partID : String
  field : String
  delta : String
  deriving DecidableEq, Repr

structure ToolCall where
  messageID : String
  callID : String
  deriving DecidableEq, Repr

structure OpenCodePermission where
  id : String
  sessionID : String
  permission : String
  patterns : Option (List String) := none
  always : Option (List String) := none
  tool : Option ToolCall := none
  deriving DecidableEq, Repr

structure OpenCodeQuestionItem where
  header : String
  question : String
  custom : Option Bool
  multiple : Option Bool
  options : List QuestionOption
  deriving DecidableEq, Repr

structure OpenCodeQuestion where
  id : String
  sessionID : String
  questions : List OpenCodeQuestionItem
  tool : Option ToolCall := none
  deriving DecidableEq, Repr

/-- A tool step is not a turn; idleness is no completion. -/
def openCodeTerminal (m : OpenCodeMessage) : Option TurnStatus :=
  match m.role, m.error with
  | .user, _ => none
  | .assistant, some name => some (if name = "MessageAbortedError" then .interrupted else .failed)
  | .assistant, none =>
    if m.completed = false ∨ m.finish.getD "" = "" ∨
      m.finish.getD "" ∈ ["tool-calls", "unknown"] then none
    else some .completed

/-! ### The projection -/

/-- One observer epoch; the two maps are in the order of their entries. -/
structure Projection where
  value : Snapshot
  parents : List (String × String) := []
  privateMessages : List String := []
  revision : Nat := 0
  deriving DecidableEq, Repr

def Projection.own (p : Projection) (id : String) : Bool := id == p.value.identity.nativeSessionId

def parentOf (p : Projection) (messageID : String) : Option String :=
  (p.parents.find? fun entry => entry.1 == messageID).map Prod.snd

/-- `map.set(key, value)`. -/
def setParent (parents : List (String × String)) (key value : String) : List (String × String) :=
  if parents.any fun entry => entry.1 == key then
    parents.map fun entry => if entry.1 == key then (key, value) else entry
  else parents ++ [(key, value)]

def touchEvent (v : Snapshot) (kind : EventKind) : NativeEvent :=
  { sequence := v.sequence + 1, kind, «at» := (b.clock (v.sequence + 1)).1, state := v.state,
    turn := v.turn }

/-- `if (events.length > 128) events.shift()`. -/
def shiftEvents (events : List NativeEvent) : List NativeEvent :=
  if maxEvents < events.length then events.tail else events

def touchValue (v : Snapshot) (kind : EventKind) : Snapshot :=
  { v with
    sequence := v.sequence + 1
    observedAt := (b.clock (v.sequence + 1)).1
    expiresAt := (b.clock (v.sequence + 1)).2
    events := shiftEvents (v.events ++ [touchEvent b v kind]) }

def Projection.touch (p : Projection) (kind : EventKind) : Projection :=
  { p with value := touchValue b p.value kind }

/-- What a call has done but for the event it ends with; `thrown` is the error of the byte budget. -/
structure Outcome where
  projection : Projection
  last : Option EventKind := none
  thrown : Bool := false
  deriving DecidableEq, Repr

/-- The projection when the call is over; nothing is recorded behind the error. -/
def Outcome.settled (o : Outcome) : Projection :=
  if o.thrown then o.projection
  else
    match o.last with
    | some kind => o.projection.touch b kind
    | none => o.projection

/-- Goes on, unless the error was thrown. -/
def Outcome.next (o : Outcome) (f : Projection → Outcome) : Outcome :=
  if o.thrown then o else f (o.settled b)

/-- The oldest items are dropped until the snapshot fits; `none` if it does not without any. -/
def trim (v : Snapshot) : List NativeItem → Option (List NativeItem)
  | [] => if bytes b { v with nativeItems := [] } ≤ maxBytes then some [] else none
  | item :: rest =>
    if (item :: rest).length ≤ maxNativeItems ∧
        bytes b { v with nativeItems := item :: rest } ≤ maxBytes then some (item :: rest)
    else trim v rest

/-- `append`, up to the event it records. -/
def append (p : Projection) (item : NativeItem) : Outcome :=
  let sequence := p.value.nativeSequence + 1
  let v := { p.value with nativeSequence := sequence }
  match trim b v (v.nativeItems ++ [{ item with sequence, «at» := b.itemAt sequence }]) with
  | some nativeItems =>
    { projection := { p with value := { v with nativeItems } }, last := some .state }
  | none => { projection := { p with value := { v with nativeItems := [] } }, thrown := true }

def start (p : Projection) (messageId : String) («at» : Int) : Outcome :=
  let begun : Projection :=
    { p with
      parents := [(messageId, messageId)]
      privateMessages := []
      value := { p.value with
        turn := some { id := messageId, status := .inProgress, startedAt := «at» }
        state := .working } }
  (append b begun
    { kind := .user, stage := .started, nativeId := messageId, turnId := messageId }).next b
      fun p => { projection := p, last := some .turnStart }

def unavailable (p : Projection) (reason : String) : Outcome :=
  { projection := { p with value := { p.value with
      applicationPolicy := p.value.applicationPolicy.map fun evidence =>
        { evidence with state := .unavailable, reason := some reason }
      connected := false
      state := .unknown
      reason := some reason } }
    last := some .unavailable }

/-- The state for a status, given what is pending and the turn. -/
def statusState (v : Snapshot) (status : Status) : NativeState :=
  match v.pendingRequests with
  | pending :: _ => pending.asked.waiting
  | [] =>
    if status ≠ .idle then .working
    else if v.turn.any fun turn => turn.status = .inProgress then .unknown
    else .idle

@[grind =]
def status (p : Projection) (s : Status) (revision : Nat) : Outcome :=
  if revision ≠ p.revision then { projection := p }
  else
    let state := statusState p.value s
    { projection := { p with value := { p.value with
        connected := true
        state
        reason := if state = .unknown then some "awaiting-terminal-evidence" else none } }
      last := some .state }

def resolve (p : Projection) (requestId : String) : Outcome :=
  match p.value.pendingRequests.find? fun value => value.requestId == requestId with
  | none => { projection := p }
  | some request =>
    let settled : Projection :=
      { p with value := { p.value with
          pendingRequests := p.value.pendingRequests.filter fun value =>
            value.requestId ≠ requestId } }
    (append b settled
      { kind := request.asked.kind, stage := .resolved, nativeId := request.itemId,
        turnId := request.turnId, requestId := some requestId }).next b fun p =>
      status p (if p.value.turn.any fun turn => turn.status = .inProgress then .busy else .idle)
        p.revision

def pending (p : Projection) (request : NativePendingRequest) : Outcome :=
  if p.value.pendingRequests.any fun value => value.requestId == request.requestId then
    { projection := p }
  -- throws, with nothing written
  else if maxPending ≤ p.value.pendingRequests.length then { projection := p }
  else
    let asked : Projection :=
      { p with value := { p.value with
          pendingRequests := p.value.pendingRequests ++ [request]
          state := request.asked.waiting } }
    append b asked
      { kind := request.asked.kind, stage := .requested, nativeId := request.itemId,
        turnId := request.turnId, requestId := some request.requestId,
        text := request.asked.reason }

/-- The parent of an assistant message, the oldest forgotten first, and whether it is private. -/
def remember (p : Projection) (m : OpenCodeMessage) (parent : String) : Projection :=
  let kept :=
    if maxParents ≤ p.parents.length ∧ (parentOf p m.id).isNone then p.parents.tail else p.parents
  let shown := if m.id ∈ p.privateMessages then p.privateMessages else p.privateMessages ++ [m.id]
  { p with
    parents := setParent kept m.id parent
    privateMessages :=
      if m.summary then shown.drop (shown.length - maxPrivateMessages) else p.privateMessages }

/-- The model an assistant message names. -/
def selectionOf (m : OpenCodeMessage) (parent : String) : Option NativeSelection :=
  match m.providerID, m.modelID with
  | some provider, some model => some { provider, model, turnId := parent }
  | _, _ => none

def select (p : Projection) (m : OpenCodeMessage) (parent : String) : Projection :=
  { p with value := { p.value with
      nativeSelection := (selectionOf m parent).or p.value.nativeSelection } }

def usageItem (m : OpenCodeMessage) (parent : String) (tokens : Tokens) : NativeItem :=
  { kind := .usage, stage := .completed, nativeId := m.id, turnId := parent
    usage := some
      { totalTokens := tokens.total.getD
          (tokens.input + tokens.output + tokens.cacheRead + tokens.cacheWrite)
        inputTokens := tokens.input
        outputTokens := tokens.output
        reasoningOutputTokens := tokens.reasoning
        cachedInputTokens := tokens.cacheRead } }

/-- `for (const request of requests) this.resolve(request.requestId)`. -/
def resolveAll (o : Outcome) (requests : List NativePendingRequest) : Outcome :=
  requests.foldl (fun o request => o.next b fun p => resolve b p request.requestId) o

/-- The turn is over: its requests are settled, with no decision made up for them. -/
def endTurn (p : Projection) (parent : String) (outcome : TurnStatus) : Outcome :=
  let ended : Projection :=
    { p with value := { p.value with
        turn := p.value.turn.map fun turn => { turn with status := outcome } } }
  resolveAll b { projection := ended }
    (ended.value.pendingRequests.filter fun request => request.turnId == parent)

def conclude (p : Projection) (m : OpenCodeMessage) (parent : String) (outcome : TurnStatus) :
    Outcome :=
  (append b { p with value := { p.value with state := .idle } }
    { kind := .terminal, stage := .completed, nativeId := m.id, turnId := parent
      status := some outcome.text }).next b fun p =>
    { projection := p, last := some .turnEnd }

/-- What an assistant message does that ends its turn. -/
def terminal (p : Projection) (m : OpenCodeMessage) (parent : String) (outcome : TurnStatus) :
    Outcome :=
  let used : Outcome :=
    match m.tokens with
    | some tokens => append b p (usageItem m parent tokens)
    | none => { projection := p }
  (used.next b fun p => endTurn b p parent outcome).next b fun p => conclude b p m parent outcome

def messageStarts (p : Projection) (m : OpenCodeMessage) : Option String :=
  if p.own m.sessionID = false ∨ m.role ≠ .user then none
  else if p.value.turn.any fun turn => m.created < turn.startedAt then none
  else if p.value.turn.map NativeTurn.id = some m.id then none
  else some m.id

def message (p : Projection) (m : OpenCodeMessage) (complete : Bool) : Outcome :=
  if p.own m.sessionID = false then { projection := p }
  else
    match m.role with
    | .user =>
      match messageStarts p m with
      | some id => start b p id m.created
      | none => { projection := p }
    | .assistant =>
      match m.parentID, p.value.turn with
      | some parent, some turn =>
        if turn.id ≠ parent then { projection := p }
        else
          let known := select (remember p m parent) m parent
          match openCodeTerminal m with
          | some outcome =>
            if complete = false ∨ turn.status ≠ .inProgress then { projection := known }
            else terminal b known m parent outcome
          | none => { projection := known }
      | _, _ => { projection := p }

def partItem (turnId : String) (part : OpenCodePart) : Option NativeItem :=
  if part.type = "text" ∨ part.type = "reasoning" then
    some
      { kind := if part.messageID = turnId then .user
          else if part.type = "text" then .assistant else .reasoning
        stage := if part.ended then .completed else .updated
        nativeId := part.id, turnId
        text := part.text.map fun text => b.sliceEnd text 8192 }
  else if part.type = "tool" then
    match part.status, part.tool with
    | some status, some tool =>
      if tool = "" then none
      else
        some
          { kind := .tool
            stage := if status = .completed ∨ status = .error then .completed else .started
            nativeId := part.callID.getD part.id, turnId
            status := some status.text
            tool := some (b.slice tool 128)
            text := if status = .error then some "Native tool failed" else none }
    | _, _ => none
  else none

def part (p : Projection) (part : OpenCodePart) : Outcome :=
  match parentOf p part.messageID with
  | some turnId =>
    if p.own part.sessionID = false ∨ p.value.turn.map NativeTurn.id ≠ some turnId ∨
        part.synthetic = true ∨ part.messageID ∈ p.privateMessages then { projection := p }
    else
      match partItem b turnId part with
      | some item => append b p item
      | none => { projection := p }
  | none => { projection := p }

def delta (p : Projection) (d : OpenCodeDelta) : Outcome :=
  if p.own d.sessionID = false ∨ d.field ≠ "text" ∨ d.messageID ∈ p.privateMessages ∨
      parentOf p d.messageID ≠ p.value.turn.map NativeTurn.id then { projection := p }
  else
    let prior := p.value.nativeItems.reverse.find? fun item =>
      item.nativeId == d.partID && p.value.turn.map NativeTurn.id == some item.turnId
    match prior with
    | some item =>
      if item.kind ∈ [ItemKind.assistant, .reasoning, .user] then
        append b p { item with
          stage := .updated
          text := some (b.sliceEnd (item.text.getD "" ++ d.delta) 8192) }
      else { projection := p }
    | none => { projection := p }

/-- The running turn that a request belongs to. -/
def runningTurnOf (p : Projection) (sessionID : String) (tool : Option ToolCall) : Option String :=
  match p.value.turn with
  | some turn =>
    if p.own sessionID = false ∨ turn.status ≠ .inProgress then none
    else if tool.any fun call => parentOf p call.messageID ≠ some turn.id then none
    else some turn.id
  | none => none

/-- `resources(values)`. -/
def resources (values : Option (List String)) : Resources :=
  let shown := ((values.getD []).filter b.isResource).take 8
  let omitted := (values.getD []).length - shown.length
  { patterns := shown, omitted, complete := values.isSome && omitted == 0 }

def openCodePermissionScope (request : OpenCodePermission) : Option PermissionScope :=
  if request.permission ∈ ["external_directory", "read", "edit", "glob", "grep", "list"] then
    some
      { operation := request.permission
        requested := resources b request.patterns
        session := resources b request.always }
  else none

def permission (p : Projection) (request : OpenCodePermission) (requestedAt : String) : Outcome :=
  match runningTurnOf p request.sessionID request.tool with
  | some turnId =>
    pending b p
      { requestId := request.id
        asked := .approval request.permission (openCodePermissionScope b request)
        turnId
        itemId := (request.tool.map ToolCall.callID).getD request.id
        requestedAt }
  | none => { projection := p }

def questionOf (entry : OpenCodeQuestionItem × Nat) : NativeQuestion :=
  { id := toString entry.2
    header := entry.1.header
    question := entry.1.question
    isOther := entry.1.custom != some false
    multiple := entry.1.multiple == some true
    options := entry.1.options }

def question (p : Projection) (request : OpenCodeQuestion) (requestedAt : String) : Outcome :=
  match runningTurnOf p request.sessionID request.tool with
  | some turnId =>
    pending b p
      { requestId := request.id
        asked := .input (request.questions.zipIdx.map questionOf)
        turnId
        itemId := (request.tool.map ToolCall.callID).getD request.id
        requestedAt }
  | none => { projection := p }

/-- Replaces the evidence of the same policy; throws for another one, with nothing written. -/
def policyEvidence (p : Projection) (evidence : PolicyEvidence) : Outcome :=
  if p.value.applicationPolicy.map PolicyEvidence.digest = some evidence.digest then
    { projection := { p with value := { p.value with applicationPolicy := some evidence } } }
  else { projection := p }

/-- An event of the provider, parsed; `other` is of another type, or its parse throws. -/
inductive Event where
  | message (m : OpenCodeMessage)
  | part (part : OpenCodePart)
  | delta (d : OpenCodeDelta)
  | status (sessionID : String) (status : Status)
  | permission (request : OpenCodePermission) (requestedAt : String)
  | question (request : OpenCodeQuestion) (requestedAt : String)
  | replied (sessionID requestID : String)
  | other
  deriving DecidableEq, Repr

def event (p : Projection) (e : Event) : Outcome :=
  let p := { p with revision := p.revision + 1 }
  match e with
  | .message m => message b p m true
  | .part value => part b p value
  | .delta d => delta b p d
  | .status sessionID s =>
    if p.own sessionID then status p s p.revision else { projection := p }
  | .permission request requestedAt => permission b p request requestedAt
  | .question request requestedAt => question b p request requestedAt
  | .replied sessionID requestID =>
    if p.own sessionID then resolve b p requestID else { projection := p }
  | .other => { projection := p }

/-- An event, or a call of the owner of the projection. -/
inductive Input where
  | event (e : Event)
  | message (m : OpenCodeMessage) (complete : Bool)
  | part (part : OpenCodePart)
  | permission (request : OpenCodePermission) (requestedAt : String)
  | question (request : OpenCodeQuestion) (requestedAt : String)
  | status (status : Status) (revision : Nat)
  | start (messageId : String) («at» : Int)
  | resolve (requestId : String)
  | unavailable (reason : String)
  | policyEvidence (evidence : PolicyEvidence)
  deriving DecidableEq, Repr

def outcome (p : Projection) : Input → Outcome
  | .event e => event b p e
  | .message m complete => message b p m complete
  | .part value => part b p value
  | .permission request requestedAt => permission b p request requestedAt
  | .question request requestedAt => question b p request requestedAt
  | .status s revision => status p s revision
  | .start messageId instant => start b p messageId instant
  | .resolve requestId => resolve b p requestId
  | .unavailable reason => unavailable p reason
  | .policyEvidence evidence => policyEvidence p evidence

def step (p : Projection) (input : Input) : Projection := (outcome b p input).settled b

def run (p : Projection) (inputs : List Input) : Projection := inputs.foldl (step b) p

/-- `new OpenCodeProjection(m, session, providerPid)`. -/
def created (identity : Identity) (now : String) (policy : Option PolicyEvidence) : Projection :=
  { value := { identity, observedAt := now, expiresAt := now, applicationPolicy := policy } }

end

end Ccmux.Agent.OpenCode.Owned
