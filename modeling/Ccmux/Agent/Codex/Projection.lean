/- Module: Ccmux/Agent/Codex/Projection
   source: src/agent/codex/owned/projection.ts, src/agent/codex/owned/native.ts,
     src/agent/codex/selectionEvidence.ts, src/external/turnState.ts
   digest: What a connection publishes of its thread, and how events and requests change it. -/

import Mathlib

namespace Ccmux.Agent.Codex.Owned

/-- `NATIVE_RUNTIME_MAX_EVENTS` and `NATIVE_RUNTIME_MAX_NATIVE_ITEMS`. -/
def maxEvents : Nat := 128

def maxNativeItems : Nat := 128

/-- The bound on the JSON text of the native items. -/
def maxItemsBytes : Nat := 64 * 1024

/-- How many requests stay on the open list. -/
def maxPending : Nat := 4

inductive NativeState where
  | working | idle | waitingApproval | waitingInput | unknown
  deriving DecidableEq, Repr

inductive TurnStatus where
  | inProgress | completed | interrupted | failed
  deriving DecidableEq, Repr

def TurnStatus.text : TurnStatus → String
  | .inProgress => "inProgress"
  | .completed => "completed"
  | .interrupted => "interrupted"
  | .failed => "failed"

/-- The instants are left out; `dated` is whether the turn has a start. -/
structure NativeTurn where
  id : String
  status : TurnStatus
  dated : Bool
  deriving DecidableEq, Repr

inductive EventKind where
  | state | turnStart | turnEnd | unavailable
  deriving DecidableEq, Repr

structure NativeEvent where
  sequence : Nat
  kind : EventKind
  state : NativeState
  turn : Option NativeTurn
  deriving DecidableEq, Repr

inductive ItemKind where
  | user | assistant | reasoning | tool | approval | input | usage | terminal
  deriving DecidableEq, Repr

inductive ItemStage where
  | started | completed | updated | requested | submitted | resolved
  deriving DecidableEq, Repr

structure NativeUsage where
  totalTokens : Nat
  inputTokens : Nat
  cachedInputTokens : Nat
  outputTokens : Nat
  reasoningOutputTokens : Nat
  deriving DecidableEq, Repr

structure NativeItem where
  sequence : Nat
  kind : ItemKind
  stage : ItemStage
  nativeId : String
  turnId : Option String
  requestId : Option String := none
  status : Option String := none
  text : Option String := none
  tool : Option String := none
  usage : Option NativeUsage := none
  deriving DecidableEq, Repr

/-- `value.slice(0, max)`, and the length of the JSON text of the items. -/
structure Builtins where
  slice : String → Nat → String
  itemsBytes : List NativeItem → Nat

inductive RpcId where
  | number (n : Int)
  | string (s : String)
  deriving DecidableEq, Repr

inductive Decision where
  | accept | acceptForSession | decline | cancel
  deriving DecidableEq, Repr

def Decision.text : Decision → String
  | .accept => "accept"
  | .acceptForSession => "acceptForSession"
  | .decline => "decline"
  | .cancel => "cancel"

inductive ApprovalKind where
  | command | file
  deriving DecidableEq, Repr

def ApprovalKind.text : ApprovalKind → String
  | .command => "command"
  | .file => "file"

structure QuestionOption where
  label : String
  description : String
  deriving DecidableEq, Repr

structure NativeQuestion where
  id : String
  header : String
  question : String
  isOther : Bool
  isSecret : Bool
  options : Option (List QuestionOption)
  deriving DecidableEq, Repr

/-- What is asked: leave to do something, or an answer. -/
inductive Asked where
  | approval (kind : ApprovalKind) (reason : Option String) (decisions : List Decision)
      (startedAtMs : Option Int)
  | input (questions : List NativeQuestion)
  deriving DecidableEq, Repr

structure NativePendingRequest where
  requestId : String
  rpcId : RpcId
  turnId : String
  itemId : String
  asked : Asked
  deriving DecidableEq, Repr

def Asked.kind : Asked → ItemKind
  | .approval _ _ _ _ => .approval
  | .input _ => .input

def Asked.reason : Asked → Option String
  | .approval _ reason _ _ => reason
  | .input _ => none

def Asked.tool : Asked → Option String
  | .approval kind _ _ _ => some kind.text
  | .input _ => none

/-- The state of a session that waits for the answer. -/
def Asked.waiting : Asked → NativeState
  | .approval _ _ _ _ => .waitingApproval
  | .input _ => .waitingInput

/-- A request of the provider, parsed; `other` is of another method or fails its schema. -/
inductive CodexRpcRequest where
  | approval (kind : ApprovalKind) (id : RpcId) (threadId turnId itemId : String)
      (reason : Option String) (startedAtMs : Option Int) (availableDecisions : List String)
  | userInput (id : RpcId) (threadId turnId itemId : String) (questions : List NativeQuestion)
  | other (id : RpcId)
  deriving DecidableEq, Repr

/-- `StatusSchema`; `unsupported` fails it. -/
inductive NativeStatus where
  | notLoaded | idle | systemError
  | active (waitingOnApproval waitingOnUserInput : Bool)
  | unsupported
  deriving DecidableEq, Repr

structure ItemPart where
  type : String
  text : Option String
  deriving DecidableEq, Repr

structure CodexItem where
  id : String
  type : String
  status : Option String := none
  text : Option String := none
  summary : Option (List String) := none
  content : Option (List ItemPart) := none
  deriving DecidableEq, Repr

structure NativeSelection where
  provider : String
  model : String
  options : Option (String × Option String)
  turnId : Option String
  deriving DecidableEq, Repr

/-- An event of the provider, parsed. A `delta` is streamed text; `unreadable` fails the schema of
a method that then ignores it, and `malformed` one of a method that throws. -/
inductive CodexRpcEvent where
  | settings (threadId provider model mode : String) (effort : Option String)
  | rerouted (threadId turnId toModel : String)
  | status (threadId : String) (status : NativeStatus)
  | turn (started : Bool) (threadId id : String) (status : TurnStatus)
  | item (started : Bool) (threadId turnId : String) (item : CodexItem)
  | tokenUsage (threadId turnId : String) (total : NativeUsage)
  | resolved (threadId : String) (requestId : RpcId)
  | delta (threadId text : String)
  | unreadable (method : String)
  | malformed (method : String)
  deriving DecidableEq, Repr

/-- The snapshot without its identity and leases. -/
structure Projection where
  threadId : String
  revision : Nat := 0
  connected : Bool := false
  state : NativeState := .unknown
  reason : Option String := some "starting"
  turn : Option NativeTurn := none
  sequence : Nat := 0
  events : List NativeEvent := []
  nativeSequence : Nat := 0
  nativeItems : List NativeItem := []
  pendingRequests : List NativePendingRequest := []
  submittedRequests : List NativePendingRequest := []
  nativeSelection : Option NativeSelection := none
  deriving DecidableEq, Repr

/-- `list.slice(-n)` -/
@[grind =]
def keepLast {α : Type} (n : Nat) (items : List α) : List α := items.drop (items.length - n)

@[grind =]
def Projection.append (p : Projection) (kind : EventKind) : Projection :=
  let event := { sequence := p.sequence + 1, kind, state := p.state, turn := p.turn }
  { p with sequence := p.sequence + 1, events := keepLast maxEvents (p.events ++ [event]) }

variable (b : Builtins)

/-- Items are shed from the front until the text fits; the last one always stays. -/
def shedItems : List NativeItem → List NativeItem
  | first :: second :: rest =>
    if maxItemsBytes < b.itemsBytes (first :: second :: rest) then shedItems (second :: rest)
    else first :: second :: rest
  | items => items

@[grind =]
def appendNative (p : Projection) (item : NativeItem) : Projection :=
  { p with
    nativeSequence := item.sequence
    nativeItems := shedItems b (keepLast maxNativeItems (p.nativeItems ++ [item])) }

def publicRequestId : RpcId → String
  | .number n => b.slice ("n:" ++ toString n) 256
  | .string s => b.slice ("s:" ++ s) 256

def joinLines (parts : List String) : String := String.intercalate "\n" parts

def itemOf (item : CodexItem) : ItemKind × Option String × Option String :=
  let clip (text : Option String) := text.map fun value => b.slice value 2048
  if item.type = "userMessage" then
    let parts := item.content.map fun content =>
      joinLines ((content.filter (·.type == "text")).map fun part => part.text.getD "")
    (.user, clip parts, none)
  else if item.type = "agentMessage" then (.assistant, clip item.text, none)
  else if item.type = "reasoning" ∨ item.type = "plan" then
    (.reasoning, clip (item.text.or (item.summary.map joinLines)), none)
  else (.tool, none, some (b.slice item.type 128))

@[grind =]
def projectNativeEvent (e : CodexRpcEvent) (threadId : String) (sequence : Nat) :
    Option NativeItem :=
  match e with
  | .item started id turnId item =>
    if id ≠ threadId then none
    else
      let (kind, text, tool) := itemOf b item
      some { sequence, kind, stage := if started then .started else .completed,
             nativeId := item.id, turnId := some turnId, status := item.status, text, tool }
  | .tokenUsage id turnId total =>
    if id ≠ threadId then none
    else
      some { sequence, kind := .usage, stage := .updated, nativeId := turnId,
             turnId := some turnId, usage := some total }
  | .turn false id turnId status =>
    if id ≠ threadId then none
    else
      some { sequence, kind := .terminal, stage := .completed, nativeId := turnId,
             turnId := some turnId, status := some (b.slice status.text 64) }
  | _ => none

def projectNativeRequest (request : CodexRpcRequest) (threadId : String) :
    Option NativePendingRequest :=
  match request with
  | .approval kind id thread turnId itemId reason startedAtMs availableDecisions =>
    if thread ≠ threadId then none
    else
      let decisions := [Decision.accept, .acceptForSession, .decline, .cancel].filter fun value =>
        availableDecisions.isEmpty || availableDecisions.contains value.text
      some { requestId := publicRequestId b id, rpcId := id, turnId, itemId,
             asked := .approval kind (reason.map fun value => b.slice value 2048) decisions
               startedAtMs }
  | .userInput id thread turnId itemId questions =>
    if thread ≠ threadId then none
    else
      let clipped := questions.map fun question =>
        { question with
          header := b.slice question.header 128
          question := b.slice question.question 1024
          options := question.options.map fun options =>
            (options.take 8).map fun option =>
              { label := b.slice option.label 128
                description := b.slice option.description 256 } }
      some { requestId := publicRequestId b id, rpcId := id, turnId, itemId,
             asked := .input clipped }
  | .other _ => none

def resolvedRequestId (e : CodexRpcEvent) (threadId : String) : Option String :=
  match e with
  | .resolved id requestId => if id = threadId then some (publicRequestId b requestId) else none
  | _ => none

/-- The state and the reason of a status. -/
def nativeTurnState : NativeStatus → NativeState × Option String
  | .notLoaded => (.unknown, some "not-loaded")
  | .systemError => (.unknown, some "system-error")
  | .unsupported => (.unknown, some "unsupported-status")
  | .idle => (.idle, none)
  | .active waitingOnApproval waitingOnUserInput =>
    (if waitingOnApproval then .waitingApproval
     else if waitingOnUserInput then .waitingInput else .working, none)

def applyStatus (p : Projection) (status : NativeStatus) : Projection :=
  let native := nativeTurnState status
  let changed := p.state ≠ native.1 ∨ p.reason ≠ native.2 ∨ p.connected = false
  let applied := { p with connected := true, state := native.1, reason := native.2 }
  if changed then applied.append .state else applied

/-- A status read of the thread; it is dropped where an event came first. -/
def reconcile (p : Projection) (status : NativeStatus) (revision : Nat) : Projection :=
  if revision ≠ p.revision then p else applyStatus p status

/-- The last turn of the thread as read; a start known for the same turn is kept. -/
def restoreTurn (p : Projection) (turn : Option NativeTurn) : Projection :=
  { p with turn := turn.map fun turn =>
      { turn with dated := turn.dated || p.turn.any fun known => known.id = turn.id && known.dated } }

def unavailable (p : Projection) (reason : String) : Projection :=
  let down : Projection :=
    { p with
      revision := p.revision + 1
      connected := false
      state := .unknown
      reason := some reason }
  down.append .unavailable

/-- `codexSelectionEvent`, with its throw left to `throws`. -/
@[grind =]
def codexSelectionEvent (e : CodexRpcEvent) (threadId : String)
    (previous : Option NativeSelection) : Option NativeSelection :=
  match e with
  | .settings id provider model mode effort =>
    if id ≠ threadId then none
    else some { provider, model, options := some (mode, effort), turnId := none }
  | .rerouted id turnId toModel =>
    if id ≠ threadId then none
    else previous.map fun selection =>
      { selection with model := toModel, options := none, turnId := some turnId }
  | _ => none

/-- The schema of a selection event throws where others are ignored. -/
def throws : CodexRpcEvent → Bool
  | .malformed _ => true
  | _ => false

/-- A turn event that the projection passes over. -/
def turnIgnored (p : Projection) (started : Bool) (threadId id : String) (status : TurnStatus) :
    Bool :=
  threadId ≠ p.threadId || (!started && p.turn.any fun turn => turn.id ≠ id) ||
    p.turn.any fun turn => turn.id = id ∧ turn.status = status

def applyTurn (p : Projection) (started : Bool) (id : String) (status : TurnStatus) : Projection :=
  let moved : Projection := { p with
    revision := p.revision + 1
    turn := some { id, status, dated := started || p.turn.any (·.dated) }
    connected := true
    state := if started then .working else if status = .failed then .unknown else .idle
    reason := if status = .failed then some "turn-failed" else none }
  moved.append (if started then .turnStart else .turnEnd)

def settleRequest (p : Projection) (pending : NativePendingRequest) (stage : ItemStage) :
    Projection :=
  let open_ := p.pendingRequests.filter fun item => item.requestId ≠ pending.requestId
  let settled := { p with
    pendingRequests := open_
    state := if open_.isEmpty ∧ p.turn.any (·.status = .inProgress) then .working else p.state }
  appendNative b settled
    { sequence := p.nativeSequence + 1, kind := pending.asked.kind, stage,
      nativeId := pending.itemId, turnId := some pending.turnId,
      requestId := some pending.requestId, tool := pending.asked.tool }

def findRequest (requests : List NativePendingRequest) (requestId : String) :
    Option NativePendingRequest :=
  requests.find? fun item => item.requestId == requestId

@[grind =]
def resolveRequest (p : Projection) (requestId : String) : Projection :=
  match (findRequest p.pendingRequests requestId).or (findRequest p.submittedRequests requestId) with
  | none => p
  | some pending =>
    settleRequest b
      { p with submittedRequests := p.submittedRequests.filter fun item =>
          item.requestId ≠ requestId } pending .resolved

/-- An answer of ours; the provider resolves the request afterwards. -/
@[grind =]
def submitRequest (p : Projection) (requestId : String) : Projection :=
  match findRequest p.pendingRequests requestId with
  | none => p
  | some pending =>
    settleRequest b
      { p with submittedRequests :=
          p.submittedRequests.filter (fun item => item.requestId ≠ requestId) ++ [pending] }
      pending .submitted

def event (p : Projection) (e : CodexRpcEvent) : Projection :=
  match codexSelectionEvent e p.threadId p.nativeSelection with
  | some selection => { p with nativeSelection := some selection }
  | none =>
    match e with
    | .status threadId status =>
      if threadId ≠ p.threadId then p
      else applyStatus { p with revision := p.revision + 1 } status
    | .turn started threadId id status =>
      if turnIgnored p started threadId id status then p
      else
        let applied := applyTurn p started id status
        match projectNativeEvent b e applied.threadId (applied.nativeSequence + 1) with
        | none => applied
        | some native => appendNative b applied native
    | .resolved _ _ =>
      match resolvedRequestId b e p.threadId with
      | none => p
      | some requestId => resolveRequest b p requestId
    | .item _ _ _ _ | .tokenUsage _ _ _ =>
      match projectNativeEvent b e p.threadId (p.nativeSequence + 1) with
      | none => p
      | some native => appendNative b p native
    | _ => p

/-- The request as the projection would take it, unless it is known already. -/
def accepted (p : Projection) (request : CodexRpcRequest) : Option NativePendingRequest :=
  (projectNativeRequest b request p.threadId).filter fun pending =>
    !(p.pendingRequests.any fun item => item.requestId = pending.requestId) &&
      !(p.submittedRequests.any fun item => item.requestId = pending.requestId)

def request (p : Projection) (r : CodexRpcRequest) : Projection :=
  match accepted b p r with
  | none => p
  | some pending =>
    appendNative b
      { p with
        pendingRequests := keepLast maxPending (p.pendingRequests ++ [pending])
        state := pending.asked.waiting }
      { sequence := p.nativeSequence + 1, kind := pending.asked.kind, stage := .requested,
        nativeId := pending.itemId, turnId := some pending.turnId,
        requestId := some pending.requestId, text := pending.asked.reason,
        tool := pending.asked.tool }

end Ccmux.Agent.Codex.Owned
