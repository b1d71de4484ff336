/- Module: Ccmux/Runtime/Mailbox
   source: src/runtime/mailbox.ts, src/runtime/interrupt.ts, src/runtime/sessionMode.ts,
     src/runtime/mcpControl.ts, src/runtime/rewind.ts, src/agent/claude/native/mailboxes.ts
   digest: A durable request to the process that holds a session's runtime, and its four mailboxes. -/

import Ccmux.Runtime.Input

namespace Ccmux.Runtime.Mailbox

open Ccmux.Runtime.Input (NativeTurn RuntimeState)

structure AppError where
  code : String
  message : String
  status : Nat
  deriving DecidableEq, Repr

inductive PermissionMode where
  | default | plan | acceptEdits | bypassPermissions
  deriving DecidableEq, Repr

structure McpServer where
  name : String
  status : String
  deriving DecidableEq, Repr

/-- The part of a live runtime's published status that the mailboxes read. -/
structure ManagedRuntimeSnapshot where
  generation : String
  state : RuntimeState := .idle
  turn : Option NativeTurn := none
  permissionMode : Option PermissionMode := none
  fileCheckpoints : Option Bool := none
  mcpServers : Option (List McpServer) := none
  deriving DecidableEq, Repr

/-- What a request of the mailbox has come to. -/
inductive Settled (Result : Type) where
  | result (value : Result)
  | error (e : AppError)
  | undefined
  deriving DecidableEq, Repr

/-- What differs between two mailboxes; a receipt names its operation and its conversation. -/
structure MailboxDefinition (Receipt Result : Type) where
  identity : Receipt → String
  generation : Receipt → String
  precondition : ManagedRuntimeSnapshot → Option AppError
  settle : Receipt → Option ManagedRuntimeSnapshot → Settled Result
  mismatch : AppError

def runtimeUnavailable : AppError :=
  ⟨"UNAVAILABLE", "The native runtime is unavailable", 503⟩

def notAnswered : AppError :=
  ⟨"UNAVAILABLE", "The runtime did not answer the request", 503⟩

/-- Where a request stands: its command is on the way to the file, or it looks for its receipt. -/
inductive Point (Receipt Result : Type) where
  | writing (receipt : Receipt) (generation : String)
  | waiting (generation : String)
  | done (result : Result)
  | refused (e : AppError)
  deriving DecidableEq, Repr

section
variable {Receipt Result : Type} (d : MailboxDefinition Receipt Result)

/-- The stored receipt is this operation's, of this conversation. -/
def isMine (operationId generation : String) (receipt : Receipt) : Bool :=
  d.identity receipt == operationId && d.generation receipt == generation

/-- `request` up to its write; `status` is the live snapshot, or none. -/
def beginRequest (status : Option ManagedRuntimeSnapshot) (prior : Option Receipt)
    (operationId : String)
    (compose : String → ManagedRuntimeSnapshot → Except AppError Receipt) :
    Point Receipt Result :=
  match status with
  | none => .refused runtimeUnavailable
  | some live =>
    match d.precondition live with
    | some e => .refused e
    | none =>
      match prior.filter (isMine d operationId live.generation) with
      | some mine =>
        match d.settle mine status with
        | .result value => .done value
        | .error e => .refused e
        | .undefined => .waiting live.generation
      | none =>
        match compose live.generation live with
        | .error e => .refused e
        | .ok receipt => .writing receipt live.generation

/-- One pass of the loop that waits for the receipt. -/
def lookForReceipt (status : Option ManagedRuntimeSnapshot) (current : Option Receipt)
    (operationId generation : String) : Point Receipt Result :=
  match current.filter (isMine d operationId generation) with
  | none => .refused d.mismatch
  | some receipt =>
    match d.settle receipt status with
    | .result value => .done value
    | .error e => .refused e
    | .undefined => .waiting generation

/-- What the owner knows of its running turn when it takes a command. -/
structure Projection where
  state : RuntimeState
  turn : Option NativeTurn
  deriving DecidableEq, Repr

def turnRuns (p : Projection) : Bool := p.turn.any fun turn => turn.status == .inProgress

/-- The owner's half of a mailbox: which commands it takes, when it may act on one, what it writes
before it acts, in place of acting, and afterwards. -/
structure OwnerSide (Outcome : Type) where
  takes : Receipt → Bool
  mayAct : String → Receipt → Projection → Bool
  announced : Receipt → Option Receipt
  declined : Receipt → Option Receipt
  settled : Receipt → Outcome → Receipt
  generation_eq : ∀ g r p, mayAct g r p = true → d.generation r = g
  exists_turn : ∀ g r, d.generation r = g → ∃ p, mayAct g r p = true
  announced_identity : ∀ r s, announced r = some s → d.identity s = d.identity r
  declined_takes : ∀ r s, declined r = some s → takes s = false
  settled_takes : ∀ r o, takes (settled r o) = false

end

/-! The interrupt mailbox. -/

inductive InterruptPhase where
  | queued | uncertain | accepted | rejected
  deriving DecidableEq, Repr

structure RuntimeInterrupt where
  turnId : String
  generation : String
  phase : InterruptPhase
  deriving DecidableEq, Repr

def isCancellableTurn (snapshotGeneration : String) (p : Projection)
    (generation turnId : String) : Bool :=
  snapshotGeneration == generation &&
    (p.turn.any fun turn => turn.id == turnId && turn.status == .inProgress) &&
    [RuntimeState.working, .waitingApproval, .waitingInput].contains p.state

def interruptMailbox : MailboxDefinition RuntimeInterrupt Unit where
  identity r := r.turnId
  generation r := r.generation
  precondition _ := none
  settle r _ :=
    match r.phase with
    | .rejected => .error ⟨"TURN_MISMATCH", "Native turn changed", 409⟩
    | .accepted => .result ()
    | .queued | .uncertain => .undefined
  mismatch := ⟨"TURN_MISMATCH", "Interrupt identity changed", 409⟩

inductive Delivered where
  | accepted | rejected
  deriving DecidableEq, Repr

/-- `applyInterrupt`: the phase `uncertain` is written first and taken again. -/
def applyInterrupt : OwnerSide interruptMailbox Delivered where
  takes r := r.phase == .queued || r.phase == .uncertain
  mayAct g r p := isCancellableTurn g p r.generation r.turnId
  announced r := some { r with phase := .uncertain }
  declined r := some { r with phase := .rejected }
  settled r o :=
    match o with
    | .accepted => { r with phase := .accepted }
    | .rejected => { r with phase := .rejected }
  generation_eq g r p h := by
    simp only [isCancellableTurn, Bool.and_eq_true, beq_iff_eq] at h
    exact h.1.1.symm
  exists_turn g r h := by
    refine ⟨⟨.working, some ⟨r.turnId, .inProgress⟩⟩, ?_⟩
    have hgen : g = r.generation := h.symm
    simp [isCancellableTurn, hgen]
  announced_identity r s h := by
    obtain rfl := Option.some.inj h
    rfl
  declined_takes r s h := by
    obtain rfl := Option.some.inj h
    rfl
  settled_takes r o := by cases o <;> rfl

/-! The other three settle into "done" or "refused", and their owner acts between turns or at once. -/

inductive RequestPhase where
  | queued | complete | failed
  deriving DecidableEq, Repr

structure RuntimeModeRequest where
  operationId : String
  generation : String
  mode : PermissionMode
  phase : RequestPhase
  reason : Option String := none
  deriving DecidableEq, Repr

def modeMailbox : MailboxDefinition RuntimeModeRequest PermissionMode where
  identity r := r.operationId
  generation r := r.generation
  precondition _ := none
  settle r snapshot :=
    match r.phase with
    | .failed => .error ⟨"UNSUPPORTED", r.reason.getD "The runtime refused this mode", 409⟩
    | .queued => .undefined
    | .complete =>
      -- The published mode, not the request, proves that the setting took.
      if (snapshot.bind fun s => s.permissionMode) = some r.mode then .result r.mode
      else .undefined
  mismatch := ⟨"IDENTITY_MISMATCH", "The conversation changed while setting its mode", 409⟩

inductive McpAction where
  | enable | disable | reconnect
  deriving DecidableEq, Repr

structure RuntimeMcpRequest where
  operationId : String
  generation : String
  server : String
  action : McpAction
  phase : RequestPhase
  reason : Option String := none
  deriving DecidableEq, Repr

def mcpMailbox : MailboxDefinition RuntimeMcpRequest McpServer where
  identity r := r.operationId
  generation r := r.generation
  precondition snapshot :=
    if snapshot.mcpServers.isNone then
      some ⟨"UNSUPPORTED", "This runtime does not report its MCP servers", 409⟩
    else none
  settle r snapshot :=
    match r.phase with
    | .failed => .error ⟨"UNAVAILABLE", r.reason.getD "The runtime refused", 503⟩
    | .queued => .undefined
    | .complete =>
      let servers := (snapshot.bind fun s => s.mcpServers).getD []
      let found := servers.find? fun server => server.name == r.server
      .result ⟨r.server, (found.map fun server => server.status).getD "unknown"⟩
  mismatch := ⟨"IDENTITY_MISMATCH", "The MCP request was replaced", 409⟩

/-- What a rewind did; its counts are read by nobody here. -/
structure RewindResult where
  canRewind : Bool
  error : Option String
  filesChanged : List String
  insertions : Option Nat
  deletions : Option Nat
  skippedLinks : Option Nat
  deriving DecidableEq, Repr

structure RuntimeRewindRequest where
  operationId : String
  generation : String
  messageId : String
  dryRun : Bool
  phase : RequestPhase
  result : Option RewindResult := none
  reason : Option String := none
  deriving DecidableEq, Repr

def rewindMailbox : MailboxDefinition RuntimeRewindRequest RewindResult where
  identity r := r.operationId
  generation r := r.generation
  precondition snapshot :=
    if snapshot.fileCheckpoints = some true then none
    else some ⟨"UNSUPPORTED", "This session does not keep file checkpoints", 409⟩
  settle r _ :=
    match r.phase with
    | .failed => .error ⟨"UNAVAILABLE", r.reason.getD "The rewind failed", 503⟩
    | .queued => .undefined
    | .complete =>
      match r.result with
      | some result => .result result
      | none => .undefined
  mismatch := ⟨"IDENTITY_MISMATCH", "The rewind request was replaced", 409⟩

def composeMode (operationId : String) (mode : PermissionMode) (generation : String)
    (_ : ManagedRuntimeSnapshot) : Except AppError RuntimeModeRequest :=
  .ok { operationId, generation, mode, phase := .queued }

def composeMcp (operationId server : String) (action : McpAction) (generation : String)
    (snapshot : ManagedRuntimeSnapshot) : Except AppError RuntimeMcpRequest :=
  if (snapshot.mcpServers.getD []).any fun item => item.name == server then
    .ok { operationId, generation, server, action, phase := .queued }
  else .error ⟨"UNSUPPORTED", "This session has no such MCP server", 409⟩

def composeRewind (operationId messageId : String) (dryRun : Bool) (generation : String)
    (_ : ManagedRuntimeSnapshot) : Except AppError RuntimeRewindRequest :=
  .ok { operationId, generation, messageId, dryRun, phase := .queued }

def composeInterrupt (turnId : String) (generation : String) (_ : ManagedRuntimeSnapshot) :
    Except AppError RuntimeInterrupt :=
  .ok { turnId, generation, phase := .queued }

section
variable {Receipt Result Outcome : Type}

/-- The owner's half that leaves a command alone until it may act, and writes nothing first. -/
def applyRequest (d : MailboxDefinition Receipt Result) (phase : Receipt → RequestPhase)
    (betweenTurns : Bool) (settled : Receipt → Outcome → Receipt)
    (hphase : ∀ r o, phase (settled r o) ≠ .queued) : OwnerSide d Outcome where
  takes r := phase r == .queued
  mayAct g r p := d.generation r == g && !(betweenTurns && turnRuns p)
  announced _ := none
  declined _ := none
  settled := settled
  generation_eq g r p h := by
    simp only [Bool.and_eq_true, beq_iff_eq] at h
    exact h.1
  exists_turn g r h := by
    refine ⟨⟨.idle, none⟩, ?_⟩
    simp [turnRuns, h]
  announced_identity r s h := by cases h
  declined_takes r s h := by cases h
  settled_takes r o := by simpa using hphase r o

end

/-- `applyMode` acts between turns only; the outcome says whether the runtime took the mode. -/
def applyMode : OwnerSide modeMailbox Bool :=
  applyRequest modeMailbox (fun r => r.phase) true
    (fun r took =>
      if took then { r with phase := .complete, reason := none }
      else { r with phase := .failed, reason := some "The runtime refused this permission mode" })
    (by intro r o; cases o <;> simp)

def applyMcpRequest : OwnerSide mcpMailbox Bool :=
  applyRequest mcpMailbox (fun r => r.phase) false
    (fun r took =>
      if took then { r with phase := .complete }
      else { r with phase := .failed, reason := some "The runtime refused this MCP operation" })
    (by intro r o; cases o <;> simp)

/-- `applyRewind` acts between turns only; no outcome is a rewind that threw. -/
def applyRewind : OwnerSide rewindMailbox (Option RewindResult) :=
  applyRequest rewindMailbox (fun r => r.phase) true
    (fun r outcome =>
      match outcome with
      | some result => { r with phase := .complete, result := some result }
      | none =>
        { r with phase := .failed, reason := some "The runtime could not rewind these files" })
    (by intro r o; cases o <;> simp)

end Ccmux.Runtime.Mailbox
