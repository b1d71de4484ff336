/- Module: Ccmux/Session/Sleep
   source: src/session/sleep/operations.ts, src/session/sleep/store.ts, src/session/sleep/proof.ts,
     src/session/sleep/wakeStore.ts, src/runtime/admission.ts, src/runtime/lease.ts,
     src/session/heal.ts
   digest: Sleeping and waking one registered session, between its owner, the daemon and callers. -/

import Ccmux.Lib.Machine
import Ccmux.Runtime.Mailbox

namespace Ccmux.Session.Sleep

open Ccmux.Lib.Machine
open Ccmux.Runtime.Mailbox (AppError)

structure ProcessIdentity where
  pid : Nat
  startTime : String
  deriving DecidableEq, Repr

inductive Phase where
  | requested | sleeping | waking | awake
  deriving DecidableEq, Repr

def Phase.rank : Phase → Nat
  | .requested => 0
  | .sleeping => 1
  | .waking => 2
  | .awake => 3

/-- The facts that are hashed: those of the processes, and everything else. -/
structure Revision where
  facts : String
  processes : List ProcessIdentity
  deriving DecidableEq, Repr

structure IdleProof where
  revision : Revision
  reason : Option String
  processes : List ProcessIdentity
  deriving DecidableEq, Repr

def IdleProof.eligible (proof : IdleProof) : Bool := proof.reason.isNone

structure SleepRecord where
  operationId : String
  proof : IdleProof
  phase : Phase
  deriving DecidableEq, Repr

inductive ReceiptState where
  | sleeping | awake | unchanged
  deriving DecidableEq, Repr

inductive Release where
  | processReleased | unsupported
  deriving DecidableEq, Repr

structure SleepReceipt where
  operationId : String
  state : ReceiptState
  release : Release
  nativeId : String
  duplicate : Bool
  deriving DecidableEq, Repr

structure WakeOperation where
  operationId : String
  sleepOperationId : String
  result : Option SleepReceipt
  deriving DecidableEq, Repr

/-- A process of the machine: the owner of the session, one of its tree or group, or another. -/
structure Process where
  identity : ProcessIdentity
  owner : Bool
  member : Bool
  deriving DecidableEq, Repr

/-- The status that an owner published and whose lease has not expired, with its writer. -/
structure Snapshot where
  writer : ProcessIdentity
  providerPid : Nat
  deriving DecidableEq, Repr

/-- What a wake saw of the status: its writer, and the process that has the pid now. -/
structure Sighting where
  writer : ProcessIdentity
  alive : Option ProcessIdentity
  deriving DecidableEq, Repr

structure Acknowledgement where
  operationId : String
  sighting : Sighting
  deriving DecidableEq, Repr

/-- The files and processes of one registered session, and the histories of its processes, of the
rows and phases that were written, of the owners started for a wake and of the acknowledgements. -/
structure Host where
  nativeId : String
  releasable : Bool
  delegationStopped : Bool
  sleep : Option SleepRecord
  table : List Process
  snapshot : Option Snapshot
  seen : List ProcessIdentity
  log : List (String × Phase)
  rows : List SleepRecord
  started : List (ProcessIdentity × String)
  acknowledged : List Acknowledgement
  deriving DecidableEq, Repr

inductive Request where
  | sleep (operationId : String) (revision : Revision)
  | wake (operationId : String)
  | message
  deriving DecidableEq, Repr

/-- Where a caller stands. A wake holds the id that it is bound to, and the row that it read. -/
inductive Point where
  | writing (row : SleepRecord)
  | releasing (row : SleepRecord) (duplicate : Bool)
  | settling (row : SleepRecord) (duplicate : Bool)
  | reading (expected : Option String)
  | waiting (expected : Option String) (row : SleepRecord)
  | entering (expected : Option String) (row : SleepRecord)
  | launching (expected : Option String) (row : SleepRecord)
  | watching (expected : Option String) (row : SleepRecord)
  | acknowledging (expected : Option String) (row : SleepRecord) (sighting : Sighting)
  | recording (expected : String)
  | done (answer : Except AppError (Option SleepReceipt))
  deriving DecidableEq

structure Caller where
  request : Request
  point : Point
  deriving DecidableEq

structure World where
  host : Host
  wakes : List WakeOperation
  callers : List Caller
  deriving DecidableEq

inductive Act where
  | write
  | poll
  | settle
  | read
  | enter
  | launch (identity : ProcessIdentity)
  | see
  | acknowledge
  | record
  | abort
  deriving DecidableEq

inductive Event where
  | sleep (operationId : String) (revision : Revision) (facts : String) (reason : Option String)
  | wake (operationId : String)
  | messageWake
  | act (i : Nat) (act : Act)
  | starts (identity : ProcessIdentity)
  | spawns (identity : ProcessIdentity) (member : Bool)
  | exits (identity : ProcessIdentity)
  | publishes (providerPid : Nat)
  | expires
  | endsDelegation

def startHost (nativeId : String) (releasable : Bool) : Host :=
  ⟨nativeId, releasable, false, none, [], none, [], [], [], [], []⟩

def startWorld (nativeId : String) (releasable : Bool) : World :=
  ⟨startHost nativeId releasable, [], []⟩

/-! The refusals. -/

def payloadChanged : AppError := ⟨"IDEMPOTENCY_CONFLICT", "Sleep request payload changed", 409⟩

def followedByWake : AppError := ⟨"SLEEP_SUPERSEDED", "Sleep operation was followed by wake", 409⟩

def sleepPending : AppError := ⟨"SLEEP_PENDING", "A sleep operation is already pending", 409⟩

def proofChanged : AppError := ⟨"REVISION_CONFLICT", "Idle proof changed", 409⟩

def notIdle (reason : Option String) : AppError :=
  ⟨"NOT_IDLE", reason.getD "Idle proof unavailable", 409⟩

def followedByAnother : AppError :=
  ⟨"SLEEP_SUPERSEDED", "Sleep was followed by another lifecycle operation", 409⟩

def delegationEnded : AppError := ⟨"DELEGATION_REFUSED", "Delegated work has ended", 409⟩

def addressSuperseded : AppError :=
  ⟨"SLEEP_SUPERSEDED", "The sleep addressed by this wake has been superseded", 409⟩

def changedBeforeStart : AppError :=
  ⟨"SLEEP_SUPERSEDED", "Sleep changed before executor start", 409⟩

def changedBeforeAcknowledgement : AppError :=
  ⟨"SLEEP_SUPERSEDED", "Sleep changed before wake acknowledgement", 409⟩

def notSleeping : AppError := ⟨"NOT_SLEEPING", "Session has no sleep receipt", 409⟩

def wakeCapacity : AppError := ⟨"WAKE_CAPACITY", "Wake receipt capacity reached", 409⟩

def wakeChanged : AppError := ⟨"SLEEP_SUPERSEDED", "Wake sleep identity changed", 409⟩

def wakePending : AppError :=
  ⟨"WAKE_PENDING", "Native continuation has not acknowledged wake; retry", 409⟩

/-! What is read of the host. -/

section
variable (h : Host)

def Host.identities : List ProcessIdentity := h.table.map fun process => process.identity

def Host.pids : List Nat := h.table.map fun process => process.identity.pid

def SleepRecord.pids (row : SleepRecord) : List Nat :=
  row.proof.processes.map fun held => held.pid

/-- `processesReleased`, where the processes can be listed. -/
def processesReleased (row : SleepRecord) : Bool :=
  row.proof.processes.all fun held => !h.identities.contains held

def sleepBlocksStart : Bool :=
  h.sleep.any fun row => row.phase != .awake && row.phase != .waking

/-- Read by the owner itself, of its own pid. -/
def ownerShouldSleep (pid : Nat) : Bool :=
  h.sleep.any fun row => row.phase == .requested && row.pids.contains pid

def Host.hasOwner : Bool := h.table.any fun process => process.owner

/-- `readRuntimeLease`: the pids of the snapshot answer a signal. -/
def Host.live : Bool :=
  h.snapshot.any fun snapshot =>
    h.pids.contains snapshot.writer.pid && h.pids.contains snapshot.providerPid

def Host.owned : Bool :=
  h.live && h.snapshot.any fun snapshot =>
    h.table.any fun process =>
      process.owner && process.member && process.identity.pid == snapshot.writer.pid

/-- `idleProof`; `facts` and `reason` stand for everything that is not about processes. -/
def idleProof (facts : String) (reason : Option String) : IdleProof :=
  let processes := (h.table.filter fun process => process.member).map fun process =>
    process.identity
  { revision := ⟨facts, processes⟩
    reason :=
      if !h.releasable then some "unsupported"
      else if h.delegationStopped then some "delegation-ended"
      else if !h.owned then some "owner-unavailable"
      else reason
    processes }

/-- `receipt`. -/
def receipt (operationId : String) (state : ReceiptState) (duplicate : Bool) : SleepReceipt :=
  ⟨operationId, state, .processReleased, h.nativeId, duplicate⟩

/-- The receipt of a session whose processes cannot be released. -/
def unsupported (operationId : String) : SleepReceipt :=
  ⟨operationId, .unchanged, .unsupported, h.nativeId, false⟩

/-- The slot is free or awake, and the request is judged by the idle proof. -/
def sleepAnew (operationId : String) (revision : Revision) (proof : IdleProof) : Point :=
  if proof.revision ≠ revision then .done (.error proofChanged)
  else if !h.releasable then .done (.ok (some (unsupported h operationId)))
  else if !proof.eligible then .done (.error (notIdle proof.reason))
  else .writing ⟨operationId, proof, .requested⟩

/-- The first admission of `sleepSession`, up to its write. -/
def admitSleep (operationId : String) (revision : Revision) (proof : IdleProof) : Point :=
  match h.sleep with
  | none => sleepAnew h operationId revision proof
  | some prior =>
    if prior.operationId = operationId then
      if prior.proof.revision ≠ revision then .done (.error payloadChanged)
      else if prior.phase = .awake ∨ prior.phase = .waking then .done (.error followedByWake)
      else .releasing prior true
    else if prior.phase ≠ .awake then .done (.error sleepPending)
    else sleepAnew h operationId revision proof

/-- The admission of `wakeSession`: the journal afterwards, and where the caller stands. -/
def admitWake (wakes : List WakeOperation) (operationId : String) : List WakeOperation × Point :=
  match h.sleep with
  | none => (wakes, .done (.error notSleeping))
  | some row =>
    match wakes.find? fun record => record.operationId == operationId with
    | some prior =>
      match prior.result with
      | some result => (wakes, .done (.ok (some { result with duplicate := true })))
      | none =>
        if prior.sleepOperationId ≠ row.operationId then (wakes, .done (.error addressSuperseded))
        else (wakes, .reading (some row.operationId))
    | none =>
      if wakes.length ≥ 256 then (wakes, .done (.error wakeCapacity))
      else (wakes ++ [⟨operationId, row.operationId, none⟩], .reading (some row.operationId))

/-- `writeSleep` of a phase of the row in the slot. -/
def Host.writePhase (row : SleepRecord) (phase : Phase) : Host :=
  { h with
    sleep := some { row with phase }
    log := h.log ++ [(row.operationId, phase)] }

/-- `writeSleep` of a new row. -/
def Host.writeRow (row : SleepRecord) : Host :=
  { h with
    sleep := some row
    log := h.log ++ [(row.operationId, row.phase)]
    rows := h.rows ++ [row] }

/-- The operation that an owner which starts now is started for. -/
def Host.wakesFor : Option String :=
  (h.sleep.filter fun row => row.phase == .waking).map fun row => row.operationId

def Host.appear (process : Process) : Host :=
  { h with
    table := h.table ++ [process]
    seen := h.seen ++ [process.identity] }

def Host.startOwner (identity : ProcessIdentity) : Host :=
  { h.appear ⟨identity, true, true⟩ with
    started := h.started ++ h.wakesFor.toList.map fun operationId => (identity, operationId) }

/-- The identity is new, and no process has its pid. -/
def Host.fresh (identity : ProcessIdentity) : Bool :=
  !h.seen.contains identity && !h.pids.contains identity.pid

def Host.sighting (snapshot : Snapshot) : Sighting :=
  ⟨snapshot.writer, (h.table.find? fun process =>
    process.identity.pid == snapshot.writer.pid).map fun process => process.identity⟩

end

/-- The caller has returned from `wakeSleepingSession`. -/
def returned : Option String → Point
  | some expected => .recording expected
  | none => .done (.ok none)

/-- The admission lock is held from this point to the next. -/
def Point.locked : Point → Bool
  | .writing _ => true
  | .launching _ _ => true
  | _ => false

def Act.locks : Act → Bool
  | .settle => true
  | .enter => true
  | .acknowledge => true
  | .record => true
  | _ => false

def World.busy (w : World) : Bool := w.callers.any fun caller => caller.point.locked

/-- The second admission of `sleepSession`. -/
def settle (h : Host) (row : SleepRecord) (duplicate : Bool) : Host × Point :=
  match h.sleep with
  | none => (h, .done (.error followedByAnother))
  | some current =>
    if current.operationId ≠ row.operationId ∨
        (current.phase ≠ .requested ∧ current.phase ≠ .sleeping) then
      (h, .done (.error followedByAnother))
    else
      (if current.phase = .requested then h.writePhase current .sleeping else h,
        .done (.ok (some (receipt h row.operationId .sleeping duplicate))))

/-- `wakeSleepingSessionWithinBudget` up to its first wait. -/
def readRow (h : Host) (expected : Option String) : Point :=
  if h.delegationStopped then .done (.error delegationEnded)
  else if expected.isSome ∧ h.sleep.map (fun row => row.operationId) ≠ expected then
    .done (.error addressSuperseded)
  else
    match h.sleep with
    | none => returned expected
    | some row => if row.phase = .awake then returned expected else .waiting expected row

def enter (h : Host) (expected : Option String) (row : SleepRecord) : Host × Point :=
  if h.delegationStopped then (h, .done (.error delegationEnded))
  else
    match h.sleep with
    | none => (h, .done (.error changedBeforeStart))
    | some current =>
      if current.operationId ≠ row.operationId then (h, .done (.error changedBeforeStart))
      else if current.phase = .awake then (h, .watching expected row)
      else (h.writePhase current .waking, .launching expected row)

/-- `startSession`: nothing where the session runs. -/
def launch (h : Host) (identity : ProcessIdentity) : Option Host :=
  if h.hasOwner then some h
  else if h.fresh identity then some (h.startOwner identity)
  else none

def see (h : Host) (expected : Option String) (row : SleepRecord) : Point :=
  match h.snapshot with
  | none => .watching expected row
  | some snapshot =>
    if h.live && !row.pids.contains snapshot.writer.pid then
      .acknowledging expected row (h.sighting snapshot)
    else .watching expected row

/-- The admission that acknowledges the wake. -/
def acknowledge (h : Host) (expected : Option String) (row : SleepRecord) (sighting : Sighting) :
    Host × Point :=
  match h.sleep with
  | none => (h, .done (.error changedBeforeAcknowledgement))
  | some current =>
    if current.operationId ≠ row.operationId then (h, .done (.error changedBeforeAcknowledgement))
    else if current.phase = .waking then
      ({ h.writePhase current .awake with
          acknowledged := h.acknowledged ++ [⟨current.operationId, sighting⟩] },
        returned expected)
    else (h, returned expected)

/-- The last admission of `wakeSession`. -/
def record (h : Host) (wakes : List WakeOperation) (operationId expected : String) :
    List WakeOperation × Point :=
  if h.sleep.map (fun row => row.operationId) ≠ some expected then
    (wakes, .done (.error wakeChanged))
  else
    let result := receipt h operationId .awake false
    (wakes.map fun row =>
        if row.operationId = operationId then { row with result := some result } else row,
      .done (.ok (some result)))

/-- What the caller leaves of the host and of the journal of wakes, and where it stands then. -/
def callerStep (h : Host) (wakes : List WakeOperation) (caller : Caller) (act : Act) :
    Option (Host × List WakeOperation × Point) :=
  match act, caller.point with
  | .write, .writing row => some (h.writeRow row, wakes, .releasing row false)
  | .poll, .releasing row duplicate =>
    some (h, wakes, if processesReleased h row then .settling row duplicate
      else .releasing row duplicate)
  | .poll, .waiting expected row =>
    some (h, wakes, if processesReleased h row then .entering expected row
      else .waiting expected row)
  | .settle, .settling row duplicate =>
    let (after, point) := settle h row duplicate
    some (after, wakes, point)
  | .read, .reading expected => some (h, wakes, readRow h expected)
  | .enter, .entering expected row =>
    let (after, point) := enter h expected row
    some (after, wakes, point)
  | .launch identity, .launching expected row =>
    (launch h identity).map fun after => (after, wakes, .watching expected row)
  | .see, .watching expected row => some (h, wakes, see h expected row)
  | .acknowledge, .acknowledging expected row sighting =>
    let (after, point) := acknowledge h expected row sighting
    some (after, wakes, point)
  | .record, .recording expected =>
    match caller.request with
    | .wake operationId =>
      let (after, point) := record h wakes operationId expected
      some (h, after, point)
    | _ => none
  | .abort, .done _ => none
  | .abort, _ => some (h, wakes, .done (.error wakePending))
  | _, _ => none

/-- One step. The admission lock is held from the idle proof to the row and from the phase to the
start; the daemon, the processes and every wait interleave with it. -/
def step (w : World) : Event → Option World
  | .sleep operationId revision facts reason =>
    if w.busy then none
    else
      let point := admitSleep w.host operationId revision (idleProof w.host facts reason)
      some { w with callers := w.callers ++ [⟨.sleep operationId revision, point⟩] }
  | .wake operationId =>
    if w.busy then none
    else
      let (wakes, point) := admitWake w.host w.wakes operationId
      some { w with wakes, callers := w.callers ++ [⟨.wake operationId, point⟩] }
  | .messageWake => some { w with callers := w.callers ++ [⟨.message, .reading none⟩] }
  | .act i act =>
    match w.callers[i]? with
    | some caller =>
      if act.locks && w.busy then none
      else
        (callerStep w.host w.wakes caller act).map fun (host, wakes, point) =>
          { host, wakes, callers := w.callers.set i { caller with point } }
    | none => none
  | .starts identity =>
    if sleepBlocksStart w.host || w.host.delegationStopped || w.host.hasOwner ||
        !w.host.fresh identity then none
    else some { w with host := w.host.startOwner identity }
  | .spawns identity member =>
    if w.host.fresh identity then some { w with host := w.host.appear ⟨identity, false, member⟩ }
    else none
  | .exits identity =>
    some { w with host := { w.host with
      table := w.host.table.filter fun process => process.identity != identity } }
  | .publishes providerPid =>
    match w.host.table.find? fun process => process.owner with
    | some owner =>
      some { w with host := { w.host with snapshot := some ⟨owner.identity, providerPid⟩ } }
    | none => none
  | .expires => some { w with host := { w.host with snapshot := none } }
  | .endsDelegation => some { w with host := { w.host with delegationStopped := true } }

end Ccmux.Session.Sleep
