/- Module: Ccmux/Control/Create
   source: src/control/lifecycle.ts, src/session/create.ts, src/commands/bootstrap.ts
   digest: Any number of callers of one create, step by step, with the bootstraps they start. -/

import Ccmux.Control.CreateReceipts
import Ccmux.Lib.Machine
import Mathlib

namespace Ccmux.Control.Create

open Ccmux.Chat.Identity (ManagedPeer)
open Ccmux.Control.CreateReceipts
open Ccmux.Lib.Machine
open Ccmux.Registry

structure AppError where
  code : String
  message : String
  status : Nat
  deriving DecidableEq, Repr

def payloadChanged : AppError := ⟨"IDEMPOTENCY_CONFLICT", "Create request payload changed", 409⟩

def capacityReached : AppError :=
  ⟨"CREATE_CAPACITY", "Managed create receipt capacity reached", 409⟩

def createFailed : AppError := ⟨"CREATE_FAILED", "Managed session create failed", 409⟩

def registrationGone : AppError :=
  ⟨"IDENTITY_MISMATCH", "The accepted managed registration no longer exists", 409⟩

def forkPending : AppError :=
  ⟨"FORK_PENDING", "Native fork is unresolved; retry the same request", 503⟩

def createPending : AppError :=
  ⟨"CREATE_PENDING", "Create is still reconciling; retry the same request", 503⟩

def corruptState : AppError :=
  ⟨"CORRUPT_STATE", "Managed create identity does not match its receipt", 503⟩

def targetUnavailable : AppError :=
  ⟨"IDENTITY_MISMATCH", "The exact managed session is unavailable", 409⟩

def forkSourceChanged : AppError :=
  ⟨"IDENTITY_MISMATCH", "Native fork source registration changed", 409⟩

structure Answer where
  requestId : String
  target : ManagedPeer
  workspace : String
  duplicate : Bool
  registrationGeneration : String
  launchRecipe : Option Metadata
  modelSelection : Option Metadata
  nativeSession : Option NativeSession
  deriving DecidableEq, Repr

/-- Where a caller that has its receipt is. From `preparing` to `removingSession` it is inside
`create`; `thrown` is the handler of what `create` throws. -/
inductive Point where
  | accepted
  | unmatched
  | preparing
  | launching
  | starting (session : Session)
  | undoing (session : Session)
  | awaiting
  | rollingBack
  | removingPending
  | removingSession
  | thrown
  | failing
  | reconciling
  | found (session : Session)
  | verified (session : Session)
  | completed (session : Session)
  deriving DecidableEq

inductive Stage where
  | waiting
  | locked
  | working (row : CreateRow) (duplicate : Bool) (point : Point)
  deriving DecidableEq

def Stage.holds : Stage → Bool
  | .waiting => false
  | .locked | .working _ _ _ => true

structure Call where
  requestId : String
  canonical : Canonical
  stage : Stage
  deriving DecidableEq

structure Outcome where
  requestId : String
  canonical : Canonical
  reply : Except AppError Answer

/-- The stores, the callers at work, and what was ever registered and answered. -/
structure World where
  receipts : List CreateRow
  registry : Rows
  forks : List NativeForkIntent
  calls : Nat → Option Call
  requestLock : String → Option Nat
  created : List Session
  outcomes : List Outcome

def World.empty : World :=
  { receipts := []
    registry := ⟨[], []⟩
    forks := []
    calls := fun _ => none
    requestLock := fun _ => none
    created := []
    outcomes := [] }

/-- What a caller does next: it goes on, with a fresh UUID should it draw one, or what it waits for
fails or times out. -/
inductive Turn where
  | proceeds (fresh : String)
  | fails

/-- `request` to `crash` are the callers, the rest is what else the host does. A crash stands for
every end without a reply: the process dies, its signal aborts, a lock or a write is refused. -/
inductive Event where
  | request (k : Nat) (requestId : String) (canonical : Canonical)
  | turn (k : Nat) (t : Turn)
  | crash (k : Nat)
  | promote (generation uuid : String) (nativeSession : Option NativeSession)
  | block (generation : String)
  | clear (generation : String)
  | fork (generation : String) (state : ForkState)
  | register (session : Session)
  | reserve (pending : PendingSession)
  | edit (name : String) (fields : SessionFields)
  | repin (name uuid : String)
  | rm (name : String)

def World.used (w : World) (generation : String) : Bool :=
  w.receipts.any (fun row => row.generation == generation) ||
    w.registry.pending.any (fun item => item.generation == generation) ||
    w.created.any (fun s => s.registrationGeneration == some generation)

def World.moveTo (w : World) (k : Nat) (c : Call) (stage : Stage) : World :=
  { w with calls := Function.update w.calls k (some { c with stage := stage }) }

/-- The lock of a caller that is gone is free. -/
def World.leave (w : World) (k : Nat) (c : Call) : World :=
  { w with
    calls := Function.update w.calls k none
    requestLock :=
      if c.stage.holds then Function.update w.requestLock c.requestId none else w.requestLock }

def World.finish (w : World) (k : Nat) (c : Call) (reply : Except AppError Answer) : World :=
  { w.leave k c with outcomes := w.outcomes ++ [⟨c.requestId, c.canonical, reply⟩] }

/-- The section under the lock of the receipt store. -/
def accept (w : World) (k : Nat) (c : Call) (generation : String) : Option World :=
  match receiptOf w.receipts c.requestId with
  | some row =>
    if row.fingerprint ≠ fingerprint c.canonical then some (w.finish k c (.error payloadChanged))
    else some (w.moveTo k c (.working row true .accepted))
  | none =>
    if capacity ≤ w.receipts.length then some (w.finish k c (.error capacityReached))
    else if w.used generation then none
    else
      let row := pendingRow c.requestId generation c.canonical
      some ({ w with receipts := w.receipts ++ [row] }.moveTo k c (.working row false .accepted))

/-- `createManagedSession`, or for a fork `createNativeBootstrap`: an interactive Claude session is
registered at once, any other after its bootstrap. -/
def launch (w : World) (k : Nat) (c : Call) (row : CreateRow) (duplicate : Bool) (fresh : String) :
    World :=
  if row.forkSource.isNone && row.agent == .claude && !hasNativeRuntime row.fields then
    let session : Session :=
      { row.fields with uuid := fresh, registrationGeneration := some row.generation }
    match appendSession w.registry session with
    | none => w.moveTo k c (.working row duplicate .thrown)
    | some registry => { w with registry := registry, created := w.created ++ [session] }.moveTo k c
        (.working row duplicate (.starting session))
  else
    let operation := if row.forkSource.isSome then NativeBootstrapOperation.fork else .create
    match reservePendingSession w.registry ⟨row.generation, operation, row.fields, .pending⟩ with
    | none => w.moveTo k c (.working row duplicate .thrown)
    | some registry =>
      { w with registry := registry }.moveTo k c (.working row duplicate .awaiting)

/-- One look at the registry while the bootstrap runs. -/
def poll (registry : Rows) (row : CreateRow) : Point :=
  match findSession registry.sessions row.name with
  | some ready =>
    if ready.registrationGeneration = some row.generation then .found ready else .rollingBack
  | none =>
    match registry.pending.find? fun item => item.generation == row.generation with
    | none => .rollingBack
    | some current => if current.status = .blocked then .rollingBack else .awaiting

def controlTarget (rcPrefix : String) (sessions : List Session) (target : ManagedPeer) :
    Option Session :=
  match findSession sessions target.session with
  | none => none
  | some session =>
    if rcPrefix = target.machine ∧ session.uuid = target.threadId ∧ session.agent = target.agent then
      some session
    else none

/-- What is checked before the receipt is completed. -/
def verify (rcPrefix : String) (sessions : List Session) (row : CreateRow) (session : Session) :
    Option AppError :=
  if describes row session = false then some corruptState
  else
    match row.forkSource with
    | none => none
    | some fork =>
      match controlTarget rcPrefix sessions fork.target with
      | none => some targetUnavailable
      | some source =>
        if source.registrationGeneration = some fork.registration then none
        else some forkSourceChanged

def answerOf (rcPrefix : String) (row : CreateRow) (duplicate : Bool) (session : Session) : Answer :=
  { requestId := row.requestId
    target := managedPeer rcPrefix session
    workspace := row.workspace
    duplicate := duplicate
    registrationGeneration := row.generation
    launchRecipe := row.launchRecipe
    modelSelection := row.modelSelection
    nativeSession := session.nativeSession }

/-- A fork that its destination may have begun is left reserved. -/
def forkUncertain (forks : List NativeForkIntent) (row : CreateRow) : Bool :=
  row.forkSource.isSome &&
    (readNativeForkIntent forks row.generation).any fun intent => intent.state != .reserved

def proceed (rcPrefix : String) (w : World) (k : Nat) (c : Call) (row : CreateRow)
    (duplicate : Bool) (fresh : String) : Point → World
  | .accepted =>
    if row.status = .failed then w.finish k c (.error createFailed)
    else
      match matchingSession w.registry.sessions row with
      | some session => w.moveTo k c (.working row duplicate (.found session))
      | none =>
        if row.status = .complete then w.finish k c (.error registrationGone)
        else w.moveTo k c (.working row duplicate .unmatched)
  | .unmatched =>
    if w.registry.pending.any fun item => item.generation == row.generation then
      w.moveTo k c (.working row duplicate .reconciling)
    else w.moveTo k c (.working row duplicate .preparing)
  | .preparing =>
    match row.forkSource with
    | none => w.moveTo k c (.working row duplicate .launching)
    | some source =>
      match prepareNativeFork w.forks row.generation source with
      | none => w.moveTo k c (.working row duplicate .thrown)
      | some forks => { w with forks := forks }.moveTo k c (.working row duplicate .launching)
  | .launching => launch w k c row duplicate fresh
  | .starting session => w.moveTo k c (.working row duplicate (.found session))
  | .undoing session =>
    { w with registry := removeSessionIfUuid w.registry session.name session.uuid }.moveTo k c
      (.working row duplicate .thrown)
  | .awaiting => w.moveTo k c (.working row duplicate (poll w.registry row))
  | .rollingBack =>
    if forkUncertain w.forks row then w.moveTo k c (.working row duplicate .thrown)
    else w.moveTo k c (.working row duplicate .removingPending)
  | .removingPending =>
    { w with registry := removePendingSession w.registry row.generation }.moveTo k c
      (.working row duplicate .removingSession)
  | .removingSession =>
    { w with registry := removeSessionIfGeneration w.registry row.name row.generation }.moveTo k c
      (.working row duplicate .thrown)
  | .thrown =>
    match matchingSession w.registry.sessions row with
    | some session => w.moveTo k c (.working row duplicate (.found session))
    | none =>
      if row.forkSource.isSome then w.finish k c (.error forkPending)
      else w.moveTo k c (.working row duplicate .failing)
  | .failing =>
    { w with receipts := updateReceipt w.receipts row.requestId CreateRow.failed }.finish k c
      (.error createFailed)
  | .reconciling =>
    match matchingSession w.registry.sessions row with
    | some session => w.moveTo k c (.working row duplicate (.found session))
    | none => w
  | .found session =>
    match verify rcPrefix w.registry.sessions row session with
    | some failure => w.finish k c (.error failure)
    | none => w.moveTo k c (.working row duplicate (.verified session))
  | .verified session =>
    { w with
      receipts := updateReceipt w.receipts row.requestId (CreateRow.completed session.uuid) }.moveTo
      k c (.working row duplicate (.completed session))
  | .completed session => w.finish k c (.ok (answerOf rcPrefix row duplicate session))

/-- What throws inside `create`, its own cleanup included, ends in its handler. -/
def fail (w : World) (k : Nat) (c : Call) (row : CreateRow) (duplicate : Bool) :
    Point → Option World
  | .preparing | .launching | .undoing _ | .rollingBack | .removingPending | .removingSession =>
    some (w.moveTo k c (.working row duplicate .thrown))
  | .starting session => some (w.moveTo k c (.working row duplicate (.undoing session)))
  | .awaiting => some (w.moveTo k c (.working row duplicate .rollingBack))
  | .reconciling => some (w.finish k c (.error createPending))
  | _ => none

def advance (rcPrefix : String) (w : World) (k : Nat) (c : Call) (t : Turn) : Option World :=
  match c.stage, t with
  | .waiting, .proceeds _ =>
    if (w.requestLock c.requestId).isSome then none
    else some ({ w with
      requestLock := Function.update w.requestLock c.requestId (some k) }.moveTo k c .locked)
  | .locked, .proceeds fresh => accept w k c fresh
  | .working row duplicate point, .proceeds fresh =>
    some (proceed rcPrefix w k c row duplicate fresh point)
  | .working row duplicate point, .fails => fail w k c row duplicate point
  | _, .fails => none

/-- A call, past the checks of its input: a payload that is not the accepted one is refused before
any lock. -/
def request (w : World) (k : Nat) (requestId : String) (canonical : Canonical) : World :=
  let c : Call := ⟨requestId, canonical, .waiting⟩
  match receiptOf w.receipts requestId with
  | some row =>
    if row.fingerprint ≠ fingerprint canonical then w.finish k c (.error payloadChanged)
    else w.moveTo k c .waiting
  | none => w.moveTo k c .waiting

/-- The terminal cleanup of a bootstrap that has blocked its row. -/
def clearBlocked (w : World) (generation : String) : Option World :=
  match w.registry.pending.find? fun item => item.generation == generation with
  | none => none
  | some item =>
    if item.status ≠ .blocked then none
    else if item.operation = .fork ∧
        (readNativeForkIntent w.forks generation).any (fun intent => intent.state != .reserved) then
      none
    else
      let removed := removeSessionIfGeneration w.registry item.session.name generation
      some { w with registry := removePendingSession removed generation }

/-- A fork is promoted once its intent is accepted. -/
def promote (w : World) (generation uuid : String) (nativeSession : Option NativeSession) :
    Option World :=
  if (readNativeForkIntent w.forks generation).any fun intent => intent.state != .accepted then none
  else (promotePendingSession w.registry generation uuid nativeSession).map fun (registry, ready) =>
    { w with registry := registry, created := w.created ++ [ready] }

def moveFork (w : World) (generation : String) (state : ForkState) : World :=
  { w with forks := w.forks.map fun intent =>
      if intent.destination == generation && forkMoves intent.state state then
        { intent with state := state }
      else intent }

def step (rcPrefix : String) (w : World) : Event → Option World
  | .request k requestId canonical =>
    if (w.calls k).isSome then none else some (request w k requestId canonical)
  | .turn k t => (w.calls k).bind fun c => advance rcPrefix w k c t
  | .crash k => (w.calls k).map fun c => w.leave k c
  | .promote generation uuid nativeSession => promote w generation uuid nativeSession
  | .block generation => some { w with registry := markPendingBlocked w.registry generation }
  | .clear generation => clearBlocked w generation
  | .fork generation state => some (moveFork w generation state)
  | .register session =>
    if session.registrationGeneration.any w.used then none
    else (appendSession w.registry session).map fun registry =>
      { w with registry := registry, created := w.created ++ [session] }
  | .reserve pending =>
    if w.used pending.generation then none
    else (reservePendingSession w.registry pending).map fun registry =>
      { w with registry := registry }
  | .edit name fields => some { w with registry := updateSession w.registry name fields }
  | .repin name uuid =>
    (updateSessionUuid w.registry name uuid).map fun registry => { w with registry := registry }
  | .rm name => some { w with registry := removeSession w.registry name }

end Ccmux.Control.Create
