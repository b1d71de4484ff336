/- Module: Ccmux/Context/Pump
   source: src/context/pump.ts, src/context/service.ts, src/chat/nativeRuntime.ts,
     src/runtime/admission.ts
   digest: Compaction requests, pump tasks, completions and letters around one context journal. -/

import Ccmux.Lib.Machine
import Ccmux.Chat.NativeRuntime
import Ccmux.Context.Journal

namespace Ccmux.Context

open Ccmux.Chat.Message (ChatCursors Ledger)
open Ccmux.Chat.NativeRuntime (Action PassEnv deliverLocked)
open Ccmux.Runtime.Input

/-- Where `applyContextCommands` stands with the operation it read before it took the lock. -/
inductive Point where
  | waiting (active : ContextOperation)
  | looking (active : ContextOperation)
  | observing (active : ContextOperation) (marker : String)
  | doubting (active : ContextOperation)
  | rejecting (active : ContextOperation)
  | marking (active : ContextOperation)
  | dispatching (active : ContextOperation) (marker : Option String)
  | compacting (active : ContextOperation)
  | called (active : ContextOperation)
  | settling (active : ContextOperation) (returned : Bool)
  | ended
  deriving DecidableEq

/-- One task of an owner's pump; its generation is the owner's. -/
structure ContextTask where
  generation : String
  point : Point
  deriving DecidableEq

/-- Who is inside `withNativeAdmission`: a pump task, or a delivery pass with its writes to come. -/
inductive Holder where
  | pump (i : Nat)
  | delivery (actions : List Action)

/-- The files of one session, its lock, the tasks of its owners, and the histories of the operations
that `api.compact` was called for and of the completions that raised the revision. -/
structure World where
  journal : ContextJournal
  read : RuntimeRead
  input : Option RuntimeInput
  admission : Option Holder
  tasks : List ContextTask
  compacted : List String
  raised : List Completion

inductive Event where
  | publish (read : RuntimeRead)
  | compact (request : CompactRequest) (blocked : Bool)
  | observe (generation : String) (completionId : Option String)
  | pumpStarts (generation : String)
  | pumpLocks (i : Nat)
  | pumpReadsMarker (i : Nat) (answer : Option (Option String))
  | pumpWrites (i : Nat)
  | pumpThrows (i : Nat)
  | pumpCompacts (i : Nat)
  | pumpReturns (i : Nat) (returned : Bool)
  | pumpStops (i : Nat)
  | delivers (env : PassEnv) (recipientKey : String) (ledger : Ledger) (cursors : ChatCursors)
      (acked : Finset String)
  | deliveryWrites
  | deliveryStops
  | command (input : RuntimeInput)
  | ownerTakes
  | ownerSubmits
  | ownerSettles (phase : InputPhase)

def startWorld : World := ⟨{}, ⟨false, none⟩, none, none, [], [], []⟩

def World.setPoint (w : World) (i : Nat) (task : ContextTask) (point : Point) : World :=
  { w with tasks := w.tasks.set i { task with point } }

/-- The task returns or throws, out of the lock. -/
def World.finish (w : World) (i : Nat) (task : ContextTask) : World :=
  { w.setPoint i task .ended with admission := none }

/-- The journal is persisted with the revision raised. -/
def World.raise (w : World) (generation : String) (completionId : Option String) : World :=
  { w with
    journal := Context.raise w.journal generation completionId
    raised := w.raised ++ (completionId.map fun id => ⟨generation, id⟩).toList }

def Point.locked : Point → Bool
  | .waiting _ => false
  | .ended => false
  | _ => true

/-- `observeContextCompletion`, whose write throws where the schema refuses it. -/
def observed (w : World) (generation : String) (completionId : Option String) : Option World :=
  match observeContextCompletion w.journal w.read generation completionId with
  | none => some w
  | some journal => if journal.valid then some (w.raise generation completionId) else none

/-- The first step inside the lock reads the status of the runtime for a queued operation. -/
def admitted (task : ContextTask) (active : ContextOperation) (read : RuntimeRead) : Point :=
  if active.state ≠ .queued then .looking active
  else if active.generation ≠ task.generation ∨ !read.atRest then .rejecting active
  else .marking active

/-- What follows the answer to `api.compactionMarker`; none is a throw. -/
def marked (active : ContextOperation) (answer : Option (Option String)) : Point :=
  match answer with
  | some (some marker) =>
    if active.markerBefore ≠ some marker then .observing active marker else .doubting active
  | _ => .doubting active

/-- A row of this id is written in place when the condition holds. -/
def ContextJournal.amendIf (journal : ContextJournal) (operationId : String)
    (p : ContextOperation → Bool) (f : ContextOperation → ContextOperation) : ContextJournal :=
  if (journal.operation operationId).any p then journal.amend operationId f else journal

/-- The writes of a task under the journal lock; the last component is where it goes on, if it
does. A refused write throws. -/
def pumpWrite (w : World) (task : ContextTask) : Option (World × Point) :=
  match task.point with
  | .observing active marker =>
    match observed w active.generation (some marker) with
    | some v => some (v, .ended)
    | none => some (w, .doubting active)
  | .doubting active =>
    if active.generation = task.generation then some (w, .ended)
    else
      let journal := w.journal.amendIf active.operationId (fun row => row.state != .completed)
        fun row => { row with state := .uncertain }
      some ({ w with journal }, .ended)
  | .rejecting active =>
    let journal := w.journal.amendIf active.operationId (fun row => row.state == .queued)
      fun row => { row with state := .rejected }
    some ({ w with journal }, .ended)
  | .dispatching active marker =>
    if (w.journal.operation active.operationId).any fun row => row.state == .queued then
      let journal := w.journal.amend active.operationId
        fun row => { row with state := .dispatching, markerBefore := marker }
      if journal.valid then some ({ w with journal }, .compacting active) else some (w, .ended)
    else some (w, .ended)
  | .settling active returned =>
    let state := if returned then OperationState.running else .uncertain
    let journal := w.journal.amendIf active.operationId (fun row => row.state == .dispatching)
      fun row => { row with state }
    some ({ w with journal }, .ended)
  | _ => none

/-- A throw inside the `try` of a task: while it observes, or while it records that the call
returned. Any other ends the task. -/
def thrown : Point → Option Point
  | .observing active _ => some (.doubting active)
  | .settling active true => some (.settling active false)
  | _ => none

/-- The task goes on at this point; at its end the lock is released. -/
def World.goOn (w : World) (i : Nat) (task : ContextTask) (point : Point) : World :=
  if point = .ended then w.finish i task else w.setPoint i task point

/-- What `deliverLocked` reads of the journal and of the status is what they hold. -/
def readsWorld (w : World) (env : PassEnv) : Bool :=
  env.contextPending == contextMutationPending w.journal &&
    env.snapshot == (if w.read.live then w.read.snapshot.map fun s => s.native else none)

def Holder.free : Option Holder → Bool
  | none => true
  | some _ => false

def World.inputPhase (w : World) : Option InputPhase := w.input.map fun input => input.phase

def World.setPhase (w : World) (phase : InputPhase) : World :=
  { w with input := w.input.map fun input => { input with phase } }

section
variable (dateParse : String → Option Int)

/-- One step. The tasks are those of any owners, the ended one's and its successor's; an owner's
steps on the mailbox need no journal here, though Codex's and OpenCode's read it too. -/
def step (w : World) : Event → Option World
  | .publish read => some { w with read }
  | .compact request blocked =>
    if Holder.free w.admission then
      match compactNativeContext w.journal w.read blocked w.input request with
      | .ok (journal, _) => some { w with journal }
      | .error _ => some w
    else none
  | .observe generation completionId => observed w generation completionId
  | .pumpStarts generation =>
    match w.journal.operations.find? unresolved with
    | some active => some { w with tasks := w.tasks ++ [⟨generation, .waiting active⟩] }
    | none => some w
  | .pumpLocks i =>
    match w.tasks[i]? with
    | some task =>
      match task.point with
      | .waiting active =>
        if Holder.free w.admission then
          some { w.setPoint i task (admitted task active w.read) with admission := some (.pump i) }
        else none
      | _ => none
    | none => none
  | .pumpReadsMarker i answer =>
    match w.tasks[i]? with
    | some task =>
      match task.point with
      | .looking active => some (w.setPoint i task (marked active answer))
      | .marking active =>
        match answer with
        | some marker => some (w.setPoint i task (.dispatching active marker))
        | none => some (w.finish i task)
      | _ => none
    | none => none
  | .pumpWrites i =>
    match w.tasks[i]? with
    | some task => (pumpWrite w task).map fun r => r.1.goOn i task r.2
    | none => none
  | .pumpThrows i =>
    match w.tasks[i]? with
    | some task => (thrown task.point).map fun point => w.setPoint i task point
    | none => none
  | .pumpCompacts i =>
    match w.tasks[i]? with
    | some task =>
      match task.point with
      | .compacting active =>
        some { w.setPoint i task (.called active) with
          compacted := w.compacted ++ [active.operationId] }
      | _ => none
    | none => none
  | .pumpReturns i returned =>
    match w.tasks[i]? with
    | some task =>
      match task.point with
      | .called active => some (w.setPoint i task (.settling active returned))
      | _ => none
    | none => none
  | .pumpStops i =>
    match w.tasks[i]? with
    | some task =>
      if task.point.locked then some (w.finish i task) else some (w.setPoint i task .ended)
    | none => none
  | .delivers env recipientKey ledger cursors acked =>
    if Holder.free w.admission && readsWorld w env then
      let pass := deliverLocked dateParse env recipientKey ledger cursors acked w.input
      some { w with admission := some (.delivery pass.1) }
    else none
  | .deliveryWrites =>
    match w.admission with
    | some (.delivery (.writeInput input :: actions)) =>
      some { w with input := some input, admission := some (.delivery actions) }
    | some (.delivery (_ :: actions)) => some { w with admission := some (.delivery actions) }
    | some (.delivery []) => some { w with admission := none }
    | _ => none
  | .deliveryStops =>
    match w.admission with
    | some (.delivery _) => some { w with admission := none }
    | _ => none
  | .command input =>
    if Holder.free w.admission && !contextMutationPending w.journal && w.read.atRest then
      some { w with input := some { input with phase := .queued, kind := .command } }
    else none
  | .ownerTakes =>
    if w.inputPhase = some .queued then some (w.setPhase .dispatching) else none
  | .ownerSubmits => if w.inputPhase = some .dispatching then some w else none
  | .ownerSettles phase =>
    if w.inputPhase = some .dispatching ∨ w.inputPhase = some .uncertain then some (w.setPhase phase)
    else none

end

end Ccmux.Context
