/- Module: Ccmux/Agent/Claude/Pickup
   source: src/agent/claude/native/pickup.ts, src/agent/claude/native/owner.ts,
     src/agent/claude/native/process.ts
   digest: The pickup of a queued turn, await by await, and the process that runs it. -/

import Ccmux.Lib.Machine
import Ccmux.Runtime.Input

namespace Ccmux.Agent.Claude.Pickup

open Ccmux.Lib.Machine
open Ccmux.Runtime.Input

/-- Where `TurnPickup.run` stands: at an await, with the input it read. -/
inductive Point where
  | idle
  | adopting (input : RuntimeInput)
  | requeueing (input : RuntimeInput)
  | reading
  | announcing (input : RuntimeInput) (startedAt : String)
  | selecting (input : RuntimeInput)
  | flagging (input : RuntimeInput)
  | building (input : RuntimeInput)
  | accepting (input : RuntimeInput)
  deriving DecidableEq, Repr

/-- The process that owns the conversation: what its `TurnPickup` remembers, and its turn. -/
structure Owner where
  dispatched : Option String
  turnInProgress : Bool
  point : Point
  deriving DecidableEq, Repr

/-- The input slot, the live owner, the transcript by native id, and the histories of the ids that
were put into the slot, pushed to the query, and marked accepted. -/
structure World where
  slot : Option RuntimeInput
  owner : Option Owner
  delegationStopped : Bool
  transcript : List String
  used : List String
  pushed : List String
  accepted : List String
  deriving DecidableEq, Repr

inductive Event where
  | deliver (input : RuntimeInput)
  | starts
  | tick
  | advance (now : String)
  | throws
  | crashes
  | turn (inProgress : Bool)
  | stopDelegation

def startWorld : World := ⟨none, none, false, [], [], [], []⟩

/-- `nativeInputDelivered`, over a transcript that records the native ids of the turns. -/
def nativeInputDelivered (transcript : List String) (input : RuntimeInput) : Bool :=
  transcript.contains input.nativeId

/-- The slot may be written: it is empty, settled, or holds a command that no letter waits for. -/
def writable (slot : Option RuntimeInput) : Bool :=
  slot.all fun input => input.phase == .accepted || input.kind == .command

/-- The turn in the slot is one that a tick looks at. -/
def wanted (slot : Option RuntimeInput) (owner : Owner) : Bool :=
  slot.any fun input =>
    input.phase != .accepted && (input.phase != .queued || !owner.turnInProgress)

/-- `reconcile` up to its write, for the pending input that `run` read. -/
def reconcile (transcript : List String) (owner : Owner) (input : RuntimeInput) : Owner :=
  if owner.dispatched = some input.nativeId then { owner with point := .reading }
  else if nativeInputDelivered transcript input then
    { owner with dispatched := some input.nativeId, point := .adopting input }
  else { owner with point := .requeueing input }

/-- The first part of `run`: a pending dispatch is reconciled. -/
def begin (transcript : List String) (owner : Owner) (slot : Option RuntimeInput) : Owner :=
  match slot with
  | some pending =>
    if pending.phase = .dispatching then reconcile transcript owner pending
    else { owner with point := .reading }
  | none => { owner with point := .reading }

/-- The second read of `run`: a queued turn is taken when none runs. -/
def take (owner : Owner) (slot : Option RuntimeInput) (now : String) : Owner :=
  match slot with
  | some input =>
    if input.phase = .queued ∧ owner.dispatched ≠ some input.nativeId ∧
        owner.turnInProgress = false then
      { dispatched := some input.nativeId, turnInProgress := true, point := .announcing input now }
    else { owner with point := .idle }
  | none => { owner with point := .idle }

/-- `writeRuntimeInput(…, { ...input, phase: 'accepted' })`. -/
def World.accept (w : World) (input : RuntimeInput) : World :=
  { w with
    slot := some { input with phase := .accepted }
    accepted := w.accepted ++ [input.nativeId] }

/-- `t.queue.push`: the turn reaches the conversation, and so its transcript. -/
def World.push (w : World) (input : RuntimeInput) : World :=
  { w with
    pushed := w.pushed ++ [input.nativeId]
    transcript := w.transcript ++ [input.nativeId] }

/-- The next await of the pass is reached; none ends the process, as its error is not caught. -/
def advance (w : World) (owner : Owner) (now : String) : World × Option Owner :=
  match owner.point with
  | .idle => (w, some owner)
  | .adopting input => (w.accept input, some { owner with point := .reading })
  | .requeueing input =>
    ({ w with slot := some { input with phase := .queued } }, some { owner with point := .reading })
  | .reading => (w, some (take owner w.slot now))
  | .announcing input startedAt =>
    ({ w with slot := some { input with phase := .dispatching, dispatchedAt := some startedAt } },
      some { owner with point := .selecting input })
  | .selecting input => (w, some { owner with point := .flagging input })
  | .flagging input =>
    if w.delegationStopped then (w, none) else (w, some { owner with point := .building input })
  | .building input => (w.push input, some { owner with point := .accepting input })
  | .accepting input => (w.accept input, some { owner with point := .idle })

/-- One step. A pass holds the admission lock, so nothing is delivered during it; native ids are
never given twice. A throw is not caught before the end of the process. -/
def step (w : World) : Event → Option World
  | .deliver input =>
    if (w.owner.all fun owner => owner.point == .idle) && writable w.slot &&
        !w.used.contains input.nativeId then
      some { w with
        slot := some { input with phase := .queued }
        used := w.used ++ [input.nativeId] }
    else none
  | .starts =>
    if w.owner.isNone && !w.delegationStopped then
      some { w with owner := some ⟨none, false, .idle⟩ }
    else none
  | .tick =>
    match w.owner with
    | some owner =>
      if owner.point = .idle ∧ !w.delegationStopped ∧ wanted w.slot owner then
        some { w with owner := some (begin w.transcript owner w.slot) }
      else none
    | none => none
  | .advance now =>
    match w.owner with
    | some owner =>
      if owner.point = .idle then none
      else
        let (v, next) := advance w owner now
        some { v with owner := next }
    | none => none
  | .throws =>
    match w.owner with
    | some owner => if owner.point = .idle then none else some { w with owner := none }
    | none => none
  | .crashes => some { w with owner := none }
  | .turn inProgress =>
    match w.owner with
    | some owner => some { w with owner := some { owner with turnInProgress := inProgress } }
    | none => none
  | .stopDelegation => some { w with delegationStopped := true }

end Ccmux.Agent.Claude.Pickup
