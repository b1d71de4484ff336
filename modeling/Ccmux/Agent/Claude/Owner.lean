/- Module: Ccmux/Agent/Claude/Owner
   source: src/agent/claude/native/owner.ts, src/agent/claude/native/mailboxes.ts,
     src/agent/claude/native/permission.ts
   digest: The permissions an owner holds, and every step of it that touches them or the turn. -/

import Ccmux.Agent.Claude.Turn
import Ccmux.Lib.Machine

namespace Ccmux.Agent.Claude.Owner

open Ccmux.Agent.Claude.Turn
open Ccmux.Runtime.Response

/-- `approvalRequest`: what a tool permission asks, as far as an answer is judged by it. -/
def approvalRequest (requestId : String) : NativePendingRequest :=
  { requestId, kind := .approval,
    decisions := [.accept, .acceptForSession, .decline, .cancel] }

structure InterruptCommand where
  turnId : String
  generation : String
  deriving DecidableEq, Repr

/-- Where the pass of `tick` stands, one mailbox after the other. -/
inductive TickPoint where
  | idle
  | marking (command : InterruptCommand)
  | calling (command : InterruptCommand)
  | answering (command : NativeResponseCommand)
  | failed
  | closed
  deriving DecidableEq, Repr

/-- Where `drain` stands. -/
inductive DrainPoint where
  | streaming | reporting | ended
  deriving DecidableEq, Repr

/-- The owner: its projection of the turn, the permissions it holds in the order they were asked,
and the history of those it settled. -/
structure World where
  generation : String
  turn : TurnState
  turnId : Option String
  pending : List NativePendingRequest
  settled : List (String × Decision)
  tick : TickPoint
  drain : DrainPoint
  deriving DecidableEq, Repr

inductive Event where
  | asks (requestId : String)
  | interrupt (command : InterruptCommand)
  | marked
  | interruptResolves
  | interruptRejects
  | response (command : Option NativeResponseCommand) (receipt : Option NativeResponseReceipt)
  | submits
  | picks (nativeId : String)
  | compacts (nativeId : String)
  | message (message : SdkMessage)
  | streamThrows
  | reported
  | streamEnds
  | throws
  | closes

def startWorld (generation : String) : World :=
  ⟨generation, initialTurn, none, [], [], .idle, .streaming⟩

/-- `cancellable` of `applyInterrupt`. -/
def World.cancellable (w : World) (command : InterruptCommand) : Bool :=
  isCancellableTurn
    ⟨w.generation, w.turn.state, w.turnId.bind fun id => w.turn.status.map fun status => (id, status)⟩
    command.generation command.turnId

def settledAs (decision : Decision) (request : NativePendingRequest) : String × Decision :=
  (request.requestId, decision)

/-- `settleAll`: every permission is settled and leaves the map; the turn is not told. -/
def World.settleAll (w : World) (decision : Decision) : World :=
  { w with
    pending := []
    settled := w.settled ++ w.pending.map (settledAs decision) }

def World.known (w : World) : List String :=
  w.settled.map Prod.fst ++ w.pending.map fun request => request.requestId

/-- `decide`, up to its await. -/
def World.decide (w : World) (requestId : String) : World :=
  { w with
    pending := w.pending ++ [approvalRequest requestId]
    turn := advanceTurn w.turn (.message (.kind .request) (some .approval) false) }

/-- `submit` of `applyResponse`; it throws where the approval has disappeared. -/
def World.submit (w : World) (command : NativeResponseCommand) : World :=
  match w.pending.find? fun item => item.requestId == command.requestId, command.decision with
  | some _, some decision =>
    { w with
      pending := w.pending.eraseP fun item => item.requestId == command.requestId
      settled := w.settled ++ [(command.requestId, decision)]
      turn := advanceTurn w.turn .answered
      tick := .idle }
  | _, _ => { w with tick := .failed }

/-- One turn is taken: by the pickup, or for a compaction. -/
def World.begin (w : World) (nativeId : String) : World :=
  { w with turnId := some nativeId, turn := w.turn.begin }

/-- The loop of `drain` takes one message. -/
def World.receive (w : World) (message : SdkMessage) : World :=
  { w with
    turn := advanceTurn w.turn
      (.message (classifySdkMessage message.type) none (isFailureResult message)) }

/-- One step, up to the next await. The ids of requests are random, so none is given twice; the
mailboxes and the pickup are passes of one tick, while the stream, the callbacks of the runtime and
a compaction interleave with it. -/
@[grind =]
def step (w : World) : Event → Option World
  | .asks requestId => if w.known.contains requestId then none else some (w.decide requestId)
  | .interrupt command =>
    if w.tick = .idle then
      some (if w.cancellable command then { w with tick := .marking command } else w)
    else none
  | .marked =>
    match w.tick with
    | .marking command =>
      some (if w.cancellable command then { w.settleAll .cancel with tick := .calling command }
        else { w with tick := .idle })
    | _ => none
  | .interruptResolves =>
    match w.tick with
    | .calling _ => some { w with turn := advanceTurn w.turn .interrupted, tick := .idle }
    | _ => none
  | .interruptRejects =>
    match w.tick with
    | .calling _ => some { w with tick := .idle }
    | _ => none
  | .response command receipt =>
    if w.tick = .idle then
      match answerNativeCommand command receipt w.generation w.pending with
      | .announcing command => some { w with tick := .answering command }
      | _ => some w
    else none
  | .submits =>
    match w.tick with
    | .answering command => some (w.submit command)
    | _ => none
  | .picks nativeId =>
    if w.tick = .idle ∧ w.turn.status ≠ some .inProgress then some (w.begin nativeId) else none
  | .compacts nativeId => if w.tick = .closed then none else some (w.begin nativeId)
  | .message message => if w.drain = .streaming then some (w.receive message) else none
  | .streamThrows =>
    if w.drain = .streaming then
      some { w with turn := advanceTurn w.turn .failed, drain := .reporting }
    else none
  | .reported =>
    if w.drain = .reporting then some { w.settleAll .cancel with drain := .ended } else none
  | .streamEnds =>
    if w.drain = .streaming then some { w.settleAll .cancel with drain := .ended } else none
  | .throws => if w.tick = .closed then none else some { w with tick := .failed }
  | .closes =>
    if w.tick = .idle ∨ w.tick = .failed then some { w.settleAll .decline with tick := .closed }
    else none

/-! Each part of a step, on the pending permissions. -/

section
variable {w : World}

@[simp] theorem settleAll_pending (decision : Decision) : (w.settleAll decision).pending = [] := rfl

@[simp] theorem settleAll_turn (decision : Decision) : (w.settleAll decision).turn = w.turn := rfl

@[simp] theorem receive_pending (message : SdkMessage) : (w.receive message).pending = w.pending :=
  rfl

@[simp] theorem begin_pending (nativeId : String) : (w.begin nativeId).pending = w.pending := rfl

@[simp] theorem begin_turn (nativeId : String) : (w.begin nativeId).turn = w.turn.begin := rfl

theorem decide_length (requestId : String) :
    (w.decide requestId).pending.length = w.pending.length + 1 := by
  simp [World.decide]

theorem settleAll_known (decision : Decision) : (w.settleAll decision).known = w.known := by
  have hids : (w.pending.map (settledAs decision)).map Prod.fst =
      w.pending.map fun request => request.requestId := by
    rw [List.map_map]
    rfl
  simp only [World.known, World.settleAll, List.map_append, hids, List.map_nil, List.append_nil]

theorem decide_known (requestId : String) :
    (w.decide requestId).known = w.known ++ [requestId] := by
  simp [World.known, World.decide, approvalRequest]

theorem submit_cases (command : NativeResponseCommand) :
    (w.submit command = { w with tick := .failed }) ∨
      ∃ request ∈ w.pending, request.requestId = command.requestId ∧
        ∃ decision, command.decision = some decision ∧
        w.submit command =
          { w with
            pending := w.pending.eraseP fun item => item.requestId == command.requestId
            settled := w.settled ++ [(command.requestId, decision)]
            turn := advanceTurn w.turn .answered
            tick := .idle } := by
  unfold World.submit
  split
  · rename_i request decision hfind hdecision
    have hid := List.find?_some hfind
    exact .inr ⟨request, List.mem_of_find?_eq_some hfind, by simpa using hid, decision, hdecision,
      rfl⟩
  · exact .inl rfl

theorem erase_perm {requests : List NativePendingRequest} {request : NativePendingRequest}
    (hmem : request ∈ requests) :
    (request.requestId :: (requests.eraseP fun item => item.requestId == request.requestId).map
      fun item => item.requestId).Perm (requests.map fun item => item.requestId) := by
  obtain ⟨found, pre, post, -, hid, hsplit, herase⟩ :=
    List.exists_of_eraseP (p := fun item => item.requestId == request.requestId) hmem (by simp)
  have hid' : found.requestId = request.requestId := by simpa using hid
  rw [herase, hsplit, List.map_append, List.map_append, List.map_cons, hid']
  exact List.perm_middle.symm

end

end Ccmux.Agent.Claude.Owner
