/- Module: Ccmux/Agent/Codex/Admission
   source: src/agent/codex/owned/connection.ts, src/agent/codex/owned/backlog.ts
   digest: What arrives before admission, held in a bounded backlog and replayed at its end. -/

import Ccmux.Agent.Codex.Projection
import Ccmux.Lib.Machine

namespace Ccmux.Agent.Codex.Owned

/-- `MAX_EVENTS`, `MAX_REQUESTS`, `MAX_EVENT_BYTES` and `MAX_BYTES` of the backlog. -/
def backlogEvents : Nat := 128

def backlogRequests : Nat := 16

def backlogEventBytes : Nat := 448 * 1024

def backlogBytes : Nat := 512 * 1024

def isDelta : CodexRpcEvent → Bool
  | .delta _ _ => true
  | _ => false

structure AdmissionBacklog where
  events : List CodexRpcEvent := []
  requests : List CodexRpcRequest := []
  omitted : Nat := 0
  bytes : Nat := 0
  deriving DecidableEq, Repr

structure Sizes where
  event : CodexRpcEvent → Nat
  request : CodexRpcRequest → Nat

variable (b : Builtins) (sizes : Sizes)

def AdmissionBacklog.full (backlog : AdmissionBacklog) (size : Nat) : Bool :=
  backlogEvents ≤ backlog.events.length || backlogEventBytes < backlog.bytes + size

/-- The loop that sheds the oldest delta while the window is full; each turn drops one event. -/
def shedDeltas (size : Nat) : Nat → AdmissionBacklog → AdmissionBacklog
  | 0, backlog => backlog
  | fuel + 1, backlog =>
    if backlog.full size then
      match backlog.events.find? isDelta with
      | none => backlog
      | some removed =>
        shedDeltas size fuel
          { backlog with
            events := backlog.events.eraseP isDelta
            bytes := backlog.bytes - sizes.event removed
            omitted := backlog.omitted + 1 }
    else backlog

/-- Hold an event; `none` is the window's overflow. -/
@[grind =]
def AdmissionBacklog.event (backlog : AdmissionBacklog) (e : CodexRpcEvent) :
    Option AdmissionBacklog :=
  let size := sizes.event e
  let left := shedDeltas sizes size backlog.events.length backlog
  if !left.full size then
    some { left with events := left.events ++ [e], bytes := left.bytes + size }
  else if isDelta e then some { left with omitted := left.omitted + 1 }
  else none

@[grind =]
def AdmissionBacklog.request (backlog : AdmissionBacklog) (r : CodexRpcRequest) :
    Option AdmissionBacklog :=
  let bytes := backlog.bytes + sizes.request r
  if backlogRequests ≤ backlog.requests.length ∨ backlogBytes < bytes then none
  else some { backlog with requests := backlog.requests ++ [r], bytes }

/-- The replay of `admit`: the events first, then the requests. A throw fails the admission. -/
def replay (p : Projection) (backlog : AdmissionBacklog) : Option Projection :=
  if backlog.events.any throws then none
  else some (backlog.requests.foldl (request b) (backlog.events.foldl (event b) p))

inductive Arrival where
  | event (e : CodexRpcEvent)
  | request (r : CodexRpcRequest)
  deriving DecidableEq, Repr

/-- A connection before its admission, beside the projection that takes each arrival at once;
`arrived` is every event so far. -/
structure World where
  backlog : AdmissionBacklog := {}
  live : Projection
  arrived : List CodexRpcEvent := []
  deriving DecidableEq, Repr

/-- An arrival that the window holds and that no schema throws on. -/
@[grind =]
def step (w : World) : Arrival → Option World
  | .event e =>
    if throws e then none
    else
      (w.backlog.event sizes e).map fun backlog =>
        { backlog, live := event b w.live e, arrived := w.arrived ++ [e] }
  | .request r =>
    (w.backlog.request sizes r).map fun backlog =>
      { w with backlog, live := request b w.live r }

structure Same (p q : Projection) : Prop where
  pendingRequests : p.pendingRequests = q.pendingRequests
  turn : p.turn = q.turn
  state : p.state = q.state
  events : p.events = q.events
  nativeItems : p.nativeItems = q.nativeItems

/-- An event that changes nothing of what the projection shows. -/
@[grind =]
def inert (p : Projection) : CodexRpcEvent → Bool
  | .status threadId _ => threadId ≠ p.threadId
  | .turn started threadId id status => turnIgnored p started threadId id status
  | .item _ threadId _ _ => threadId ≠ p.threadId
  | .tokenUsage threadId _ _ => threadId ≠ p.threadId
  | .resolved threadId requestId =>
    threadId ≠ p.threadId ||
      (findRequest p.pendingRequests (publicRequestId b requestId)).isNone
  | _ => true

/-- A status that names the state which the open request has set already: the first one of the
connection, one with a new reason, or one that the events before it had set as well. -/
@[grind =]
def repeatsWaiting (p : Projection) (before : NativeState) : CodexRpcEvent → Bool
  | .status _ status =>
    (nativeTurnState status).1 = p.state &&
      (!p.connected || p.reason ≠ (nativeTurnState status).2 || before = p.state)
  | _ => false

/-- Whether an arrival keeps the replay equal to the live projection: while a request is open, only
events that change nothing, and a status of the very state the request has set. -/
@[grind =]
def keeps (p : Projection) (w : World) : Arrival → Bool
  | .event e =>
    w.live.pendingRequests.isEmpty || inert b w.live e ||
      repeatsWaiting w.live (w.backlog.events.foldl (event b) p).state e
  | .request _ => true

end Ccmux.Agent.Codex.Owned
