/- Module: Ccmux/Agent/Codex/Requests
   source: src/agent/codex/owned/projection.ts, src/agent/codex/owned/native.ts,
     src/agent/codex/owned/connection.ts, src/agent/codex/owned/observer.ts,
     src/runtime/projectionSchema.ts, src/runtime/selectionSchema.ts
   digest: The schema of a snapshot, and a projection that takes every call of its connection. -/

import Ccmux.Agent.Codex.AdmissionRun
import Ccmux.Chat.Format
import Ccmux.Lib.Window

namespace Ccmux.Agent.Codex.Owned

open Ccmux.Chat.Format (utf16Length)
open Ccmux.Lib.Window

/-- `z.string().min(low).max(high)` -/
def sized (low high : Nat) (text : String) : Bool :=
  decide (low ≤ utf16Length text ∧ utf16Length text ≤ high)

/-- The instants a `Date` can hold, and those among them that `z.iso.datetime()` reads back: the
years of four digits. -/
def isDate (ms : Int) : Bool := decide (-8640000000000000 ≤ ms ∧ ms ≤ 8640000000000000)

def isDatetime (ms : Int) : Bool := decide (-62167219200000 ≤ ms ∧ ms ≤ 253402300799999)

def nativeTurnSchema (turn : NativeTurn) : Bool := sized 1 256 turn.id

def nativeEventSchema (e : NativeEvent) : Bool :=
  decide (0 < e.sequence) && e.turn.all nativeTurnSchema

@[grind =]
def nativeItemSchema (item : NativeItem) : Bool :=
  decide (0 < item.sequence) && sized 1 256 item.nativeId && item.turnId.all (sized 1 256) &&
    item.requestId.all (sized 1 256) && item.status.all (sized 0 64) &&
    item.text.all (sized 0 8192) && item.tool.all (sized 0 128)

def nativeQuestionSchema (question : NativeQuestion) : Bool :=
  sized 1 256 question.id && sized 0 256 question.header && sized 0 2048 question.question &&
    question.options.all fun options =>
      decide (options.length ≤ 32) && options.all fun option =>
        sized 0 256 option.label && sized 0 1024 option.description

def askedSchema : Asked → Bool
  | .approval _ reason decisions startedAtMs =>
    reason.all (sized 0 2048) && decide (decisions.length ≤ 4) && startedAtMs.all isDatetime
  | .input questions => decide (questions.length ≤ 4) && questions.all nativeQuestionSchema

@[grind =]
def nativePendingRequestSchema (pending : NativePendingRequest) : Bool :=
  sized 1 256 pending.requestId && sized 1 256 pending.turnId && sized 1 256 pending.itemId &&
    askedSchema pending.asked

def isWordStart (c : Char) : Bool :=
  ('A' ≤ c && c ≤ 'Z') || ('a' ≤ c && c ≤ 'z') || ('0' ≤ c && c ≤ '9')

/-- `/^[A-Za-z0-9][A-Za-z0-9._-]*$/` -/
def providerKey (text : String) : Bool :=
  match text.toList with
  | [] => false
  | first :: rest =>
    isWordStart first && rest.all fun c => isWordStart c || c == '.' || c == '_' || c == '-'

def printableKey (text : String) : Bool :=
  text.toList.all fun c => !(c.toNat ≤ 0x20 || (0x7f ≤ c.toNat && c.toNat ≤ 0x9f))

def nativeSelectionEvidenceSchema (selection : NativeSelection) : Bool :=
  sized 1 128 selection.provider && providerKey selection.provider &&
    sized 1 256 selection.model && printableKey selection.model &&
    selection.options.all (fun options =>
      (options.1 == "default" || options.1 == "plan") && options.2.all (sized 1 64)) &&
    selection.turnId.all (sized 1 256)

/-- `NativeSnapshotSchema`, for what the projection writes. -/
structure SnapshotSchema (p : Projection) : Prop where
  reason : p.reason.all (sized 0 256) = true
  turn : p.turn.all nativeTurnSchema = true
  eventCount : p.events.length ≤ maxEvents
  events : ∀ e ∈ p.events, nativeEventSchema e = true
  itemCount : p.nativeItems.length ≤ maxNativeItems
  items : ∀ item ∈ p.nativeItems, nativeItemSchema item = true
  pendingCount : p.pendingRequests.length ≤ 16
  pending : ∀ r ∈ p.pendingRequests, nativePendingRequestSchema r = true
  selection : p.nativeSelection.all nativeSelectionEvidenceSchema = true

/-- What the connection does to its projection. -/
inductive Call where
  | event (e : CodexRpcEvent)
  | request (r : CodexRpcRequest)
  | submit (requestId : String)
  | reconcile (status : NativeStatus) (revision : Nat)
  | restoreTurn (turn : Option NativeTurn)
  | selection (selection : NativeSelection)
  | unavailable (reason : String)
  deriving DecidableEq, Repr

/-- A projection beside the requests it has received that are neither answered, resolved by the
provider, nor ended with their turn. -/
structure Desk where
  shown : Projection
  unsettled : List NativePendingRequest := []
  deriving DecidableEq, Repr

variable (b : Builtins)

/-- The event as it arrives: a selection that its schema refuses throws before it is set, and a
turn whose id is out of bounds is not read. -/
def observe (p : Projection) (e : CodexRpcEvent) : Projection :=
  match codexSelectionEvent e p.threadId p.nativeSelection with
  | some selection => if nativeSelectionEvidenceSchema selection then event b p e else p
  | none =>
    match e with
    | .turn _ _ id _ => if sized 1 256 id then event b p e else p
    | _ => event b p e

/-- The request, where its schema reads it: at most three questions. -/
@[grind =]
def received (p : Projection) (r : CodexRpcRequest) : Option NativePendingRequest :=
  match r with
  | .userInput _ _ _ _ questions =>
    if questions.length ≤ 3 then projectNativeRequest b r p.threadId else none
  | _ => projectNativeRequest b r p.threadId

/-- The request as it arrives: `toISOString` throws on a start that no `Date` holds. -/
def receive (p : Projection) (r : CodexRpcRequest) : Projection :=
  match received b p r with
  | none => p
  | some pending =>
    match pending.asked with
    | .approval _ _ _ (some ms) => if isDate ms then request b p r else p
    | _ => request b p r

def call (p : Projection) : Call → Projection
  | .event e => observe b p e
  | .request r => receive b p r
  | .submit requestId => submitRequest b p requestId
  | .reconcile status revision => reconcile p status revision
  | .restoreTurn turn => if turn.all nativeTurnSchema then restoreTurn p turn else p
  | .selection selection =>
    if nativeSelectionEvidenceSchema selection then { p with nativeSelection := some selection }
    else p
  | .unavailable reason => unavailable p reason

/-- The requests that wait for an answer after the call. -/
@[grind =]
def stillUnsettled (d : Desk) : Call → List NativePendingRequest
  | .request r =>
    match received b d.shown r with
    | none => d.unsettled
    | some pending =>
      if d.unsettled.any fun known => known.rpcId = pending.rpcId then d.unsettled
      else d.unsettled ++ [pending]
  | .submit requestId =>
    match findRequest d.shown.pendingRequests requestId with
    | none => d.unsettled
    | some answered => d.unsettled.filter fun known => known.rpcId ≠ answered.rpcId
  | .event (.resolved threadId requestId) =>
    if threadId = d.shown.threadId then d.unsettled.filter fun known => known.rpcId ≠ requestId
    else d.unsettled
  | .event (.turn false threadId id _) =>
    if threadId = d.shown.threadId then d.unsettled.filter fun known => known.turnId ≠ id
    else d.unsettled
  | _ => d.unsettled

def take (d : Desk) (c : Call) : Option Desk :=
  some { shown := call b d.shown c, unsettled := stillUnsettled b d c }

/-- The ids and the start of a request are within the bounds of the snapshot. -/
def requestFits : CodexRpcRequest → Bool
  | .approval _ _ _ turnId itemId _ startedAtMs _ =>
    sized 1 256 turnId && sized 1 256 itemId && startedAtMs.all isDatetime
  | .userInput _ _ turnId itemId questions =>
    sized 1 256 turnId && sized 1 256 itemId && questions.all fun question =>
      sized 1 256 question.id
  | .other _ => true

/-- The list takes one more request without losing one that still waits. -/
def hasRoom (d : Desk) : Bool :=
  decide (d.shown.pendingRequests.length < maxPending) ||
    d.shown.pendingRequests.head?.all fun oldest => !(d.unsettled.contains oldest)

/-- What keeps the projection right: the provider's ids and statuses are within the bounds of the
snapshot, two requests are not published under one id, and the list has room. -/
@[grind =]
def fits (d : Desk) : Call → Bool
  | .event (.item _ threadId turnId item) =>
    threadId ≠ d.shown.threadId ||
      sized 1 256 turnId && sized 1 256 item.id && item.status.all (sized 0 64)
  | .event (.tokenUsage threadId turnId _) => threadId ≠ d.shown.threadId || sized 1 256 turnId
  | .event (.resolved threadId requestId) =>
    threadId ≠ d.shown.threadId || d.unsettled.all fun known =>
      known.requestId ≠ publicRequestId b requestId || known.rpcId = requestId
  | .request r =>
    match received b d.shown r with
    | none => true
    | some pending =>
      (d.unsettled.any fun known => known.rpcId = pending.rpcId) ||
        requestFits r && (accepted b d.shown r).isSome && hasRoom d
  | .unavailable reason => sized 0 256 reason
  | _ => true

end Ccmux.Agent.Codex.Owned
