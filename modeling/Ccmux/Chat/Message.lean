/- Module: Ccmux/Chat/Message
   source: src/chat/messageSchema.ts, src/chat/originSchema.ts, src/chat/ackLog.ts
   digest: The ledger envelope, a ledger slot, the delivery cursors and the ack log. -/

import Mathlib
import Ccmux.Chat.Identity

namespace Ccmux.Chat.Message

open Ccmux.Chat.Identity (ChatPrincipal ChatTarget)

inductive Ingress where
  | cli | localControl | service | managed | codexApp | unknown
  deriving DecidableEq, Repr

inductive Actor where
  | human | agent | application | unknown
  deriving DecidableEq, Repr

inductive Assurance where
  | runtimeIdentity | applicationAttested | unknown
  deriving DecidableEq, Repr

structure Attribution where
  applicationId : String
  channelId : String
  deriving DecidableEq, Repr

structure MessageOrigin where
  ingress : Ingress
  actor : Actor
  assurance : Assurance
  application : Option Attribution
  deriving DecidableEq, Repr

/-- Missing historical evidence is not permission to infer an author. -/
def unknownMessageOrigin : MessageOrigin := ⟨.unknown, .unknown, .unknown, none⟩

inductive NotificationAudience where
  | conversation | owner
  deriving DecidableEq, Repr

structure AttachmentReference where
  id : String
  digest : String
  mediaType : String
  bytes : Nat
  width : Nat
  height : Nat
  deriving DecidableEq, Repr

structure NativeModelSelection where
  provider : String
  model : String
  deriving DecidableEq, Repr

inductive NativeTurnOptions where
  | custom (model : NativeModelSelection)
  | claude (model : NativeModelSelection) (effort : Option String)
  | codex (model : NativeModelSelection) (planMode : Bool) (effort : Option String)
  | opencode (model : NativeModelSelection) (agent variant : Option String)
  deriving DecidableEq, Repr

structure AcceptedTurnOptions where
  revision : Nat
  options : NativeTurnOptions
  deriving DecidableEq, Repr

/-- One immutable chat envelope; `sender` and `target` are the record's `from` and `to`. -/
structure ChatMessage where
  id : String
  ts : String
  sender : ChatPrincipal
  target : ChatTarget
  origin : Option MessageOrigin := none
  notification : Option NotificationAudience := none
  body : String
  task : Option String := none
  defer : Bool
  onBehalfOf : Option String := none
  notBefore : Option String := none
  turnOptions : Option AcceptedTurnOptions := none
  images : Option (List AttachmentReference) := none
  deriving DecidableEq, Repr

/-- One position in the ledger; `none` is a record this build cannot read, kept as a hole. -/
abbrev LedgerSlot := Option ChatMessage

/-- The append-only ledger: delivery cursors are positions in this list. -/
abbrev Ledger := List LedgerSlot

/-- The letter at a position, when the position exists and can be read. -/
def Ledger.letter (ledger : Ledger) (idx : Nat) : Option ChatMessage := ledger[idx]?.join

variable {ledger : Ledger} {idx : Nat} {msg : ChatMessage}

theorem Ledger.letter_eq_some :
    ledger.letter idx = some msg ↔ ledger[idx]? = some (some msg) := by
  simp [Ledger.letter, Option.join_eq_some_iff]

theorem Ledger.letter_lt (h : ledger.letter idx = some msg) : idx < ledger.length := by
  obtain ⟨hlt, _⟩ := List.getElem?_eq_some_iff.mp ((Ledger.letter_eq_some).mp h)
  exact hlt

theorem Ledger.letter_append_left (more : Ledger)
    (h : idx < ledger.length) : (ledger ++ more : Ledger).letter idx = ledger.letter idx := by
  simp [Ledger.letter, List.getElem?_append_left h]

theorem Ledger.letter_append (more : Ledger)
    (h : ledger.letter idx = some msg) : (ledger ++ more : Ledger).letter idx = some msg := by
  rw [Ledger.letter_append_left more (Ledger.letter_lt h), h]

inductive NativePhase where
  | intent | accepted
  deriving DecidableEq, Repr

structure NativePickup where
  phase : NativePhase
  turnId : Option String
  deriving DecidableEq, Repr

/-- The exact letter a recipient is being handed, persisted before its submission. -/
structure Pickup where
  messageId : String
  injectedAt : Int
  ledgerIndex : Option Nat
  conditional : Bool
  transcriptLine : Option Nat := none
  native : Option NativePickup := none
  deriving DecidableEq, Repr

/-- The cursors file; an absent key of a record is `none`. -/
structure ChatCursors where
  read : String → Option Nat
  delivered : String → Option Nat
  pickups : String → Option Pickup
  telegram : Option Nat

/-- `ChatCursorsSchema.parse({})`. -/
def ChatCursors.empty : ChatCursors := ⟨fun _ => none, fun _ => none, fun _ => none, none⟩

/-- `record[key] ?? 0`. -/
def position (record : String → Option Nat) (key : String) : Nat := (record key).getD 0

/-- `record[key] = value`. -/
def assign {α : Type} (record : String → Option α) (key : String) (value : Option α) :
    String → Option α :=
  fun other => if other = key then value else record other

@[simp] theorem assign_self {α : Type} (record : String → Option α) (key : String)
    (value : Option α) : assign record key value key = value := by
  simp [assign]

theorem assign_of_ne {α : Type} (record : String → Option α) {key other : String}
    (value : Option α) (h : other ≠ key) : assign record key value other = record other := by
  simp [assign, h]

@[simp] theorem position_assign_self (record : String → Option Nat) (key : String) (value : Nat) :
    position (assign record key (some value)) key = value := by
  simp [position]

/-- Which process resolved a conditional letter. -/
inductive AckBy where
  | hook | daemon | cancel | undeliverable
  deriving DecidableEq, Repr

inductive AckOutcome where
  | delivered | cancelled | undeliverable
  deriving DecidableEq, Repr

structure AckRow where
  id : String
  «by» : AckBy
  deriving DecidableEq, Repr

def AckRow.outcome (row : AckRow) : AckOutcome :=
  match row.by with
  | .cancel => .cancelled
  | .undeliverable => .undeliverable
  | _ => .delivered

abbrev AckLog := List AckRow

/-- Every acked id with what happened to it; a later row wins. -/
def loadAcks (log : AckLog) (id : String) : Option AckOutcome :=
  (log.reverse.find? fun row => row.id == id).map AckRow.outcome

/-- The ids already resolved, delivered or cancelled alike. -/
def loadAckedIds (log : AckLog) : Finset String := (log.map AckRow.id).toFinset

@[simp] theorem mem_loadAckedIds {log : AckLog} {id : String} :
    id ∈ loadAckedIds log ↔ ∃ row ∈ log, row.id = id := by
  simp [loadAckedIds]

theorem loadAckedIds_append (log more : AckLog) :
    loadAckedIds (log ++ more) = loadAckedIds log ∪ loadAckedIds more := by
  simp [loadAckedIds, List.toFinset_append]

theorem loadAckedIds_subset_append (log more : AckLog) :
    loadAckedIds log ⊆ loadAckedIds (log ++ more) := by
  rw [loadAckedIds_append]
  exact Finset.subset_union_left

theorem loadAcks_eq_none {log : AckLog} {id : String} :
    loadAcks log id = none ↔ id ∉ loadAckedIds log := by
  simp [loadAcks]

end Ccmux.Chat.Message
