/- Module: Ccmux/Chat/Undeliverable
   source: src/chat/undeliverable.ts (settleUndeliverable), src/chat/store.ts (deliverableTargets)
   digest: The pass that settles mail to sessions that are gone, between the writes of others. -/

import Ccmux.Chat.Cursors
import Ccmux.Chat.Settlement
import Ccmux.Lib.Machine

namespace Ccmux.Chat.Undeliverable

open Ccmux.Chat.Cursors (furthest saveCursors markRead)
open Ccmux.Chat.Identity (chatTargetKey)
open Ccmux.Chat.Message
open Ccmux.Chat.Settlement (isConditional letterState)

/-- `mtimeMs:size` of a file; `none` is `absent`. -/
structure Stamp where
  mtime : Nat
  size : Nat
  deriving DecidableEq, Repr

def isManaged (msg : ChatMessage) : Bool :=
  match msg.target with
  | .managed _ => true
  | _ => false

def settles (live : Finset String) (acks : AckLog) (cursors : ChatCursors) (index : Nat)
    (msg : ChatMessage) : Bool :=
  isManaged msg && decide (chatTargetKey msg.target ∉ live) &&
    decide (letterState msg index (loadAcks acks) cursors.delivered cursors.telegram = .pending)

/-- The letters a pass settles, with their positions. -/
def settledLetters (live : Finset String) (ledger : Ledger) (acks : AckLog)
    (cursors : ChatCursors) : List (Nat × ChatMessage) :=
  ledger.zipIdx.filterMap fun (slot, index) =>
    (slot.filter (settles live acks cursors index)).map fun msg => (index, msg)

def ackRows (settled : List (Nat × ChatMessage)) : List AckRow :=
  (settled.filter fun p => isConditional p.2).map fun p => ⟨p.2.id, .undeliverable⟩

/-- `advanced.set(key, Math.max(advanced.get(key) ?? 0, index + 1))` for the immediate ones. -/
def advanced (settled : List (Nat × ChatMessage)) : String → Option Nat :=
  settled.foldl
    (fun record p =>
      if isConditional p.2 then record
      else
        let key := chatTargetKey p.2.target
        assign record key (some (max (position record key) (p.1 + 1))))
    fun _ => none

/-- A pass between its reads and the end of its writes. -/
structure Settling where
  live : Finset String
  cursors : ChatCursors
  rows : List AckRow
  moved : Bool

inductive Phase where
  | idle
  | looking
  | registryRead (live : Finset String)
  | ledgerRead (live : Finset String) (ledger : Ledger)
  | acksRead (live : Finset String) (ledger : Ledger) (acks : AckLog)
  | settling (s : Settling)
  | closing
  | ledgerStamped (stamp : Option Stamp)

/-- The four files with the stamps of two, what the last completed pass saw, and the pass. -/
structure World where
  ledger : Ledger
  ledgerStamp : Option Stamp
  live : Finset String
  registryStamp : Option Stamp
  acks : AckLog
  cursors : ChatCursors
  lastPass : Option (Option Stamp × Option Stamp)
  pass : Phase

def World.start (live : Finset String) (registryStamp : Option Stamp) : World :=
  { ledger := []
    ledgerStamp := none
    live := live
    registryStamp := registryStamp
    acks := []
    cursors := ChatCursors.empty
    lastPass := none
    pass := .idle }

/-- The loop over what was read: the rows to append and the cursors to save. -/
@[grind =]
def settle (live : Finset String) (ledger : Ledger) (acks : AckLog) (cursors : ChatCursors) :
    Settling :=
  let settled := settledLetters live ledger acks cursors
  { live := live
    cursors := { cursors with delivered := furthest cursors.delivered (advanced settled) }
    rows := ackRows settled
    moved := settled.any fun p => !isConditional p.2 }

/-- Other processes append letters, rewrite the registry, ack and read mail; between passes mail is
delivered; and the pass takes its steps, or throws. -/
inductive Event where
  | append (slots : Ledger) (mtime bytes : Nat)
  | register (live : Finset String) (stamp : Option Stamp)
  | ack (rows : AckLog)
  | inbox (recipientKey : String) (ledgerLen : Nat)
  | deliver (moved : String → Option Nat) (pickups : String → Option Pickup) (telegram : Option Nat)
  | look
  | readRegistry
  | readLedger
  | readAcks
  | readCursors
  | appendAck
  | save
  | stampLedger
  | stampRegistry
  | fail

def messageIds (ledger : Ledger) : List String :=
  ledger.filterMap fun slot => slot.map ChatMessage.id

def sizeOf (stamp : Option Stamp) : Nat := (stamp.map Stamp.size).getD 0

/-- Ids are unique per message, an append makes the file longer, and a delivery never moves a
recipient back. -/
@[grind =]
def step (w : World) : Event → Option World
  | .append slots mtime bytes =>
    if (messageIds (w.ledger ++ slots)).Nodup ∧ 0 < bytes then
      some
        { w with
          ledger := w.ledger ++ slots
          ledgerStamp := some ⟨mtime, sizeOf w.ledgerStamp + bytes⟩ }
    else none
  | .register live stamp => some { w with live := live, registryStamp := stamp }
  | .ack rows => some { w with acks := w.acks ++ rows }
  | .inbox recipientKey ledgerLen =>
    some { w with cursors := markRead w.cursors recipientKey ledgerLen }
  | .deliver moved pickups telegram =>
    match w.pass with
    | .idle =>
      let delivered := furthest w.cursors.delivered moved
      some { w with cursors := ⟨w.cursors.read, delivered, pickups, telegram⟩ }
    | _ => none
  | .look =>
    match w.pass with
    | .idle =>
      if w.lastPass = some (w.ledgerStamp, w.registryStamp) then some w
      else some { w with pass := .looking }
    | _ => none
  | .readRegistry =>
    match w.pass with
    | .looking => some { w with pass := .registryRead w.live }
    | _ => none
  | .readLedger =>
    match w.pass with
    | .registryRead live => some { w with pass := .ledgerRead live w.ledger }
    | _ => none
  | .readAcks =>
    match w.pass with
    | .ledgerRead live ledger => some { w with pass := .acksRead live ledger w.acks }
    | _ => none
  | .readCursors =>
    match w.pass with
    | .acksRead live ledger acks =>
      some { w with pass := .settling (settle live ledger acks w.cursors) }
    | _ => none
  | .appendAck =>
    match w.pass with
    | .settling s =>
      match s.rows with
      | row :: rest =>
        some { w with acks := w.acks ++ [row], pass := .settling { s with rows := rest } }
      | [] => none
    | _ => none
  | .save =>
    match w.pass with
    | .settling s =>
      match s.rows with
      | _ :: _ => none
      | [] =>
        some
          { w with
            cursors := if s.moved then saveCursors w.cursors s.cursors else w.cursors
            pass := .closing }
    | _ => none
  | .stampLedger =>
    match w.pass with
    | .closing => some { w with pass := .ledgerStamped w.ledgerStamp }
    | _ => none
  | .stampRegistry =>
    match w.pass with
    | .ledgerStamped stamp =>
      some { w with lastPass := some (stamp, w.registryStamp), pass := .idle }
    | _ => none
  | .fail => some { w with pass := .idle }

end Ccmux.Chat.Undeliverable
