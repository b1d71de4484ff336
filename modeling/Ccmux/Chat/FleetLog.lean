/- Module: Ccmux/Chat/FleetLog
   source: src/chat/fleetLog.ts (rowFromLedgerRecord, rowFromOutbound), src/chat/feedSchema.ts
   digest: A ledger record and an attempt to send, each as one row of the log. -/

import Ccmux.Fleet.Outbox

namespace Ccmux.Chat.FleetLog

open Ccmux.Chat.Envelope
open Ccmux.Chat.Identity
open Ccmux.Chat.Message (MessageOrigin NotificationAudience unknownMessageOrigin)
open Ccmux.Fleet.Outbox

inductive RowKind where
  | chat | sent
  deriving DecidableEq, Repr

/-- One row of the log; `sender` and `target` are peers, `origin` and the labels are for display. -/
structure LogRow where
  messageId : Option String
  sender : Option ChatPrincipal
  target : Option ChatTarget
  origin : MessageOrigin
  communicationAuthorization : Option CommunicationAuthorization
  communicationReceipt : Option CommunicationReceipt
  notification : NotificationAudience
  registrationGeneration : Option String
  machine : String
  ts : String
  kind : RowKind
  senderLabel : String
  targetLabel : String
  task : Option String
  body : String
  note : String
  deriving DecidableEq

/-- What the rows of a letter have in common. -/
def rowOf (machine ts : String) (kind : RowKind) (note : String) (letter : Envelope) : LogRow :=
  { messageId := some letter.id
    sender := some letter.sender
    target := some letter.target
    origin := letter.origin.getD unknownMessageOrigin
    communicationAuthorization := letter.communicationAuthorization
    communicationReceipt := letter.communicationReceipt
    notification := letter.notification.getD .conversation
    registrationGeneration := letter.registrationGeneration
    machine := machine
    ts := ts
    kind := kind
    senderLabel := principalLabel letter.sender
    targetLabel := Identity.targetLabel letter.target
    task := letter.task
    body := letter.body
    note := note }

/-- A record this build cannot read still happened, so it becomes a row saying so. -/
def rowFromLedgerRecord (machine : String) : Option Envelope → LogRow
  | none =>
    { messageId := none
      sender := none
      target := none
      origin := unknownMessageOrigin
      communicationAuthorization := none
      communicationReceipt := none
      notification := .conversation
      registrationGeneration := none
      machine := machine
      ts := ""
      kind := .chat
      senderLabel := "?"
      targetLabel := "?"
      task := none
      body := "(a record this ccmux cannot read — written by a newer build)"
      note := "" }
  | some msg => rowOf machine msg.ts .chat "" msg

/-- What is said of an attempt: nothing when it was accepted, or that a retry sent it, or why not. -/
def outboundNote (o : Outbound) (settled : String → Bool) : String :=
  if o.result.ok then ""
  else if settled (outboundId o) then "sent later, on retry"
  else "NOT SENT — " ++ (if o.result.detail = "" then "unknown error" else o.result.detail)

def rowFromOutbound (machine : String) (o : Outbound) (settled : String → Bool) : LogRow :=
  rowOf machine (outboundTimestamp o) .sent (outboundNote o settled) o.envelope

@[simp] theorem rowFromLedgerRecord_kind (machine : String) (record : Option Envelope) :
    (rowFromLedgerRecord machine record).kind = .chat := by
  cases record <;> rfl

@[simp] theorem rowFromOutbound_kind (machine : String) (o : Outbound) (settled : String → Bool) :
    (rowFromOutbound machine o settled).kind = .sent := rfl

end Ccmux.Chat.FleetLog
