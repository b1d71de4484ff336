/- Module: Ccmux/Chat/MessageOperationStore
   source: src/chat/messageOperationStore.ts, src/chat/messageOperationSchema.ts
   digest: The stored journal of message receipts: its schema, and the three calls that change it. -/

import Ccmux.Chat.Format
import Ccmux.Chat.MessageOperation

namespace Ccmux.Chat.MessageOperationStore

open Ccmux.Chat.Format (utf16Length)
open Ccmux.Chat.Identity (AgentKind ChatPrincipal chatPrincipalKey)
open Ccmux.Chat.MessageOperation (OperationPhase terminalTtlMs)

inductive Decision where
  | accept | decline
  deriving DecidableEq, Repr

structure NativeContinuation where
  requestId : String
  parentTurnId : String
  responseOperationId : String
  responseFingerprint : String
  turnId : String
  decision : Decision
  deriving DecidableEq, Repr

structure NativePendingApproval where
  requestId : String
  turnId : String
  callId : String
  deriving DecidableEq, Repr

/-- A message's binding to the native turn that carries it, and how long it is kept. -/
structure MessageOperationRecord where
  messageId : String
  principal : String
  fingerprint : String
  phase : OperationPhase
  turnId : Option String
  continuations : List NativeContinuation
  pendingApprovals : List NativePendingApproval
  observedAt : String
  expiresAt : Option String
  deriving DecidableEq, Repr

structure MessageOperationJournal where
  registrationGeneration : String
  runtime : AgentKind
  nativeId : String
  records : List MessageOperationRecord
  deriving DecidableEq, Repr

/-- `MESSAGE_OPERATION_LIMITS.records`. -/
def recordLimit : Nat := 256

/-- `MESSAGE_OPERATION_LIMITS.bytes`. -/
def byteLimit : Nat := 512 * 1024

/-- What is taken from the language and its validator. -/
structure Builtins where
  isUuid : String → Bool
  isHex64 : String → Bool
  isDatetime : String → Bool
  /-- `new Date(now).toISOString()`; `none` is a `RangeError`. -/
  toIso : Int → Option String
  /-- `Date.parse`; `none` is `NaN`. -/
  dateParse : String → Option Int
  sha256 : String → String
  /-- `Buffer.byteLength(JSON.stringify(journal))`. -/
  jsonBytes : MessageOperationJournal → Nat

/-- The part of a session the journal is bound to. -/
structure Owner where
  registrationGeneration : Option String
  runtime : AgentKind
  nativeId : Option String
  deriving DecidableEq, Repr

/-- What a call throws: its own refusals, a value the schema refuses, a clock no date can show, or
the disk. -/
inductive Failure where
  | evidenceUnavailable
  | capacity
  | invalid
  | invalidDate
  | disk
  deriving DecidableEq, Repr

/-- The code, text and status of the refusals that are the store's own. -/
def Failure.appError : Failure → Option (String × String × Nat)
  | .evidenceUnavailable =>
    some ("MESSAGE_EVIDENCE_UNAVAILABLE", "Message evidence is unavailable", 503)
  | .capacity => some ("CAPACITY", "Message evidence capacity reached", 429)
  | _ => none

/-- What becomes of a write: done, failed before the rename, or failed to sync after it. -/
inductive Disk where
  | written | failed | unsynced
  deriving DecidableEq, Repr

/-- What is stored after a call, and what the call threw. -/
structure Outcome where
  stored : Option MessageOperationJournal
  failure : Option Failure
  deriving DecidableEq, Repr

def bounded (text : String) : Bool := decide (1 ≤ utf16Length text) && decide (utf16Length text ≤ 256)

/-- The phases a record has before a native turn carries it. -/
def unbound : OperationPhase → Bool
  | .preparing | .queued | .uncertain => true
  | _ => false

section
variable (b : Builtins)

def NativeContinuation.valid (item : NativeContinuation) : Bool :=
  bounded item.requestId && bounded item.parentTurnId && b.isUuid item.responseOperationId &&
    b.isHex64 item.responseFingerprint && bounded item.turnId

def NativePendingApproval.valid (item : NativePendingApproval) : Bool :=
  bounded item.requestId && bounded item.turnId && bounded item.callId

/-- `MessageOperationRecordSchema`. -/
def MessageOperationRecord.valid (record : MessageOperationRecord) : Bool :=
  b.isUuid record.messageId && b.isHex64 record.principal && b.isHex64 record.fingerprint &&
    record.turnId.all bounded && record.continuations.all (NativeContinuation.valid b) &&
    decide (record.continuations.length ≤ 32) &&
    record.pendingApprovals.all NativePendingApproval.valid &&
    decide (record.pendingApprovals.length ≤ 16) && b.isDatetime record.observedAt &&
    record.expiresAt.all b.isDatetime && decide (unbound record.phase = record.turnId.isNone) &&
    decide (record.phase.terminal = record.expiresAt.isSome)

/-- `MessageOperationJournalSchema`. -/
def MessageOperationJournal.valid (journal : MessageOperationJournal) : Bool :=
  b.isUuid journal.registrationGeneration && bounded journal.nativeId &&
    journal.records.all (MessageOperationRecord.valid b) &&
    decide (journal.records.length ≤ recordLimit) &&
    decide (journal.records.map MessageOperationRecord.messageId).Nodup &&
    decide (journal.records.filterMap MessageOperationRecord.turnId).Nodup

def messagePrincipal (principal : ChatPrincipal) : String := b.sha256 (chatPrincipalKey principal)

/-- The journal of this owner, when there is one. -/
def readMessageJournal (stored : Option MessageOperationJournal) (s : Owner) :
    Except Failure (Option MessageOperationJournal) :=
  match stored with
  | none => .ok none
  | some journal =>
    if journal.valid b = false then .error .invalid
    else if some journal.registrationGeneration ≠ s.registrationGeneration ∨
        journal.runtime ≠ s.runtime ∨ some journal.nativeId ≠ s.nativeId then
      .error .evidenceUnavailable
    else .ok (some journal)

/-- The value is checked as it is written. -/
def write (stored : Option MessageOperationJournal) (disk : Disk)
    (journal : MessageOperationJournal) : Outcome :=
  if journal.valid b = false then ⟨stored, some .invalid⟩
  else if byteLimit < b.jsonBytes journal then ⟨stored, some .evidenceUnavailable⟩
  else
    match disk with
    | .written => ⟨some journal, none⟩
    | .failed => ⟨stored, some .disk⟩
    | .unsynced => ⟨some journal, some .disk⟩

/-- `MessageOperationJournalSchema.parse` of a journal without records. -/
def freshJournal (s : Owner) : Except Failure MessageOperationJournal :=
  match s.registrationGeneration, s.nativeId with
  | some generation, some id =>
    let journal : MessageOperationJournal := ⟨generation, s.runtime, id, []⟩
    if journal.valid b then .ok journal else .error .invalid
  | _, _ => .error .invalid

/-- A record is kept until its deadline has passed. -/
def kept (now : Int) (record : MessageOperationRecord) : Bool :=
  match record.expiresAt with
  | none => true
  | some deadline => (b.dateParse deadline).any fun at_ => decide (now < at_)

/-- The first record with a deadline, taken out. -/
def evictFirst : List MessageOperationRecord → Option (List MessageOperationRecord)
  | [] => none
  | record :: rest =>
    if record.expiresAt.isSome then some rest else (evictFirst rest).map (record :: ·)

/-- Room for one more record; `none` when every one is still running. -/
def makeRoom (now : Int) (records : List MessageOperationRecord) :
    Option (List MessageOperationRecord) :=
  let current := records.filter (kept b now)
  if recordLimit ≤ current.length then evictFirst current else some current

def preparedRecord (sender : ChatPrincipal) (messageId fingerprint observedAt : String) :
    MessageOperationRecord :=
  { messageId := messageId
    principal := messagePrincipal b sender
    fingerprint := fingerprint
    phase := .preparing
    turnId := none
    continuations := []
    pendingApprovals := []
    observedAt := observedAt
    expiresAt := none }

/-- A journal that was not there starts empty. -/
def journalOr (s : Owner) : Except Failure (Option MessageOperationJournal) →
    Except Failure MessageOperationJournal
  | .error f => .error f
  | .ok (some journal) => .ok journal
  | .ok none => freshJournal b s

def prepareMessageOperation (stored : Option MessageOperationJournal) (disk : Disk) (s : Owner)
    (sender : ChatPrincipal) (messageId fingerprint : String) (now : Int) : Outcome :=
  match journalOr b s (readMessageJournal b stored s) with
  | .error f => ⟨stored, some f⟩
  | .ok journal =>
    match journal.records.find? fun record => record.messageId == messageId with
    | some prior =>
      if prior.principal ≠ messagePrincipal b sender ∨ prior.fingerprint ≠ fingerprint then
        ⟨stored, some .evidenceUnavailable⟩
      else ⟨stored, none⟩
    | none =>
      match makeRoom b now journal.records with
      | none => ⟨stored, some .capacity⟩
      | some records =>
        match b.toIso now with
        | none => ⟨stored, some .invalidDate⟩
        | some observedAt =>
          let added := preparedRecord b sender messageId fingerprint observedAt
          write b stored disk { journal with records := records ++ [added] }

/-- `record` in the place of the one with its message id. -/
def replaceRecord (records : List MessageOperationRecord) (record : MessageOperationRecord) :
    List MessageOperationRecord :=
  records.map fun other => if other.messageId = record.messageId then record else other

/-- The turns a chain of continuations goes through; `none` where a link does not follow. -/
def continuationTurns : List String → List NativeContinuation → Option (List String)
  | parents, [] => some parents
  | parents, item :: rest =>
    if item.parentTurnId ∉ parents ∨ item.turnId ∈ parents then none
    else continuationTurns (item.turnId :: parents) rest

def projectMessageContinuation (stored : Option MessageOperationJournal) (disk : Disk) (s : Owner)
    (messageId : String) (continuations : List NativeContinuation)
    (pendingApprovals : List NativePendingApproval) (now : Int) : Outcome :=
  match readMessageJournal b stored s with
  | .error f => ⟨stored, some f⟩
  | .ok none => ⟨stored, none⟩
  | .ok (some journal) =>
    match journal.records.find? fun record => record.messageId == messageId with
    | none => ⟨stored, none⟩
    | some record =>
      if record.expiresAt.isSome then ⟨stored, none⟩
      else
        match record.turnId with
        | none => ⟨stored, some .evidenceUnavailable⟩
        | some turnId =>
          match continuationTurns [turnId] continuations with
          | none => ⟨stored, some .evidenceUnavailable⟩
          | some parents =>
            if continuations.take record.continuations.length ≠ record.continuations then
              ⟨stored, some .evidenceUnavailable⟩
            else if pendingApprovals.any fun approval => decide (approval.turnId ∉ parents) then
              ⟨stored, some .evidenceUnavailable⟩
            else
              match b.toIso now with
              | none => ⟨stored, some .invalidDate⟩
              | some observedAt =>
                let projected : MessageOperationRecord :=
                  { record with
                    continuations := continuations
                    pendingApprovals := pendingApprovals
                    observedAt := observedAt }
                write b stored disk
                  { journal with records := replaceRecord journal.records projected }

/-- When the record stops being kept; `none` is a clock no date can show. -/
def deadline (phase : OperationPhase) (now : Int) : Option (Option String) :=
  if phase.terminal then (b.toIso (now + terminalTtlMs)).map some else some none

def advanceMessageOperation (stored : Option MessageOperationJournal) (disk : Disk) (s : Owner)
    (messageId : String) (phase : OperationPhase) (turnId : Option String) (now : Int) : Outcome :=
  match readMessageJournal b stored s with
  | .error f => ⟨stored, some f⟩
  | .ok none => ⟨stored, none⟩
  | .ok (some journal) =>
    match journal.records.find? fun record => record.messageId == messageId with
    | none => ⟨stored, none⟩
    | some record =>
      if record.turnId.isSome ∧ turnId.isSome ∧ record.turnId ≠ turnId then
        ⟨stored, some .evidenceUnavailable⟩
      else if turnId.isSome ∧ (journal.records.any fun item =>
          item.messageId != messageId && item.turnId == turnId) then
        ⟨stored, some .evidenceUnavailable⟩
      else if record.expiresAt.isSome then ⟨stored, none⟩
      else if phase = .queued ∧ record.phase ≠ .preparing then ⟨stored, none⟩
      else if phase = .uncertain ∧ record.turnId.isSome then ⟨stored, none⟩
      else if phase = .admitted ∧ turnId = none then ⟨stored, some .evidenceUnavailable⟩
      else if phase.terminal ∧ turnId = none then ⟨stored, some .evidenceUnavailable⟩
      else if record.phase = phase ∧ (turnId = none ∨ record.turnId = turnId) then ⟨stored, none⟩
      else
        match b.toIso now, deadline b phase now with
        | some observedAt, some expiresAt =>
          let advanced : MessageOperationRecord :=
            { record with
              phase := phase
              turnId := turnId.or record.turnId
              observedAt := observedAt
              expiresAt := expiresAt }
          write b stored disk { journal with records := replaceRecord journal.records advanced }
        | _, _ => ⟨stored, some .invalidDate⟩

end

end Ccmux.Chat.MessageOperationStore
