/- Module: Ccmux/Chat/MessageOperation
   source: src/chat/messageOperationStore.ts (advanceMessageOperation)
   digest: The journal of public message receipts, advanced along native admission. -/

import Ccmux.Chat.Message

namespace Ccmux.Chat.MessageOperation

inductive OperationPhase where
  | preparing | queued | uncertain | admitted | completed | interrupted | failed
  deriving DecidableEq, Repr

def OperationPhase.terminal : OperationPhase → Bool
  | .completed | .interrupted | .failed => true
  | _ => false

structure MessageOperationRecord where
  messageId : String
  principal : String
  fingerprint : String
  phase : OperationPhase
  turnId : Option String
  observedAt : Int
  expiresAt : Option Int
  deriving DecidableEq, Repr

/-- `MESSAGE_OPERATION_LIMITS.terminalTtlMs`. -/
def terminalTtlMs : Int := 7 * 24 * 60 * 60 * 1000

abbrev MessageOperationJournal := List MessageOperationRecord

/-- `messageOperationFailure` is `none`; a request that changes nothing gives the journal back. -/
def advanceMessageOperation (journal : MessageOperationJournal) (messageId : String)
    (phase : OperationPhase) (turnId : Option String) (now : Int) :
    Option MessageOperationJournal :=
  match journal.find? fun record => record.messageId == messageId with
  | none => some journal
  | some record =>
    if record.turnId.isSome ∧ turnId.isSome ∧ record.turnId ≠ turnId then none
    else if turnId.isSome ∧
        journal.any fun other => other.messageId != messageId && other.turnId == turnId then none
    else if record.expiresAt.isSome then some journal
    else if phase = .queued ∧ record.phase ≠ .preparing then some journal
    else if phase = .uncertain ∧ record.turnId.isSome then some journal
    else if phase = .admitted ∧ turnId = none then none
    else if phase.terminal ∧ turnId = none then none
    else if record.phase = phase ∧ (turnId = none ∨ record.turnId = turnId) then some journal
    else
      let advanced := { record with
        phase
        turnId := turnId.or record.turnId
        observedAt := now
        expiresAt := if phase.terminal then some (now + terminalTtlMs) else none }
      some (journal.map fun other => if other.messageId == messageId then advanced else other)

end Ccmux.Chat.MessageOperation
