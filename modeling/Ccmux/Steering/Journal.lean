/- Module: Ccmux/Steering/Journal
   source: src/steering/schema.ts, src/steering/store.ts, src/steering/receipt.ts,
     src/agent/codex/owned/receipt.ts
   digest: The journal of steering operations, and the evidence that settles an uncertain one. -/

import Ccmux.Chat.Identity
import Ccmux.Lib.Amend

namespace Ccmux.Steering

open Ccmux.Chat.Identity (ManagedPeer ChatPrincipal chatPrincipalKey)
open Ccmux.Lib.Amend (amendFirst amendFirst_some amendFirst_map)

abbrev Instant := Nat

/-- `STEERING_LIMITS` -/
def maxOperations : Nat := 256

def journalBytes : Nat := 256 * 1024

structure AttachmentReference where
  id : String
  digest : String
  mediaType : String
  bytes : Nat
  width : Nat
  height : Nat
  deriving DecidableEq, Repr

structure SteeringSelector where
  target : ManagedPeer
  registrationGeneration : String
  operationId : String
  deriving DecidableEq, Repr

structure SteeringInput extends SteeringSelector where
  generation : String
  expectedTurnId : String
  body : String := ""
  images : List AttachmentReference := []
  deriving DecidableEq, Repr

inductive ReceiptState where
  | submitted | uncertain
  deriving DecidableEq, Repr

structure SteeringReceipt where
  operationId : String
  target : ManagedPeer
  registrationGeneration : String
  generation : String
  turnId : String
  clientUserMessageId : String
  state : ReceiptState
  observedAt : Instant
  deriving DecidableEq, Repr

inductive Phase where
  | intent | submitted | uncertain
  deriving DecidableEq, Repr

/-- What the digest of a request is taken over: the key of its principal and the whole input. -/
abbrev Fingerprint := String × SteeringInput

structure SteeringOperation where
  fingerprint : Fingerprint
  principal : String
  phase : Phase
  receipt : SteeringReceipt
  reason : Option String
  deriving DecidableEq, Repr

structure SteeringJournal where
  registration : String
  threadId : String
  operations : List SteeringOperation
  deriving DecidableEq, Repr

/-- The registration of a session, as the caller's `steeringTarget` reads it. -/
structure Session where
  registrationGeneration : String
  uuid : String
  deriving DecidableEq, Repr

inductive SteeringFailure where
  | idempotencyConflict | identityMismatch | capacity | busy | unsupported | unavailable
  | steeringUnavailable
  deriving DecidableEq, Repr

def steeringFingerprint (principal : ChatPrincipal) (input : SteeringInput) : Fingerprint :=
  (chatPrincipalKey principal, input)

/-- A journal that is not there is an empty one; a journal of another registration is none. -/
def readSteeringJournal (file : Option SteeringJournal) (s : Session) : Option SteeringJournal :=
  let value := file.getD
    { registration := s.registrationGeneration, threadId := s.uuid, operations := [] }
  if value.registration ≠ s.registrationGeneration ∨ value.threadId ≠ s.uuid then none
  else some value

/-- What `writeSteeringJournal` checks before it writes; `jsonBytes` is the length of the text. -/
def writable (jsonBytes : SteeringJournal → Nat) (journal : SteeringJournal) : Bool :=
  journal.operations.length ≤ maxOperations && jsonBytes journal ≤ journalBytes

def SteeringOperation.id (row : SteeringOperation) : String := row.receipt.operationId

def SteeringJournal.ids (journal : SteeringJournal) : List String := journal.operations.map (·.id)

/-- `journal.operations.find` -/
def SteeringJournal.find (journal : SteeringJournal) (operationId : String) :
    Option SteeringOperation :=
  journal.operations.find? fun row => row.id == operationId

/-- The prior operation of the id, refused to another principal and to another payload. -/
def priorSteering (journal : SteeringJournal) (principal : ChatPrincipal) (operationId : String)
    (fingerprint : Option Fingerprint) : Except SteeringFailure (Option SteeringOperation) :=
  match journal.find operationId with
  | none => .ok none
  | some prior =>
    if prior.principal ≠ chatPrincipalKey principal ∨
        fingerprint.any (fun own => prior.fingerprint ≠ own) then
      .error .idempotencyConflict
    else .ok (some prior)

/-- One item of a turn in `thread/turns/list`. -/
structure NativeItem where
  type : String
  clientId : Option String
  deriving DecidableEq, Repr

structure NativeTurn where
  id : String
  items : List NativeItem
  deriving DecidableEq, Repr

/-- The turn's user message was sent under the client's id. -/
def NativeTurn.holds (turn : NativeTurn) (messageId : String) : Bool :=
  turn.items.any fun item => item.type == "userMessage" && item.clientId == some messageId

def findOwnedCodexReceipt (page : List NativeTurn) (messageId : String) : Option NativeTurn :=
  page.find? fun turn => turn.holds messageId

/-- `found?.id === operation.receipt.turnId`, over a page that may be absent. -/
def acceptedBy (page : Option (List NativeTurn)) (receipt : SteeringReceipt) : Bool :=
  (page.bind fun turns => findOwnedCodexReceipt turns receipt.clientUserMessageId).any
    fun turn => turn.id == receipt.turnId

/-- The operation after it was settled one way or the other, at the given instant. -/
def SteeringOperation.settled (accepted : Bool) (now : Instant) (operation : SteeringOperation) :
    SteeringOperation :=
  { operation with
    phase := if accepted then .submitted else .uncertain
    reason := if accepted then none else some "native-acceptance-unresolved"
    receipt := { operation.receipt with
      state := if accepted then .submitted else .uncertain
      observedAt := now } }

/-- The journal in memory after its operation of the id was settled. -/
def SteeringJournal.settle (journal : SteeringJournal) (operationId : String) (accepted : Bool)
    (now : Instant) : SteeringJournal :=
  { journal with
    operations := amendFirst (fun row => row.id == operationId) (·.settled accepted now)
      journal.operations }

def SteeringJournal.push (journal : SteeringJournal) (operation : SteeringOperation) :
    SteeringJournal :=
  { journal with operations := journal.operations ++ [operation] }

section
variable {journal : SteeringJournal} {operation row prior : SteeringOperation}
variable {principal : ChatPrincipal} {operationId : String} {fingerprint : Option Fingerprint}
variable {file : Option SteeringJournal} {s : Session}

theorem readSteeringJournal_some (h : readSteeringJournal file s = some journal) :
    (file = some journal ∨ file = none ∧ journal.operations = []) ∧
      journal.registration = s.registrationGeneration := by
  unfold readSteeringJournal at h
  dsimp only at h
  split at h
  · cases h
  · rename_i hsame
    rw [not_or, not_not, not_not] at hsame
    obtain rfl := Option.some.inj h
    refine ⟨?_, hsame.1⟩
    cases file with
    | none => exact .inr ⟨rfl, rfl⟩
    | some value => exact .inl rfl

theorem find_some (h : journal.find operationId = some row) :
    row ∈ journal.operations ∧ row.id = operationId := by
  have hid := List.find?_some h
  exact ⟨List.mem_of_find?_eq_some h, by simpa using hid⟩

theorem find_none (h : journal.find operationId = none) : operationId ∉ journal.ids := by
  intro hmem
  obtain ⟨row, hrow, hid⟩ := List.mem_map.mp hmem
  have hother := List.find?_eq_none.mp h row hrow
  simp [hid] at hother

theorem eq_of_id (hunique : journal.ids.Nodup) (hrow : row ∈ journal.operations)
    (hprior : prior ∈ journal.operations) (hid : row.id = prior.id) : row = prior :=
  List.inj_on_of_nodup_map hunique hrow hprior hid

theorem find_eq (hunique : journal.ids.Nodup) (hrow : row ∈ journal.operations) :
    journal.find row.id = some row := by
  cases hfind : journal.find row.id with
  | none => exact absurd (List.mem_map_of_mem hrow) (find_none hfind)
  | some prior =>
    obtain ⟨hprior, hid⟩ := find_some hfind
    rw [eq_of_id hunique hprior hrow hid]

theorem priorSteering_ok (h : priorSteering journal principal operationId fingerprint = .ok none) :
    operationId ∉ journal.ids := by
  unfold priorSteering at h
  split at h
  · rename_i hfind
    exact find_none hfind
  · split at h <;> cases h

theorem priorSteering_some
    (h : priorSteering journal principal operationId fingerprint = .ok (some prior)) :
    journal.find operationId = some prior ∧ prior.principal = chatPrincipalKey principal ∧
      ∀ own, fingerprint = some own → prior.fingerprint = own := by
  unfold priorSteering at h
  split at h
  · cases h
  · rename_i found hfind
    split at h
    · cases h
    · rename_i hmatch
      rw [not_or, not_not] at hmatch
      cases h
      refine ⟨hfind, hmatch.1, ?_⟩
      rintro own rfl
      simpa using hmatch.2

theorem push_ids : (journal.push operation).ids = journal.ids ++ [operation.id] := by
  simp [SteeringJournal.push, SteeringJournal.ids]

variable {accepted : Bool} {now : Instant}

theorem settle_ids :
    (journal.settle operationId accepted now).ids = journal.ids :=
  amendFirst_map fun _ => rfl

/-- The settled journal holds the other operations as they were, and the settled one. -/
theorem mem_settle (hunique : journal.ids.Nodup)
    (hfind : journal.find operationId = some operation) :
    row ∈ (journal.settle operationId accepted now).operations ↔
      row = operation.settled accepted now ∨ row ∈ journal.operations ∧ row ≠ operation := by
  obtain ⟨_, pre, post, hsplit, hamend⟩ :=
    @amendFirst_some _ _ (·.settled accepted now) _ _ hfind
  have hnodup : journal.operations.Nodup := List.Nodup.of_map _ hunique
  rw [hsplit] at hnodup
  have happart : operation ∉ pre ∧ operation ∉ post := by
    rw [List.nodup_append, List.nodup_cons] at hnodup
    exact ⟨fun hmem => hnodup.2.2 _ hmem _ List.mem_cons_self rfl, hnodup.2.1.1⟩
  unfold SteeringJournal.settle
  dsimp only
  rw [hamend, hsplit]
  simp only [List.mem_append, List.mem_cons]
  constructor
  · rintro (hmem | rfl | hmem)
    · exact .inr ⟨.inl hmem, fun hsame => happart.1 (hsame ▸ hmem)⟩
    · exact .inl rfl
    · exact .inr ⟨.inr (.inr hmem), fun hsame => happart.2 (hsame ▸ hmem)⟩
  · rintro (rfl | ⟨hmem | rfl | hmem, hother⟩)
    · exact .inr (.inl rfl)
    · exact .inl hmem
    · exact absurd rfl hother
    · exact .inr (.inr hmem)

end

end Ccmux.Steering
