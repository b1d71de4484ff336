/- Module: Ccmux/Runtime/Response
   source: src/runtime/response.ts, src/control/nativeFeed.ts
   digest: Answering a runtime's approval or input request through a command and a receipt file. -/

import Ccmux.Runtime.Mailbox

namespace Ccmux.Runtime.Response

open Ccmux.Runtime.Mailbox (AppError)

inductive RequestKind where
  | approval | input
  deriving DecidableEq, Repr

inductive Decision where
  | accept | acceptForSession | decline | cancel
  deriving DecidableEq, Repr

abbrev Answers := List (String × List String)

structure NativeQuestion where
  id : String
  isOther : Bool
  options : Option (List String)
  multiple : Option Bool := none
  deriving DecidableEq, Repr

/-- The part of a pending request that an answer is judged by; an option is its label. -/
structure NativePendingRequest where
  requestId : String
  kind : RequestKind
  decisions : List Decision := []
  questions : List NativeQuestion := []
  deriving DecidableEq, Repr

/-- What the caller of the control plane answers. -/
structure ResponseInput where
  operationId : String
  generation : String
  requestId : String
  kind : RequestKind
  decision : Option Decision
  answers : Option Answers
  deriving DecidableEq, Repr

/-- The text that is hashed: the answer without its operation, the answers ordered by question. -/
structure Fingerprint where
  generation : String
  requestId : String
  kind : RequestKind
  decision : Option Decision
  answers : Option Answers
  deriving DecidableEq, Repr

def nativeResponseFingerprint (input : ResponseInput) : Fingerprint :=
  { generation := input.generation, requestId := input.requestId, kind := input.kind,
    decision := input.decision,
    answers := input.answers.map fun answers => answers.mergeSort fun left right => left.1 ≤ right.1 }

structure NativeResponseCommand where
  operationId : String
  generation : String
  requestId : String
  fingerprint : Fingerprint
  kind : RequestKind
  decision : Option Decision
  answers : Option Answers
  deriving DecidableEq, Repr

def commandOf (input : ResponseInput) : NativeResponseCommand :=
  { operationId := input.operationId, generation := input.generation,
    requestId := input.requestId, fingerprint := nativeResponseFingerprint input,
    kind := input.kind, decision := input.decision, answers := input.answers }

inductive Outcome where
  | submitted | rejected | uncertain
  deriving DecidableEq, Repr

structure NativeResponseReceipt where
  operationId : String
  requestId : String
  fingerprint : Fingerprint
  outcome : Outcome
  reason : Option String
  deriving DecidableEq, Repr

/-- `receipt(outcome, reason)` of `answerNativeCommand`. -/
def receiptOf (command : NativeResponseCommand) (outcome : Outcome) (reason : Option String) :
    NativeResponseReceipt :=
  ⟨command.operationId, command.requestId, command.fingerprint, outcome, reason⟩

def sortIds (ids : List String) : List String := ids.mergeSort fun left right => left ≤ right

/-- The given answers do not fit what the question declared. -/
def misfits (question : NativeQuestion) (given : List String) : Bool :=
  (question.multiple == some false && given.length != 1) ||
    (!question.isOther && question.options.any fun options =>
      given.any fun answer => !options.contains answer)

/-- Why a response cannot answer the request it names, or none when it can. -/
def nativeResponseRefusal (command : NativeResponseCommand) (request : Option NativePendingRequest)
    (generation : String) : Option String :=
  if command.generation ≠ generation then some "projection-generation-mismatch"
  else match request with
  | none => some "request-is-not-pending"
  | some request =>
    if request.kind ≠ command.kind then some "request-kind-mismatch"
    else match command.kind with
    | .approval =>
      if command.decision.any request.decisions.contains then none
      else some "decision-is-not-available"
    | .input =>
      match command.answers with
      | none => some "answers-are-required"
      | some answers =>
        let expected := sortIds (request.questions.map fun question => question.id)
        if sortIds (answers.map fun answer => answer.1) ≠ expected then some "question-id-mismatch"
        else if request.questions.any (fun question =>
            misfits question ((answers.lookup question.id).getD [])) then
          some "answer-is-not-available"
        else none

/-- The published projection that a response is checked against. -/
structure ControlNativeSnapshot where
  generation : String
  pending : List NativePendingRequest
  deriving DecidableEq, Repr

/-- The durable answer of a message operation, where the runtime journals one. -/
structure NativeContinuation where
  responseOperationId : String
  responseFingerprint : Fingerprint
  requestId : String
  deriving DecidableEq, Repr

def payloadChanged : AppError := ⟨"IDEMPOTENCY_CONFLICT", "Native response payload changed", 409⟩

def staleRequest (reason : Option String) : AppError :=
  ⟨"STALE_REQUEST", reason.getD "Native response was rejected", 409⟩

def projectionUnavailable : AppError := ⟨"UNAVAILABLE", "Native projection is unavailable", 503⟩

def generationChanged : AppError := ⟨"STALE_REQUEST", "Projection generation changed", 409⟩

def notPending : AppError := ⟨"STALE_REQUEST", "Native request is not pending", 409⟩

def anotherPending : AppError := ⟨"BUSY", "Another native response is pending", 429⟩

/-- Where a call of `respondControlNative` stands; an answer taken from a receipt names it. -/
inductive Point where
  | fromReceipt (receipt : NativeResponseReceipt) (answer : Except AppError Outcome)
  | fromJournal (answer : Except AppError Outcome)
  | refused (e : AppError)
  | writing (command : NativeResponseCommand)
  | waiting
  | gaveUp (outcome : Outcome)

/-- A stored receipt, read as the answer. -/
def receiptAnswer (receipt : NativeResponseReceipt) : Except AppError Outcome :=
  match receipt.outcome with
  | .rejected => .error (staleRequest receipt.reason)
  | outcome => .ok outcome

/-- The receipt of an earlier call with the same operation, for this payload. -/
def priorAnswer (receipt : NativeResponseReceipt) (input : ResponseInput) :
    Except AppError Outcome :=
  if receipt.fingerprint ≠ nativeResponseFingerprint input then .error payloadChanged
  else receiptAnswer receipt

/-- `respondControlNative` up to its write: the journal, the receipt, the projection and the command
file are read at one instant. -/
@[grind =]
def respondControlNative (continuations : List NativeContinuation)
    (receipt : Option NativeResponseReceipt) (published : Option ControlNativeSnapshot)
    (active : Option NativeResponseCommand) (input : ResponseInput) : Point :=
  match continuations.find? fun c => c.responseOperationId == input.operationId with
  | some canonical =>
    if canonical.responseFingerprint ≠ nativeResponseFingerprint input ∨
        canonical.requestId ≠ input.requestId then .fromJournal (.error payloadChanged)
    else .fromJournal (.ok .submitted)
  | none =>
    match receipt.filter fun prior => prior.operationId == input.operationId with
    | some prior => .fromReceipt prior (priorAnswer prior input)
    | none =>
      match published with
      | none => .refused projectionUnavailable
      | some snapshot =>
        if snapshot.generation ≠ input.generation then .refused generationChanged
        else if !(snapshot.pending.find? fun item => item.requestId == input.requestId).any
            fun item => item.kind == input.kind then .refused notPending
        else match active with
        | none => .writing (commandOf input)
        | some command =>
          if command.operationId ≠ input.operationId then .refused anotherPending
          else if command.fingerprint ≠ nativeResponseFingerprint input then
            .refused payloadChanged
          else .waiting

/-- One pass of the loop that waits for the receipt of its operation. -/
def lookForReceipt (receipt : Option NativeResponseReceipt) (operationId : String) : Point :=
  match receipt.filter fun prior => prior.operationId == operationId with
  | some prior => .fromReceipt prior (receiptAnswer prior)
  | none => .waiting

/-- Where `answerNativeCommand` stands with the command it read. -/
inductive OwnerPoint where
  | idle
  | rejecting (command : NativeResponseCommand) (reason : String)
  | announcing (command : NativeResponseCommand)
  | submitting (command : NativeResponseCommand)
  | recording (command : NativeResponseCommand)
  | clearing
  deriving DecidableEq, Repr

/-- `answerNativeCommand` up to its first write. -/
@[grind =]
def answerNativeCommand (command : Option NativeResponseCommand)
    (receipt : Option NativeResponseReceipt) (generation : String)
    (pending : List NativePendingRequest) : OwnerPoint :=
  match command with
  | none => .idle
  | some command =>
    if receipt.any fun prior => prior.operationId == command.operationId then .clearing
    else
      let request := pending.find? fun item => item.requestId == command.requestId
      match nativeResponseRefusal command request generation with
      | some reason => .rejecting command reason
      | none => .announcing command

/-! Whatever a command says, a request that it answers can be pending, unless it says nothing. -/

/-- Some request takes the command of generation `g`. -/
def answerable (generation : String) (command : NativeResponseCommand) : Bool :=
  command.generation == generation &&
    match command.kind with
    | .approval => command.decision.isSome
    | .input => command.answers.isSome

/-- A request that takes whatever the command answers. -/
def requestFor (command : NativeResponseCommand) : NativePendingRequest :=
  { requestId := command.requestId, kind := command.kind,
    decisions := command.decision.toList,
    questions := (command.answers.getD []).map fun answer =>
      { id := answer.1, isOther := true, options := none } }

section
variable {command : NativeResponseCommand} {request : NativePendingRequest} {g : String}

theorem misfits_requestFor {question : NativeQuestion} (h : question ∈ (requestFor command).questions)
    (given : List String) : misfits question given = false := by
  obtain ⟨answer, -, rfl⟩ := List.mem_map.mp h
  simp [misfits]

theorem refusal_requestFor (h : answerable g command = true) :
    nativeResponseRefusal command (some (requestFor command)) g = none := by
  simp only [answerable, Bool.and_eq_true, beq_iff_eq] at h
  obtain ⟨hgen, hkind⟩ := h
  cases hk : command.kind with
  | approval =>
    rw [hk] at hkind
    obtain ⟨decision, hdecision⟩ := Option.isSome_iff_exists.mp hkind
    simp [nativeResponseRefusal, requestFor, hgen, hk, hdecision]
  | input =>
    rw [hk] at hkind
    obtain ⟨answers, hanswers⟩ := Option.isSome_iff_exists.mp hkind
    have hids : (requestFor command).questions.map (fun question => question.id) =
        answers.map fun answer => answer.1 := by
      simp [requestFor, hanswers, Function.comp_def]
    have hfits : ((requestFor command).questions.any fun question =>
        misfits question ((answers.lookup question.id).getD [])) = false := by
      rw [List.any_eq_false]
      intro question hq
      rw [misfits_requestFor hq]
      exact Bool.false_ne_true
    have hkind' : (requestFor command).kind = command.kind := rfl
    simp [nativeResponseRefusal, hgen, hk, hkind', hanswers, hids, hfits]

theorem answerable_of_taken (h : nativeResponseRefusal command (some request) g = none) :
    answerable g command = true := by
  unfold nativeResponseRefusal at h
  split at h
  · cases h
  · rename_i hgen
    have hgen' : command.generation = g := not_not.mp hgen
    dsimp only at h
    split at h
    · cases h
    · unfold answerable
      cases hk : command.kind with
      | approval =>
        rw [hk] at h
        cases hd : command.decision with
        | none => simp [hd] at h
        | some decision => simp [hgen']
      | input =>
        rw [hk] at h
        cases ha : command.answers with
        | none => simp [ha] at h
        | some answers => simp [hgen']

end

end Ccmux.Runtime.Response
