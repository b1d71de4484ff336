/- Module: Ccmux/Steering/Service
   source: src/steering/service.ts, src/steering/receipt.ts
   digest: A steering call as the steps between which it can fail or the process can end. -/

import Ccmux.Steering.Journal

namespace Ccmux.Steering

open Ccmux.Chat.Identity (ChatPrincipal chatPrincipalKey)

inductive Request where
  | steer (principal : ChatPrincipal) (input : SteeringInput)
  | read (principal : ChatPrincipal) (input : SteeringSelector)
  deriving DecidableEq, Repr

def Request.principal : Request → ChatPrincipal
  | .steer principal _ => principal
  | .read principal _ => principal

def Request.selector : Request → SteeringSelector
  | .steer _ input => input.toSteeringSelector
  | .read _ input => input

/-- A read names the operation without its payload. -/
def Request.fingerprint : Request → Option Fingerprint
  | .steer principal input => some (steeringFingerprint principal input)
  | .read _ _ => none

/-- The parameters of `turn/steer`, with the registration they were sent for. -/
structure TurnSteer where
  registration : String
  operationId : String
  threadId : String
  expectedTurnId : String
  clientUserMessageId : String
  body : String
  images : List AttachmentReference
  deriving DecidableEq, Repr

def TurnSteer.key (sent : TurnSteer) : String × String := (sent.registration, sent.operationId)

inductive Evidence where
  | answered (clientUserMessageId turnId : String)
  | listed (page : List NativeTurn)
  deriving DecidableEq, Repr

inductive Reply where
  | receipt (receipt : SteeringReceipt)
  | absent
  | failure (code : SteeringFailure)
  | crashed
  deriving DecidableEq, Repr

/-- Where a call stands that holds both locks, with the journal it has in memory. -/
inductive Stage where
  | admitted
  | looking (journal : SteeringJournal) (prior : SteeringOperation)
  | settling (journal : SteeringJournal) (operation : SteeringOperation)
  | checking (journal : SteeringJournal) (input : SteeringInput)
  | intending (journal : SteeringJournal) (operation : SteeringOperation) (input : SteeringInput)
  | requesting (journal : SteeringJournal) (operation : SteeringOperation) (input : SteeringInput)
  deriving DecidableEq, Repr

/-- A call with the session it resolved; `before` is the file as the call found it. -/
structure Running where
  request : Request
  session : Session
  before : Option SteeringJournal
  stage : Stage
  deriving DecidableEq, Repr

structure Ended where
  request : Request
  before : Option SteeringJournal
  after : Option SteeringJournal
  reply : Reply
  deriving DecidableEq, Repr

structure World where
  session : Session
  file : Option SteeringJournal := none
  running : Option Running := none
  sent : List TurnSteer := []
  evidence : List Evidence := []
  ended : List Ended := []
  deriving DecidableEq, Repr

/-- `thrown` is an error after the rename, and `refused` one before it. -/
inductive WriteOutcome where
  | landed | thrown | refused
  deriving DecidableEq, Repr

inductive Event where
  | call (request : Request)
  | read (readable : Bool)
  | look (page : Option (List NativeTurn)) (now : Instant)
  | check (failure : Option SteeringFailure) (now : Instant)
  | write (outcome : WriteOutcome)
  | steer (answer : Option String) (now : Instant)
  | crash
  | register (registrationGeneration : String)
  deriving DecidableEq, Repr

def World.finish (w : World) (r : Running) (reply : Reply) : World :=
  { w with
    running := none
    ended := w.ended ++ [⟨r.request, r.before, w.file, reply⟩] }

def World.move (w : World) (r : Running) (stage : Stage) : World :=
  { w with running := some { r with stage } }

/-- `steeringTarget` finds the registration that the caller names. -/
def targets (session : Session) (request : Request) : Bool :=
  session.registrationGeneration == request.selector.registrationGeneration

def call (w : World) (request : Request) : World :=
  let r : Running := ⟨request, w.session, w.file, .admitted⟩
  if targets w.session request then w.move r .admitted
  else w.finish r (.failure .identityMismatch)

/-- Under both locks: the target again, the journal, and the prior operation of the id. -/
def read (w : World) (r : Running) (readable : Bool) : World :=
  let failed code := w.finish r (.failure code)
  if !targets w.session r.request then failed .identityMismatch
  else
    match (readSteeringJournal w.file r.session).filter fun _ => readable with
    | none => failed .steeringUnavailable
    | some journal =>
      let id := r.request.selector.operationId
      match priorSteering journal r.request.principal id r.request.fingerprint with
      | .error code => failed code
      | .ok (some prior) =>
        if prior.phase = .submitted then w.finish r (.receipt prior.receipt)
        else w.move r (.looking journal prior)
      | .ok none =>
        match r.request with
        | .read _ _ => w.finish r .absent
        | .steer _ input =>
          if maxOperations ≤ journal.operations.length then failed .capacity
          else w.move r (.checking journal input)

/-- `reconcileSteering` up to its write; a page that is not there leaves the operation uncertain. -/
def look (w : World) (r : Running) (journal : SteeringJournal) (prior : SteeringOperation)
    (page : Option (List NativeTurn)) (now : Instant) : World :=
  let accepted := acceptedBy page prior.receipt
  let seen := { w with evidence := w.evidence ++ (page.map Evidence.listed).toList }
  seen.move r (.settling (journal.settle prior.id accepted now) (prior.settled accepted now))

def intentOf (principal : ChatPrincipal) (input : SteeringInput) (now : Instant) :
    SteeringOperation :=
  { fingerprint := steeringFingerprint principal input
    principal := chatPrincipalKey principal
    phase := .intent
    reason := none
    receipt :=
      { operationId := input.operationId
        target := input.target
        registrationGeneration := input.registrationGeneration
        generation := input.generation
        turnId := input.expectedTurnId
        clientUserMessageId := "steer:" ++ input.operationId
        state := .uncertain
        observedAt := now } }

/-- The checks of the pane, the turn and the images, up to the operation in memory. -/
def check (w : World) (r : Running) (journal : SteeringJournal) (input : SteeringInput)
    (failure : Option SteeringFailure) (now : Instant) : World :=
  match failure with
  | some code => w.finish r (.failure code)
  | none =>
    let operation := intentOf r.request.principal input now
    w.move r (.intending (journal.push operation) operation input)

def turnSteer (r : Running) (journal : SteeringJournal) (operation : SteeringOperation)
    (input : SteeringInput) : TurnSteer :=
  { registration := journal.registration
    operationId := operation.id
    threadId := r.session.uuid
    expectedTurnId := input.expectedTurnId
    clientUserMessageId := operation.receipt.clientUserMessageId
    body := input.body
    images := input.images }

/-- The request to the provider, and its answer if there is one that names a turn. -/
def steer (w : World) (r : Running) (journal : SteeringJournal) (operation : SteeringOperation)
    (input : SteeringInput) (answer : Option String) (now : Instant) : World :=
  let accepted := answer == some input.expectedTurnId
  let messageId := operation.receipt.clientUserMessageId
  let asked := { w with
    sent := w.sent ++ [turnSteer r journal operation input]
    evidence := w.evidence ++ (answer.map (Evidence.answered messageId)).toList }
  asked.move r
    (.settling (journal.settle operation.id accepted now) (operation.settled accepted now))

/-- `writeSteeringJournal`, and what the call does after it. -/
def write (jsonBytes : SteeringJournal → Nat) (w : World) (r : Running)
    (journal : SteeringJournal) (outcome : WriteOutcome) (next : World → World) : World :=
  let landed := { w with file := some journal }
  if !writable jsonBytes journal then w.finish r (.failure .steeringUnavailable)
  else
    match outcome with
    | .refused => w.finish r (.failure .steeringUnavailable)
    | .thrown => landed.finish r (.failure .steeringUnavailable)
    | .landed => next landed

variable (jsonBytes : SteeringJournal → Nat)

/-- One step of the running call; the locks let no other call run. -/
def advance (w : World) (r : Running) : Event → Option World
  | .read readable =>
    match r.stage with
    | .admitted => some (read w r readable)
    | _ => none
  | .look page now =>
    match r.stage with
    | .looking journal prior => some (look w r journal prior page now)
    | _ => none
  | .check failure now =>
    match r.stage with
    | .checking journal input => some (check w r journal input failure now)
    | _ => none
  | .write outcome =>
    match r.stage with
    | .settling journal operation =>
      some (write jsonBytes w r journal outcome fun v => v.finish r (.receipt operation.receipt))
    | .intending journal operation input =>
      some (write jsonBytes w r journal outcome fun v =>
        v.move r (.requesting journal operation input))
    | _ => none
  | .steer answer now =>
    match r.stage with
    | .requesting journal operation input => some (steer w r journal operation input answer now)
    | _ => none
  | .crash => some (w.finish r .crashed)
  | .call _ => none
  | .register _ => none

def step (w : World) : Event → Option World
  | .call request =>
    match w.running with
    | none => some (call w request)
    | some _ => none
  | .register registrationGeneration =>
    some { w with session := { w.session with registrationGeneration } }
  | e => w.running.bind fun r => advance jsonBytes w r e

end Ccmux.Steering
